import Mathlib.Data.List.Sort

namespace Dhttp.Lib
set_option autoImplicit true

section Sorting

/-- A stable sort. -/
def sortBy (cmp : α → α → Ordering) (xs : List α) : List α :=
  xs.insertionSort fun x y => (cmp x y).isLE = true

variable {cmp : α → α → Ordering}

theorem sortBy_perm (xs : List α) : (sortBy cmp xs).Perm xs :=
  List.perm_insertionSort _ xs

@[simp] theorem mem_sortBy : x ∈ sortBy cmp xs ↔ x ∈ xs :=
  (sortBy_perm xs).mem_iff

theorem sortBy_of_pairwise (h : xs.Pairwise fun x y => (cmp x y).isLE = true) :
    sortBy cmp xs = xs :=
  h.insertionSort_eq

theorem sortBy_map {cmp' : β → β → Ordering} {f : α → β}
    (h : ∀ x ∈ xs, ∀ y ∈ xs, cmp x y = cmp' (f x) (f y)) :
    sortBy cmp' (xs.map f) = (sortBy cmp xs).map f := by
  apply Eq.symm
  apply List.map_insertionSort
  intro x hx y hy
  rw [h x hx y hy]

variable [Std.TransCmp cmp]

theorem sortBy_pairwise (xs : List α) :
    (sortBy cmp xs).Pairwise fun x y => (cmp x y).isLE = true := by
  have ht : Std.Total fun x y : α => (cmp x y).isLE = true := ⟨fun x y => by
    have hg : (cmp x y).isGE = true ↔ (cmp y x).isLE = true := Std.OrientedCmp.isGE_iff_isLE
    rw [← hg]
    cases cmp x y <;> simp⟩
  have htrans : IsTrans α fun x y : α => (cmp x y).isLE = true :=
    ⟨fun _ _ _ h h' => Std.TransCmp.isLE_trans h h'⟩
  exact List.pairwise_insertionSort _ xs

/-- Sorted lists of the same elements are equal where the order tells elements apart. -/
theorem sortBy_unique (hp : ys.Perm xs) (hs : ys.Pairwise fun x y => (cmp x y).isLE = true)
    (ha : ∀ x ∈ xs, ∀ y ∈ xs, cmp x y = .eq → x = y) : sortBy cmp xs = ys := by
  apply List.Perm.eq_of_pairwise _ (sortBy_pairwise xs) hs ((sortBy_perm xs).trans hp.symm)
  intro x y hx hy hxy hyx
  exact ha x (mem_sortBy.1 hx) y (hp.mem_iff.1 hy) (Std.OrientedCmp.isLE_antisymm hxy hyx)

theorem sortBy_congr (hp : ys.Perm xs) (ha : ∀ x ∈ xs, ∀ y ∈ xs, cmp x y = .eq → x = y) :
    sortBy cmp xs = sortBy cmp ys :=
  sortBy_unique ((sortBy_perm ys).trans hp) (sortBy_pairwise ys) ha

theorem sortBy_filter (ha : ∀ x ∈ xs, ∀ y ∈ xs, cmp x y = .eq → x = y) (p : α → Bool) :
    sortBy cmp (xs.filter p) = (sortBy cmp xs).filter p := by
  apply sortBy_unique ((sortBy_perm xs).filter p) ((sortBy_pairwise xs).filter p)
  intro x hx y hy
  exact ha x (List.mem_of_mem_filter hx) y (List.mem_of_mem_filter hy)

/-- An element that comes after all the others is sorted last. -/
theorem sortBy_last (hp : ys.Perm (x :: xs)) (hx : ∀ y ∈ xs, cmp y x = .lt)
    (ha : ∀ y ∈ xs, ∀ z ∈ xs, cmp y z = .eq → y = z) :
    sortBy cmp ys = sortBy cmp xs ++ [x] := by
  have hperm : (sortBy cmp xs ++ [x]).Perm ys :=
    (List.perm_append_singleton x _).trans (((sortBy_perm xs).cons x).trans hp.symm)
  have hs : (sortBy cmp xs ++ [x]).Pairwise fun x y => (cmp x y).isLE = true := by
    rw [List.pairwise_append]
    refine ⟨sortBy_pairwise xs, List.pairwise_singleton .., ?_⟩
    intro y hy z hz
    rw [List.mem_singleton.1 hz, hx y (mem_sortBy.1 hy)]
    rfl
  apply sortBy_unique hperm hs
  intro y hy z hz h
  rcases List.mem_cons.1 (hp.mem_iff.1 hy) with rfl | hy
  · rcases List.mem_cons.1 (hp.mem_iff.1 hz) with rfl | hz
    · rfl
    · rw [Std.OrientedCmp.eq_comm, hx z hz] at h
      cases h
  · rcases List.mem_cons.1 (hp.mem_iff.1 hz) with rfl | hz
    · rw [hx y hy] at h
      cases h
    · exact ha y hy z hz h

/-- Comparing by a function of the elements. -/
theorem transCmp_on (f : β → α) : Std.TransCmp fun x y => cmp (f x) (f y) where
  eq_swap := Std.OrientedCmp.eq_swap
  isLE_trans := Std.TransCmp.isLE_trans

end Sorting

section Collecting

variable [BEq κ]

/-- Of neighbours with equal keys, the last one is kept. -/
def dedupSorted : List (κ × α) → List (κ × α)
  | [] => []
  | [x] => [x]
  | x :: y :: xs => if x.1 == y.1 then dedupSorted (y :: xs) else x :: dedupSorted (y :: xs)

/-- An ordered map built from a list, as its entries in order: the keys are sorted by `cmp`, but
neighbours are merged by their equality. -/
def collect (cmp : κ → κ → Ordering) (xs : List (κ × α)) : List (κ × α) :=
  dedupSorted (sortBy (fun x y => cmp x.1 y.1) xs)

theorem dedupSorted_map (f : α → β) (xs : List (κ × α)) :
    dedupSorted (xs.map (Prod.map id f)) = (dedupSorted xs).map (Prod.map id f) := by
  induction xs using dedupSorted.induct with
  | case1 => rfl
  | case2 x => rfl
  | case3 x y xs h ih =>
    rw [dedupSorted, if_pos h, ← ih]
    exact if_pos h
  | case4 x y xs h ih =>
    rw [dedupSorted, if_neg h, List.map_cons, List.map_cons, List.map_cons, ← ih]
    exact if_neg h

variable {cmp : κ → κ → Ordering}

theorem collect_map (f : α → β) (xs : List (κ × α)) :
    collect cmp (xs.map (Prod.map id f)) = (collect cmp xs).map (Prod.map id f) := by
  have hs : sortBy (fun x y => cmp x.1 y.1) (xs.map (Prod.map id f)) =
      (sortBy (fun x y => cmp x.1 y.1) xs).map (Prod.map id f) :=
    sortBy_map fun _ _ _ _ => rfl
  rw [collect, hs, dedupSorted_map]
  rfl

variable [LawfulBEq κ]

theorem dedupSorted_of_nodup {xs : List (κ × α)} (h : (xs.map Prod.fst).Nodup) :
    dedupSorted xs = xs := by
  induction xs using dedupSorted.induct with
  | case1 => rfl
  | case2 x => rfl
  | case3 x y xs he ih =>
    rw [List.map_cons, List.map_cons, eq_of_beq he, List.nodup_cons] at h
    exact absurd (List.mem_cons_self ..) h.1
  | case4 x y xs he ih => rw [dedupSorted, if_neg he, ih h.of_cons]

/-- No entry is lost when the keys are distinct, whatever the order makes of them. -/
theorem collect_of_nodup {xs : List (κ × α)} (h : (xs.map Prod.fst).Nodup) :
    collect cmp xs = sortBy (fun x y => cmp x.1 y.1) xs := by
  apply dedupSorted_of_nodup
  exact ((sortBy_perm xs).map Prod.fst).nodup_iff.2 h

theorem collect_perm {xs : List (κ × α)} (h : (xs.map Prod.fst).Nodup) :
    (collect cmp xs).Perm xs := by
  rw [collect_of_nodup h]
  exact sortBy_perm xs

variable [Std.TransCmp cmp]

theorem collect_pairwise {xs : List (κ × α)} (h : (xs.map Prod.fst).Nodup) :
    (collect cmp xs).Pairwise fun x y => (cmp x.1 y.1).isLE = true := by
  rw [collect_of_nodup h]
  have ht : Std.TransCmp fun x y : κ × α => cmp x.1 y.1 := transCmp_on Prod.fst
  exact sortBy_pairwise xs

/-- Collecting the entries of a collected map again changes nothing. -/
theorem collect_collect {xs : List (κ × α)} (h : (xs.map Prod.fst).Nodup) :
    collect cmp (collect cmp xs) = collect cmp xs := by
  have hn : ((collect cmp xs).map Prod.fst).Nodup :=
    ((collect_perm h).map Prod.fst).nodup_iff.2 h
  rw [collect_of_nodup hn]
  exact sortBy_of_pairwise (collect_pairwise h)

end Collecting

/-- The first match in an ordered list comes before every other match. -/
theorem find?_minimal {r : α → α → Prop} {xs : List α} (hs : xs.Pairwise r) (hr : ∀ x, r x x)
    (h : xs.find? p = some x) : x ∈ xs ∧ p x = true ∧ ∀ y ∈ xs, p y = true → r x y := by
  obtain ⟨hp, before, after, rfl, hb⟩ := List.find?_eq_some_iff_append.1 h
  refine ⟨List.mem_append_right _ (List.mem_cons_self ..), hp, ?_⟩
  intro y hy hpy
  rcases List.mem_append.1 hy with hy | hy
  · have hn := hb y hy
    rw [hpy] at hn
    cases hn
  · rcases List.mem_cons.1 hy with rfl | hy
    · exact hr y
    · exact List.rel_of_pairwise_cons (List.pairwise_append.1 hs).2.1 hy

/-- In a list without repetitions the first of two neighbours stands before the second. -/
theorem mem_before_of_pair {before after : List α} (hn : (before ++ x :: after).Nodup)
    (h : [y, x].Sublist (before ++ x :: after)) : y ∈ before := by
  obtain ⟨hb, ha, hd⟩ := List.nodup_append.1 hn
  obtain ⟨l, l', he, hl, hl'⟩ := List.sublist_append_iff.1 h
  cases l with
  | nil =>
    rw [List.nil_append] at he
    rw [← he] at hl'
    have hx : x ∈ after := by
      cases hl' with
      | cons _ hs => exact hs.subset (by simp)
      | cons_cons _ hs => exact hs.subset (by simp)
    exact absurd hx (List.nodup_cons.1 ha).1
  | cons z l =>
    obtain ⟨rfl, -⟩ := List.cons.inj he
    exact hl.subset (List.mem_cons_self ..)

theorem pair_sublist {xs : List α} (hx : x ∈ xs) (hy : y ∈ xs) (hne : x ≠ y) :
    [x, y].Sublist xs ∨ [y, x].Sublist xs := by
  obtain ⟨before, after, rfl⟩ := List.append_of_mem hx
  rcases List.mem_append.1 hy with hy | hy
  · right
    exact (List.singleton_sublist.2 hy).append (List.singleton_sublist.2 (List.mem_cons_self ..))
  · left
    rcases List.mem_cons.1 hy with rfl | hy
    · exact absurd rfl hne
    · exact ((List.singleton_sublist.2 hy).cons_cons x).trans (List.sublist_append_right ..)

section
variable {cmp : α → α → Ordering} [Std.TransCmp cmp]

theorem find?_sortBy_first (hn : xs.Nodup) (h : (sortBy cmp xs).find? p = some x) :
    x ∈ xs ∧ p x = true ∧ ∀ y ∈ xs, p y = true → y ≠ x →
      cmp x y = .lt ∨ cmp x y = .eq ∧ [x, y].Sublist xs := by
  obtain ⟨hmem, hp, hmin⟩ := find?_minimal (sortBy_pairwise xs) (fun _ => Std.ReflCmp.isLE_rfl) h
  refine ⟨mem_sortBy.1 hmem, hp, ?_⟩
  intro y hy hpy hne
  have hle := hmin y (mem_sortBy.2 hy) hpy
  cases hc : cmp x y with
  | lt => exact .inl rfl
  | gt =>
    rw [hc] at hle
    cases hle
  | eq =>
    right
    refine ⟨rfl, ?_⟩
    apply (pair_sublist (mem_sortBy.1 hmem) hy (Ne.symm hne)).resolve_right
    intro hs
    obtain ⟨-, before, after, he, hb⟩ := List.find?_eq_some_iff_append.1 h
    have hsort : [y, x].Sublist (sortBy cmp xs) := by
      apply List.pair_sublist_insertionSort _ hs
      rw [Std.OrientedCmp.eq_comm.1 hc]
      rfl
    have hnodup : (sortBy cmp xs).Nodup := (sortBy_perm xs).nodup_iff.2 hn
    rw [he] at hsort hnodup
    have hpy' := hb y (mem_before_of_pair hnodup hsort)
    rw [hpy] at hpy'
    cases hpy'

/-- The first match after a stable sort: ties go to the element that came first. -/
theorem find?_sortBy_iff (hn : xs.Nodup) : (sortBy cmp xs).find? p = some x ↔
    x ∈ xs ∧ p x = true ∧ ∀ y ∈ xs, p y = true → y ≠ x →
      cmp x y = .lt ∨ cmp x y = .eq ∧ [x, y].Sublist xs := by
  constructor
  · exact find?_sortBy_first hn
  · intro ⟨hx, hp, hfirst⟩
    cases hf : (sortBy cmp xs).find? p with
    | none => exact absurd hp (List.find?_eq_none.1 hf x (mem_sortBy.2 hx))
    | some z =>
      obtain ⟨hz, hpz, hz'⟩ := find?_sortBy_first hn hf
      by_contra hne
      have hzx : z ≠ x := fun he => hne (congrArg some he)
      rcases hfirst z hz hpz hzx with hlt | ⟨heq, hs⟩
      · rcases hz' x hx hp hzx.symm with hlt' | ⟨heq', -⟩
        · rw [Std.OrientedCmp.gt_of_lt hlt] at hlt'
          cases hlt'
        · rw [Std.OrientedCmp.eq_comm.1 heq'] at hlt
          cases hlt
      · rcases hz' x hx hp hzx.symm with hlt' | ⟨-, hs'⟩
        · rw [Std.OrientedCmp.eq_comm.1 heq] at hlt'
          cases hlt'
        · obtain ⟨before, after, rfl⟩ := List.append_of_mem hz
          have hb := mem_before_of_pair hn hs
          obtain ⟨front, back, rfl⟩ := List.append_of_mem hb
          rw [List.append_assoc, List.cons_append] at hn hs'
          have hb' := mem_before_of_pair hn hs'
          have hd := List.nodup_append.1 hn
          exact hd.2.2 z hb' z (by simp) rfl

end

/-- The first match of an ordered map over distinct keys. -/
theorem find?_collect [BEq κ] [LawfulBEq κ] {cmp : κ → κ → Ordering} (key : α → κ) {xs : List α}
    (h : (xs.map key).Nodup) (p : κ → Bool) :
    (collect cmp (xs.map fun x => (key x, x))).find? (fun e => p e.1) =
      ((sortBy (fun x y => cmp (key x) (key y)) xs).find? fun x => p (key x)).map
        fun x => (key x, x) := by
  have hk : ((xs.map fun x => (key x, x)).map Prod.fst).Nodup := by
    rw [List.map_map]
    exact h
  have hs : sortBy (fun e e' => cmp e.1 e'.1) (xs.map fun x => (key x, x)) =
      (sortBy (fun x y => cmp (key x) (key y)) xs).map fun x => (key x, x) :=
    sortBy_map fun _ _ _ _ => rfl
  rw [collect_of_nodup hk, hs, List.find?_map]
  rfl

end Dhttp.Lib
