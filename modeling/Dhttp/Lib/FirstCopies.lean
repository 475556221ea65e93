import Mathlib.Data.List.Basic
import Mathlib.Data.List.Induction
import Mathlib.Data.List.Nodup

namespace Dhttp.Lib
set_option autoImplicit true

section

theorem concat_eq_iff {xs before after : List α} : xs ++ [x] = before ++ s :: after ↔
    after = [] ∧ before = xs ∧ s = x ∨
      ∃ after', after = after' ++ [x] ∧ xs = before ++ s :: after' := by
  constructor
  · intro h
    induction after using List.reverseRecOn with
    | nil =>
      obtain ⟨hxs, hx⟩ := List.append_inj' h rfl
      exact .inl ⟨rfl, hxs.symm, (List.singleton_inj.mp hx).symm⟩
    | append_singleton after z _ =>
      rw [← List.cons_append, ← List.append_assoc] at h
      obtain ⟨hxs, hx⟩ := List.append_inj' h rfl
      exact .inr ⟨after, by rw [List.singleton_inj.mp hx], hxs⟩
  · intro h
    obtain ⟨rfl, rfl, rfl⟩ | ⟨after', rfl, rfl⟩ := h
    · rfl
    · rw [List.append_assoc, List.cons_append]

theorem findSome?_reverse_concat (f : α → Option β) (xs : List α) (x : α) :
    (xs ++ [x]).reverse.findSome? f = (f x).or (xs.reverse.findSome? f) := by
  rw [List.reverse_append, List.reverse_singleton, List.singleton_append, List.findSome?_cons]
  cases f x <;> rfl

theorem findSome?_reverse_some {f : α → Option β} {xs : List α} :
    xs.reverse.findSome? f = some b ↔
      ∃ before r after, xs = before ++ r :: after ∧ f r = some b ∧ ∀ x ∈ after, f x = none := by
  rw [List.findSome?_eq_some_iff]
  constructor
  · intro ⟨after, r, before, he, hr, hn⟩
    refine ⟨before.reverse, r, after.reverse, ?_, hr, fun x hx => hn x (List.mem_reverse.mp hx)⟩
    rw [← List.reverse_reverse xs, he, List.reverse_append, List.reverse_cons, List.append_assoc,
      List.singleton_append]
  · intro ⟨before, r, after, he, hr, hn⟩
    refine ⟨after.reverse, r, before.reverse, ?_, hr, fun x hx => hn x (List.mem_reverse.mp hx)⟩
    rw [he, List.reverse_append, List.reverse_cons, List.append_assoc, List.singleton_append]

variable (key : α → κ)

/-- An earlier element has the key. -/
def Repeats (earlier : List α) (x : α) : Prop :=
  ∃ y ∈ earlier, key y = key x

/-- Every element of `later` that `f` answers has been seen before. -/
def OnlyRepeats (f : α → Option β) (earlier later : List α) : Prop :=
  ∀ before x after, later = before ++ x :: after → f x ≠ none → Repeats key (earlier ++ before) x

theorem onlyRepeats_nil (f : α → Option β) (earlier : List α) : OnlyRepeats key f earlier [] := by
  intro before x after he
  exact absurd he.symm (List.append_ne_nil_of_right_ne_nil _ (List.cons_ne_nil _ _))

theorem onlyRepeats_concat (f : α → Option β) (earlier later : List α) (x : α) :
    OnlyRepeats key f earlier (later ++ [x]) ↔
      OnlyRepeats key f earlier later ∧ (f x ≠ none → Repeats key (earlier ++ later) x) := by
  constructor
  · intro h
    constructor
    · intro before y after he
      exact h before y (after ++ [x]) (concat_eq_iff.mpr (.inr ⟨after, rfl, he⟩))
    · exact h later x [] rfl
  · intro ⟨h, hx⟩ before y after he
    obtain ⟨rfl, rfl, rfl⟩ | ⟨after, rfl, hlater⟩ := concat_eq_iff.mp he
    · exact hx
    · exact h before y after hlater

variable [DecidableEq κ]

/-- The elements whose key no earlier element has. -/
def firstCopies (xs : List α) : List α :=
  xs.foldl (fun unique x => if unique.any (key · = key x) then unique else unique ++ [x]) []

theorem firstCopies_concat (xs : List α) (x : α) :
    firstCopies key (xs ++ [x]) =
      if (firstCopies key xs).any (key · = key x) then firstCopies key xs
      else firstCopies key xs ++ [x] :=
  List.foldl_concat ..

theorem firstCopies_sublist (xs : List α) : (firstCopies key xs).Sublist xs := by
  induction xs using List.reverseRecOn with
  | nil => exact List.Sublist.refl _
  | append_singleton xs x ih =>
    rw [firstCopies_concat]
    split
    · exact ih.trans (List.sublist_append_left xs [x])
    · exact ih.append (List.Sublist.refl _)

theorem exists_firstCopy {xs : List α} (h : x ∈ xs) :
    ∃ y ∈ firstCopies key xs, key y = key x := by
  induction xs using List.reverseRecOn with
  | nil => exact absurd h List.not_mem_nil
  | append_singleton xs z ih =>
    rw [firstCopies_concat]
    split
    · rename_i hany
      obtain ⟨y, hy, hk⟩ := List.any_eq_true.mp hany
      rcases List.mem_append.mp h with h | h
      · exact ih h
      · rw [List.mem_singleton.mp h]
        exact ⟨y, hy, of_decide_eq_true hk⟩
    · rcases List.mem_append.mp h with h | h
      · obtain ⟨y, hy, hk⟩ := ih h
        exact ⟨y, List.mem_append_left _ hy, hk⟩
      · exact ⟨x, List.mem_append_right _ h, rfl⟩

theorem any_firstCopies (xs : List α) (x : α) :
    (firstCopies key xs).any (key · = key x) = true ↔ Repeats key xs x := by
  rw [List.any_eq_true]
  constructor
  · intro ⟨y, hy, hk⟩
    exact ⟨y, (firstCopies_sublist key xs).subset hy, of_decide_eq_true hk⟩
  · intro ⟨y, hy, hk⟩
    obtain ⟨z, hz, he⟩ := exists_firstCopy key hy
    exact ⟨z, hz, decide_eq_true (he.trans hk)⟩

theorem firstCopies_concat_repeat {xs : List α} (h : Repeats key xs x) :
    firstCopies key (xs ++ [x]) = firstCopies key xs := by
  rw [firstCopies_concat, if_pos ((any_firstCopies key xs x).mpr h)]

theorem firstCopies_concat_fresh {xs : List α} (h : ¬Repeats key xs x) :
    firstCopies key (xs ++ [x]) = firstCopies key xs ++ [x] := by
  rw [firstCopies_concat, if_neg (mt (any_firstCopies key xs x).mp h)]

theorem firstCopies_nodup (xs : List α) : ((firstCopies key xs).map key).Nodup := by
  induction xs using List.reverseRecOn with
  | nil => exact List.nodup_nil
  | append_singleton xs x ih =>
    by_cases h : Repeats key xs x
    · rw [firstCopies_concat_repeat key h]
      exact ih
    · rw [firstCopies_concat_fresh key h, List.map_append, List.map_singleton]
      apply List.nodup_append.mpr
      refine ⟨ih, List.nodup_singleton _, ?_⟩
      intro k hk k' hk' he
      obtain ⟨y, hy, hyk⟩ := List.mem_map.mp hk
      rw [List.mem_singleton.mp hk'] at he
      exact h ⟨y, (firstCopies_sublist key xs).subset hy, hyk.trans he⟩

/-- Whole groups of equal keys can be dropped before or after. -/
theorem firstCopies_filter (q : κ → Bool) (xs : List α) :
    firstCopies key (xs.filter fun x => q (key x)) =
      (firstCopies key xs).filter fun x => q (key x) := by
  induction xs using List.reverseRecOn with
  | nil => rfl
  | append_singleton xs x ih =>
    have hrepeats (hq : q (key x) = true) :
        Repeats key (xs.filter fun x => q (key x)) x ↔ Repeats key xs x := by
      constructor
      · intro ⟨y, hy, hk⟩
        exact ⟨y, List.mem_of_mem_filter hy, hk⟩
      · intro ⟨y, hy, hk⟩
        exact ⟨y, List.mem_filter.mpr ⟨hy, by rw [hk]; exact hq⟩, hk⟩
    rw [List.filter_append, List.filter_singleton]
    cases hq : q (key x) with
    | false =>
      rw [cond_false, List.append_nil, ih]
      by_cases h : Repeats key xs x
      · rw [firstCopies_concat_repeat key h]
      · rw [firstCopies_concat_fresh key h, List.filter_append, List.filter_singleton, hq,
          cond_false, List.append_nil]
    | true =>
      rw [cond_true]
      by_cases h : Repeats key xs x
      · rw [firstCopies_concat_repeat key h,
          firstCopies_concat_repeat key ((hrepeats hq).mpr h), ih]
      · rw [firstCopies_concat_fresh key h,
          firstCopies_concat_fresh key (mt (hrepeats hq).mp h), ih, List.filter_append,
          List.filter_singleton, hq, cond_true]

/-- The answer left is that of a first copy after which only repeats have one. -/
theorem findSome?_firstCopies_some {f : α → Option β} {xs : List α} :
    (firstCopies key xs).reverse.findSome? f = some b ↔
      ∃ before s after, xs = before ++ s :: after ∧ ¬Repeats key before s ∧ f s = some b ∧
        OnlyRepeats key f (before ++ [s]) after := by
  induction xs using List.reverseRecOn with
  | nil =>
    constructor
    · intro h
      cases h
    · intro ⟨before, s, after, he, _⟩
      exact absurd he.symm (List.append_ne_nil_of_right_ne_nil _ (List.cons_ne_nil _ _))
  | append_singleton xs x ih =>
    by_cases hx : Repeats key xs x
    · rw [firstCopies_concat_repeat key hx, ih]
      constructor
      · intro ⟨before, s, after, he, hs, hb, ho⟩
        refine ⟨before, s, after ++ [x], concat_eq_iff.mpr (.inr ⟨after, rfl, he⟩), hs, hb, ?_⟩
        apply (onlyRepeats_concat key f _ _ x).mpr
        rw [List.append_assoc, List.singleton_append, ← he]
        exact ⟨ho, fun _ => hx⟩
      · intro ⟨before, s, after, he, hs, hb, ho⟩
        obtain ⟨rfl, rfl, rfl⟩ | ⟨after, rfl, hxs⟩ := concat_eq_iff.mp he
        · exact absurd hx hs
        · exact ⟨before, s, after, hxs, hs, hb, ((onlyRepeats_concat key f _ _ x).mp ho).1⟩
    · rw [firstCopies_concat_fresh key hx, findSome?_reverse_concat]
      constructor
      · intro h
        cases hf : f x with
        | some c =>
          rw [hf] at h
          refine ⟨xs, x, [], rfl, hx, hf.trans h, onlyRepeats_nil key f _⟩
        | none =>
          rw [hf, Option.none_or, ih] at h
          obtain ⟨before, s, after, he, hs, hb, ho⟩ := h
          refine ⟨before, s, after ++ [x], concat_eq_iff.mpr (.inr ⟨after, rfl, he⟩), hs, hb, ?_⟩
          exact (onlyRepeats_concat key f _ _ x).mpr ⟨ho, fun hne => absurd hf hne⟩
      · intro ⟨before, s, after, he, hs, hb, ho⟩
        obtain ⟨rfl, rfl, rfl⟩ | ⟨after, rfl, hxs⟩ := concat_eq_iff.mp he
        · rw [hb, Option.some_or]
        · obtain ⟨ho, hlast⟩ := (onlyRepeats_concat key f _ _ x).mp ho
          have hf : f x = none := by
            by_contra hne
            rw [List.append_assoc, List.singleton_append, ← hxs] at hlast
            exact hx (hlast hne)
          rw [hf, Option.none_or, ih]
          exact ⟨before, s, after, hxs, hs, hb, ho⟩

/-- A first copy stands after everything but repeats, and the last answer is another one. -/
def Overruled (key : α → κ) (f : α → Option β) (xs : List α) : Prop :=
  ∃ before s between r after, xs = before ++ s :: (between ++ r :: after) ∧
    ¬Repeats key before s ∧ OnlyRepeats key f (before ++ [s]) (between ++ r :: after) ∧
    f s ≠ none ∧ f r ≠ none ∧ f s ≠ f r ∧ ∀ x ∈ after, f x = none

theorem findSome?_firstCopies_iff {f : α → Option β} (hf : ∀ x y, key x = key y → f x = f y)
    (xs : List α) :
    (firstCopies key xs).reverse.findSome? f = xs.reverse.findSome? f ↔
      ¬Overruled key f xs := by
  constructor
  · intro h ⟨before, s, between, r, after, he, hs, ho, hfs, hfr, hne, hn⟩
    obtain ⟨b, hb⟩ := Option.ne_none_iff_exists'.mp hfs
    obtain ⟨a, ha⟩ := Option.ne_none_iff_exists'.mp hfr
    have hfirst := (findSome?_firstCopies_some key (f := f)).mpr ⟨before, s, _, he, hs, hb, ho⟩
    have hxs : xs = (before ++ s :: between) ++ r :: after := by
      rw [he, List.append_assoc, List.cons_append]
    have hlast := findSome?_reverse_some.mpr ⟨_, r, after, hxs, ha, hn⟩
    rw [hfirst, hlast, ← hb, ← ha] at h
    exact hne h
  · intro h
    cases hlast : xs.reverse.findSome? f with
    | none =>
      rw [List.findSome?_eq_none_iff] at hlast ⊢
      intro x hx
      apply hlast x
      exact List.mem_reverse.mpr ((firstCopies_sublist key xs).subset (List.mem_reverse.mp hx))
    | some a =>
      obtain ⟨before', r, after', he', ha, hn⟩ := findSome?_reverse_some.mp hlast
      cases hfirst : (firstCopies key xs).reverse.findSome? f with
      | none =>
        have hr : r ∈ xs := he' ▸ List.mem_append_right _ List.mem_cons_self
        obtain ⟨y, hy, hk⟩ := exists_firstCopy key hr
        have hnone := List.findSome?_eq_none_iff.mp hfirst y (List.mem_reverse.mpr hy)
        rw [hf y r hk, ha] at hnone
        cases hnone
      | some b =>
        by_contra hne
        obtain ⟨before, s, after, he, hs, hb, ho⟩ := (findSome?_firstCopies_some key).mp hfirst
        rw [he] at he'
        obtain ⟨t, ht, hrest⟩ | ⟨t, ht, hrest⟩ := List.append_eq_append_iff.mp he'
        · cases t with
          | nil =>
            obtain ⟨rfl, rfl⟩ := List.cons.inj hrest
            exact hne (hb.symm.trans ha)
          | cons z between =>
            obtain ⟨rfl, rfl⟩ := List.cons.inj hrest
            apply h
            refine ⟨before, s, between, r, after', he, hs, ho, ?_, ?_, ?_, hn⟩
            · rw [hb]
              exact Option.some_ne_none b
            · rw [ha]
              exact Option.some_ne_none a
            · rw [hb, ha]
              exact hne
        · cases t with
          | nil =>
            obtain ⟨rfl, rfl⟩ := List.cons.inj hrest
            exact hne (hb.symm.trans ha)
          | cons z between =>
            obtain ⟨rfl, rfl⟩ := List.cons.inj hrest
            have hnone := hn s (List.mem_append_right _ List.mem_cons_self)
            rw [hb] at hnone
            cases hnone

end

section Positions

/-- What is left of a list without some of its positions. -/
def withoutPositions (positions : List Nat) (xs : List α) : List α :=
  (xs.zipIdx.filter fun p => p.2 ∉ positions).map Prod.fst

theorem withoutPositions_map (f : α → β) (positions : List Nat) (xs : List α) :
    withoutPositions positions (xs.map f) = (withoutPositions positions xs).map f := by
  rw [withoutPositions, withoutPositions, List.zipIdx_map, List.filter_map, List.map_map,
    List.map_map]
  rfl

/-- Where the keys are distinct, the elements at some positions are those with their keys. -/
theorem filter_keys_eq (key : α → κ) {xs selected : List α} (hn : (xs.map key).Nodup)
    {positions : List Nat} (hs : ∀ x, x ∈ selected ↔ ∃ i ∈ positions, xs[i]? = some x)
    {q : κ → Bool} (hq : ∀ k, q k = true ↔ k ∉ selected.map key) :
    (xs.filter fun x => q (key x)) = withoutPositions positions xs := by
  have hpos : ∀ p ∈ xs.zipIdx, key p.1 ∈ selected.map key ↔ p.2 ∈ positions := by
    intro ⟨x, i⟩ hp
    have hx : xs[i]? = some x := List.mem_zipIdx_iff_getElem?.mp hp
    constructor
    · intro hk
      obtain ⟨y, hy, he⟩ := List.mem_map.mp hk
      obtain ⟨j, hj, hy⟩ := (hs y).mp hy
      have hkeys : (xs.map key)[i]? = (xs.map key)[j]? := by
        rw [List.getElem?_map, List.getElem?_map, hx, hy, Option.map_some, Option.map_some, he]
      have hlt : i < (xs.map key).length := by
        rw [List.length_map]
        exact (List.getElem?_eq_some_iff.mp hx).1
      rw [(List.getElem?_inj hlt hn).mp hkeys]
      exact hj
    · intro hi
      exact List.mem_map_of_mem ((hs x).mpr ⟨i, hi, hx⟩)
  have hmap : xs = xs.zipIdx.map Prod.fst := by rw [List.zipIdx_map_fst]
  conv_lhs => rw [hmap, List.filter_map]
  rw [withoutPositions]
  congr 1
  apply List.filter_congr
  intro p hp
  rw [Bool.eq_iff_iff, decide_eq_true_iff, ← hpos p hp]
  exact hq (key p.1)

end Positions
end Dhttp.Lib
