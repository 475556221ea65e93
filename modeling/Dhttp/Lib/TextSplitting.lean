import Mathlib.Data.List.Basic
import Mathlib.Data.List.DropRight

namespace Dhttp.Lib
set_option autoImplicit true

variable [DecidableEq α]

/-- The parts before and after the first separator. -/
def splitOnce (sep : α) : List α → Option (List α × List α)
  | [] => none
  | c :: s => if c = sep then some ([], s) else (splitOnce sep s).map fun p => (c :: p.1, p.2)

/-- The pieces between the separators. -/
def splitAll (sep : α) : List α → List (List α)
  | [] => [[]]
  | c :: s =>
    if c = sep then [] :: splitAll sep s
    else
      match splitAll sep s with
      | [] => [[c]]
      | piece :: pieces => (c :: piece) :: pieces

def replace (c : α) (new : List α) (s : List α) : List α :=
  s.flatMap fun d => if d = c then new else [d]

def stripPrefix (lead s : List α) : Option (List α) :=
  if lead.isPrefixOf s then some (s.drop lead.length) else none

def stripSuffix (tail s : List α) : Option (List α) :=
  (stripPrefix tail.reverse s.reverse).map List.reverse

theorem splitOnce_eq_some {sep : α} {s before after : List α} :
    splitOnce sep s = some (before, after) ↔ sep ∉ before ∧ s = before ++ sep :: after := by
  induction s generalizing before with
  | nil => simp [splitOnce]
  | cons c s ih =>
    rw [splitOnce]
    split
    · subst_vars
      cases before with
      | nil => simp [eq_comm]
      | cons d before => simp_all
    · rename_i hc
      cases before with
      | nil => simp [hc]
      | cons d before =>
        simp only [Option.map_eq_some_iff, Prod.exists, Prod.mk.injEq, List.cons.injEq,
          List.mem_cons, not_or, List.cons_append]
        constructor
        · rintro ⟨_, _, h, ⟨rfl, rfl⟩, rfl⟩
          obtain ⟨hn, rfl⟩ := ih.1 h
          exact ⟨⟨fun h => hc h.symm, hn⟩, rfl, rfl⟩
        · rintro ⟨⟨-, hn⟩, rfl, rfl⟩
          exact ⟨before, after, ih.2 ⟨hn, rfl⟩, ⟨rfl, rfl⟩, rfl⟩

theorem splitOnce_eq_none {sep : α} {s : List α} : splitOnce sep s = none ↔ sep ∉ s := by
  induction s with
  | nil => simp [splitOnce]
  | cons c s ih =>
    rw [splitOnce]
    split
    · simp_all
    · rename_i hc
      simp only [Option.map_eq_none_iff, ih, List.mem_cons, not_or]
      exact ⟨fun h => ⟨fun hs => hc hs.symm, h⟩, fun h => h.2⟩

theorem splitAll_sep (sep : α) (rest : List α) :
    splitAll sep (sep :: rest) = [] :: splitAll sep rest := if_pos rfl

theorem splitAll_char {sep c : α} (hc : c ≠ sep) (hs : splitAll sep rest = piece :: pieces) :
    splitAll sep (c :: rest) = (c :: piece) :: pieces := by
  rw [splitAll, if_neg hc, hs]

theorem splitAll_of_not_mem {sep : α} (h : sep ∉ s) : splitAll sep s = [s] := by
  induction s with
  | nil => rfl
  | cons c s ih =>
    rw [List.mem_cons, not_or] at h
    rw [splitAll, if_neg (Ne.symm h.1), ih h.2]

theorem splitAll_append {sep : α} (h : sep ∉ s) (rest : List α) :
    splitAll sep (s ++ sep :: rest) = s :: splitAll sep rest := by
  induction s with
  | nil => exact if_pos rfl
  | cons c s ih =>
    rw [List.mem_cons, not_or] at h
    rw [List.cons_append, splitAll, if_neg (Ne.symm h.1), ih h.2]

theorem splitAll_ne_nil (sep : α) (s : List α) : splitAll sep s ≠ [] := by
  cases s with
  | nil => exact List.cons_ne_nil _ _
  | cons c s =>
    rw [splitAll]
    split
    · exact List.cons_ne_nil _ _
    · split <;> exact List.cons_ne_nil _ _

theorem splitAll_append_sep {sep : α} (s t : List α) :
    splitAll sep (s ++ sep :: t) = splitAll sep s ++ splitAll sep t := by
  induction s with
  | nil => exact if_pos rfl
  | cons c s ih =>
    rw [List.cons_append, splitAll, splitAll, ih]
    split
    · rfl
    · obtain ⟨piece, pieces, he⟩ := List.exists_cons_of_ne_nil (splitAll_ne_nil sep s)
      rw [he]
      rfl

theorem getLast_ne_sep {sep : α} {s : List α} (h : [] ∉ splitAll sep s) :
    s.getLast? ≠ some sep := by
  intro hl
  obtain ⟨init, rfl⟩ := List.getLast?_eq_some_iff.1 hl
  apply h
  rw [splitAll_append_sep init []]
  exact List.mem_append_right _ (List.mem_singleton_self _)

/-- What stands before the first separator. -/
theorem takeWhile_sep {sep : α} {s rest : List α} (h : sep ∉ s)
    (hr : rest = [] ∨ ∃ t, rest = sep :: t) : (s ++ rest).takeWhile (· ≠ sep) = s := by
  have hall : ∀ c ∈ s, decide (c ≠ sep) = true := by
    intro c hc
    apply decide_eq_true
    intro he
    exact h (he ▸ hc)
  rw [List.takeWhile_append_of_pos hall]
  obtain rfl | ⟨t, rfl⟩ := hr
  · exact List.append_nil _
  · rw [List.takeWhile_cons_of_neg (by simp), List.append_nil]

/-- Pieces written one after another with separators between them are split again. -/
theorem splitAll_joined {sep : α} {first : List α} {rest : List (List α)} (hf : sep ∉ first)
    (hr : ∀ piece ∈ rest, sep ∉ piece) :
    splitAll sep (first ++ rest.flatMap (sep :: ·)) = first :: rest := by
  induction rest generalizing first with
  | nil => rw [List.flatMap_nil, List.append_nil, splitAll_of_not_mem hf]
  | cons piece rest ih =>
    rw [List.flatMap_cons, List.cons_append, splitAll_append hf]
    rw [ih (hr piece List.mem_cons_self) fun p hp => hr p (List.mem_cons_of_mem _ hp)]

theorem joined_splitAll {sep : α} {s first : List α} {rest : List (List α)}
    (h : splitAll sep s = first :: rest) : s = first ++ rest.flatMap (sep :: ·) := by
  induction s generalizing first rest with
  | nil =>
    cases h
    rfl
  | cons c s ih =>
    obtain ⟨piece, pieces, he⟩ := List.exists_cons_of_ne_nil (splitAll_ne_nil sep s)
    rw [splitAll, he] at h
    split at h
    · rename_i hc
      cases h
      rw [ih he, hc, List.flatMap_cons]
      rfl
    · cases h
      rw [ih he]
      rfl

theorem splitAll_map [DecidableEq β] {sep : α} {sep' : β} {f : α → β} {s : List α}
    (h : ∀ c ∈ s, f c = sep' ↔ c = sep) :
    splitAll sep' (s.map f) = (splitAll sep s).map (List.map f) := by
  induction s with
  | nil => rfl
  | cons c s ih =>
    have hs := ih fun d hd => h d (List.mem_cons_of_mem _ hd)
    have hc := h c List.mem_cons_self
    rw [List.map_cons]
    by_cases he : c = sep
    · rw [hc.2 he, he, splitAll_sep, splitAll_sep, hs]
      rfl
    · obtain ⟨piece, pieces, hp⟩ := List.exists_cons_of_ne_nil (splitAll_ne_nil sep s)
      rw [hp, List.map_cons] at hs
      rw [splitAll_char (mt hc.1 he) hs, splitAll_char he hp]
      rfl

/-- A piece holds no separator, and nothing that was not in the whole. -/
theorem mem_splitAll {sep : α} {s piece : List α} (h : piece ∈ splitAll sep s) :
    sep ∉ piece ∧ piece ⊆ s := by
  induction s generalizing piece with
  | nil =>
    rw [List.mem_singleton.1 h]
    exact ⟨List.not_mem_nil, List.Subset.refl _⟩
  | cons c s ih =>
    rw [splitAll] at h
    split at h
    · rcases List.mem_cons.1 h with rfl | h
      · exact ⟨List.not_mem_nil, List.nil_subset _⟩
      · exact ⟨(ih h).1, List.subset_cons_of_subset c (ih h).2⟩
    · rename_i hc
      split at h
      · rw [List.mem_singleton.1 h]
        exact ⟨by simpa using Ne.symm hc, by simp⟩
      · rename_i first pieces hs
        rcases List.mem_cons.1 h with rfl | h
        · obtain ⟨hn, hsub⟩ := ih (hs ▸ List.mem_cons_self ..)
          refine ⟨?_, List.cons_subset_cons c hsub⟩
          rw [List.mem_cons, not_or]
          exact ⟨Ne.symm hc, hn⟩
        · obtain ⟨hn, hsub⟩ := ih (hs ▸ List.mem_cons_of_mem _ h)
          exact ⟨hn, List.subset_cons_of_subset c hsub⟩

theorem stripPrefix_eq_some {lead s rest : List α} :
    stripPrefix lead s = some rest ↔ s = lead ++ rest := by
  rw [stripPrefix]
  constructor
  · intro h
    obtain ⟨hp, hr⟩ := Option.ite_none_right_eq_some.1 h
    obtain ⟨t, rfl⟩ := List.isPrefixOf_iff_prefix.1 hp
    rw [List.drop_left, Option.some.injEq] at hr
    rw [hr]
  · intro h
    rw [h, if_pos (List.isPrefixOf_iff_prefix.2 (List.prefix_append ..)), List.drop_left]

theorem stripSuffix_eq_some {tail s rest : List α} :
    stripSuffix tail s = some rest ↔ s = rest ++ tail := by
  rw [stripSuffix, Option.map_eq_some_iff]
  constructor
  · intro ⟨t, ht, he⟩
    rw [← he, ← List.reverse_inj, stripPrefix_eq_some.1 ht, List.reverse_append,
      List.reverse_reverse]
  · intro h
    exact ⟨rest.reverse, stripPrefix_eq_some.2 (by rw [h, List.reverse_append]),
      List.reverse_reverse rest⟩

theorem replace_nil (c : α) (new : List α) : replace c new [] = [] := rfl

theorem replace_cons (c d : α) (new s : List α) :
    replace c new (d :: s) = (if d = c then new else [d]) ++ replace c new s := rfl

theorem replace_append (c : α) (new s s' : List α) :
    replace c new (s ++ s') = replace c new s ++ replace c new s' := List.flatMap_append

theorem replace_of_not_mem {c : α} (new : List α) (h : c ∉ s) : replace c new s = s := by
  induction s with
  | nil => rfl
  | cons d s ih =>
    rw [List.mem_cons, not_or] at h
    rw [replace_cons, if_neg (Ne.symm h.1), ih h.2, List.singleton_append]

theorem not_mem_replace {c : α} (hn : c ∉ new) (s : List α) : c ∉ replace c new s := by
  induction s with
  | nil => exact List.not_mem_nil
  | cons d s ih =>
    rw [replace_cons, List.mem_append, not_or]
    refine ⟨?_, ih⟩
    split
    · exact hn
    · rename_i hd
      simpa using Ne.symm hd

theorem length_le_replace {c : α} (hn : new ≠ []) (s : List α) :
    s.length ≤ (replace c new s).length := by
  have hpos := List.length_pos_iff.2 hn
  induction s with
  | nil => exact Nat.zero_le _
  | cons d s ih =>
    rw [replace_cons, List.length_append, List.length_cons]
    split
    · omega
    · rw [List.length_singleton]
      omega

theorem length_lt_replace {c : α} (hn : 1 < new.length) (h : c ∈ s) :
    s.length < (replace c new s).length := by
  obtain ⟨before, after, rfl⟩ := List.append_of_mem h
  have hne : new ≠ [] := List.ne_nil_of_length_pos (by omega)
  have hb := length_le_replace (c := c) hne before
  have ha := length_le_replace (c := c) hne after
  rw [replace_append, replace_cons, if_pos rfl]
  simp only [List.length_append, List.length_cons]
  omega

theorem mem_pieces {sep c : α} {s : List α} (h : c ∈ s) :
    c = sep ∨ ∃ piece ∈ splitAll sep s, c ∈ piece := by
  induction s with
  | nil => cases h
  | cons d s ih =>
    rw [splitAll]
    split
    · rename_i hd
      rcases List.mem_cons.1 h with rfl | h
      · exact .inl hd
      · exact (ih h).imp_right fun ⟨piece, hp, hc⟩ => ⟨piece, List.mem_cons_of_mem _ hp, hc⟩
    · split
      · rename_i hs
        rcases List.mem_cons.1 h with rfl | h
        · exact .inr ⟨[c], List.mem_singleton_self _, List.mem_singleton_self _⟩
        · rcases ih h with rfl | ⟨piece, hp, -⟩
          · exact .inl rfl
          · rw [hs] at hp
            cases hp
      · rename_i first pieces hs
        rcases List.mem_cons.1 h with rfl | h
        · exact .inr ⟨_, List.mem_cons_self .., List.mem_cons_self ..⟩
        · rcases ih h with rfl | ⟨piece, hp, hc⟩
          · exact .inl rfl
          · rw [hs] at hp
            rcases List.mem_cons.1 hp with rfl | hp
            · exact .inr ⟨_, List.mem_cons_self .., List.mem_cons_of_mem _ hc⟩
            · exact .inr ⟨piece, List.mem_cons_of_mem _ hp, hc⟩

/-- Everything up to and including the last separator. -/
def throughLast (sep : α) (s : List α) : List α := s.rdropWhile (· ≠ sep)

def afterLast (sep : α) (s : List α) : List α := s.rtakeWhile (· ≠ sep)

theorem throughLast_append_afterLast (sep : α) (s : List α) :
    throughLast sep s ++ afterLast sep s = s := List.rdropWhile_append_rtakeWhile ..

theorem not_mem_afterLast (sep : α) (s : List α) : sep ∉ afterLast sep s := by
  intro h
  have hp := List.mem_rtakeWhile_imp h
  simp at hp

theorem throughLast_concat (sep : α) (s : List α) :
    throughLast sep (s ++ [sep]) = s ++ [sep] :=
  List.rdropWhile_concat_neg _ _ _ (by simp)

theorem throughLast_of_not_mem {sep : α} (h : sep ∉ s) : throughLast sep s = [] := by
  refine List.rdropWhile_eq_nil_iff.2 fun c hc => ?_
  simp only [ne_eq, decide_not, Bool.not_eq_true', decide_eq_false_iff_not]
  rintro rfl
  exact h hc

theorem throughLast_append {sep : α} (s : List α) (h : sep ∉ t) :
    throughLast sep (s ++ t) = throughLast sep s := by
  induction t using List.reverseRecOn with
  | nil => rw [List.append_nil]
  | append_singleton t c ih =>
    rw [List.mem_append, List.mem_singleton, not_or] at h
    rw [← List.append_assoc, throughLast, List.rdropWhile_concat_pos _ _ _ (by simp [Ne.symm h.2])]
    exact ih h.1

theorem throughLast_cases (sep : α) (s : List α) :
    sep ∉ s ∧ throughLast sep s = [] ∨ ∃ init, throughLast sep s = init ++ [sep] := by
  induction s using List.reverseRecOn with
  | nil => exact .inl ⟨List.not_mem_nil, rfl⟩
  | append_singleton s c ih =>
    by_cases hc : c = sep
    · subst hc
      exact .inr ⟨s, throughLast_concat c s⟩
    · have hs : sep ∉ [c] := by simpa using Ne.symm hc
      rw [throughLast_append s hs, List.mem_append, not_or]
      exact ih.imp_left fun h => ⟨⟨h.1, hs⟩, h.2⟩

theorem afterLast_append {sep : α} (s : List α) (h : sep ∉ t) :
    afterLast sep (s ++ t) = afterLast sep s ++ t := by
  have hsplit := throughLast_append_afterLast sep (s ++ t)
  rw [throughLast_append s h] at hsplit
  conv_rhs at hsplit => rw [← throughLast_append_afterLast sep s, List.append_assoc]
  exact List.append_cancel_left hsplit

theorem afterLast_concat_sep (sep : α) (s : List α) : afterLast sep (s ++ [sep]) = [] := by
  have hsplit := throughLast_append_afterLast sep (s ++ [sep])
  rw [throughLast_concat] at hsplit
  exact List.append_right_eq_self.1 hsplit

theorem afterLast_append_sep (sep : α) (s t : List α) :
    afterLast sep (s ++ sep :: t) = afterLast sep t := by
  have hsplit : s ++ sep :: t = (s ++ sep :: throughLast sep t) ++ afterLast sep t := by
    rw [List.append_assoc, List.cons_append, throughLast_append_afterLast]
  have hend : afterLast sep (s ++ sep :: throughLast sep t) = [] := by
    obtain ⟨-, hn⟩ | ⟨init, hi⟩ := throughLast_cases sep t
    · rw [hn]
      exact afterLast_concat_sep sep s
    · rw [hi, ← List.cons_append, ← List.append_assoc]
      exact afterLast_concat_sep sep _
  rw [hsplit, afterLast_append _ (not_mem_afterLast sep t), hend, List.nil_append]

theorem afterLast_of_not_mem {sep : α} (h : sep ∉ s) : afterLast sep s = s := by
  have hsplit := afterLast_append [] h
  exact hsplit

end Dhttp.Lib
