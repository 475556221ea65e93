import Mathlib.Data.List.Basic
import Mathlib.Data.List.Induction

namespace Dhttp.Lib
set_option autoImplicit true

variable {newer : α → α → Bool} {xs : List α}

/-- The elements that no element is newer than. -/
def survivors (newer : α → α → Bool) (xs : List α) : List α :=
  xs.filter fun x => !xs.any (newer · x)

theorem mem_survivors : x ∈ survivors newer xs ↔
    x ∈ xs ∧ ∀ y ∈ xs, newer y x = false := by
  rw [survivors, List.mem_filter, Bool.not_eq_true', List.any_eq_false]
  simp only [Bool.not_eq_true]

/-- Every element either survives or is older than one that does. -/
theorem exists_survivor (ht : ∀ x y z, newer x y = true → newer y z = true → newer x z = true)
    (hi : ∀ x, newer x x = false) (hx : x ∈ xs) :
    x ∈ survivors newer xs ∨ ∃ y ∈ survivors newer xs, newer y x = true := by
  -- The newer elements of a newer element are fewer.
  induction hn : (xs.filter (newer · x)).length using Nat.strongRecOn generalizing x with
  | _ n ih =>
    by_cases hs : x ∈ survivors newer xs
    · exact .inl hs
    · rw [mem_survivors] at hs
      push Not at hs
      obtain ⟨y, hy, hyx⟩ := hs hx
      rw [ne_eq, Bool.not_eq_false] at hyx
      have hsub : (xs.filter (newer · y)).length < n := by
        have hf : xs.filter (newer · y) = (xs.filter (newer · x)).filter (newer · y) := by
          rw [List.filter_filter]
          apply List.filter_congr
          intro z _
          cases hz : newer z y with
          | false => rfl
          | true => rw [ht z y x hz hyx]; rfl
        rw [← hn, hf, List.length_filter_lt_length_iff_exists]
        exact ⟨y, List.mem_filter.2 ⟨hy, hyx⟩, by simp [hi y]⟩
      right
      rcases ih _ hsub hy rfl with h | h
      · exact ⟨y, h, hyx⟩
      · obtain ⟨z, hz, hzy⟩ := h
        exact ⟨z, hz, ht z y x hzy hyx⟩

/-- Elements with one key survive only once if they are told apart by age. -/
theorem survivors_keys_nodup (key : α → κ) (hn : xs.Nodup)
    (hc : ∀ x ∈ xs, ∀ y ∈ xs, key x = key y → x ≠ y → newer x y = true ∨ newer y x = true) :
    ((survivors newer xs).map key).Nodup := by
  rw [List.Nodup, List.pairwise_map]
  apply (hn.filter _).imp_of_mem
  intro x y hx hy hne hk
  obtain ⟨hx, hnx⟩ := mem_survivors.1 hx
  obtain ⟨hy, hny⟩ := mem_survivors.1 hy
  rcases hc x hx y hy hk hne with h | h
  · rw [hny x hx] at h
    cases h
  · rw [hnx y hy] at h
    cases h

/-- Deleting row by row, each tested on what is left. -/
def sweep [DecidableEq α] (newer : α → α → Bool) : List α → List α → List α
  | [], table => table
  | x :: pending, table =>
    sweep newer pending (if table.any (newer · x) then table.filter (· ≠ x) else table)

section Sweeping

variable (ht : ∀ x y z, newer x y = true → newer y z = true → newer x z = true)
  (hi : ∀ x, newer x x = false)
include ht hi

/-- A table that has the survivors outdates what the whole table outdates. -/
theorem any_newer_filter (q : α → Bool) (hq : ∀ x ∈ survivors newer xs, q x = true) (x : α) :
    (xs.filter q).any (newer · x) = xs.any (newer · x) := by
  rw [Bool.eq_iff_iff, List.any_eq_true, List.any_eq_true]
  constructor
  · intro h
    obtain ⟨y, hy, hyx⟩ := h
    exact ⟨y, List.mem_of_mem_filter hy, hyx⟩
  · intro h
    obtain ⟨y, hy, hyx⟩ := h
    rcases exists_survivor ht hi hy with h | h
    · exact ⟨y, List.mem_filter.2 ⟨hy, hq y h⟩, hyx⟩
    · obtain ⟨z, hz, hzy⟩ := h
      exact ⟨z, List.mem_filter.2 ⟨(mem_survivors.1 hz).1, hq z hz⟩, ht z y x hzy hyx⟩

theorem sweep_filter [DecidableEq α] (pending : List α) (q : α → Bool)
    (hq : ∀ x ∈ survivors newer xs, q x = true) :
    sweep newer pending (xs.filter q) =
      xs.filter fun x => q x && (decide (x ∉ pending) || !xs.any (newer · x)) := by
  induction pending generalizing q with
  | nil =>
    apply List.filter_congr
    intro x _
    simp
  | cons x pending ih =>
    rw [sweep, any_newer_filter ht hi q hq]
    by_cases hx : xs.any (newer · x) = true
    · rw [if_pos hx, List.filter_filter, ih]
      · apply List.filter_congr
        intro y _
        by_cases he : y = x
        · simp [he, hx]
        · simp [he]
      · intro y hy
        have hne : y ≠ x := by
          intro he
          rw [he, survivors, List.mem_filter, hx] at hy
          cases hy.2
        simp [hne, hq y hy]
    · rw [if_neg hx, ih q hq]
      apply List.filter_congr
      intro y _
      by_cases he : y = x
      · rw [Bool.not_eq_true] at hx
        simp [he, hx]
      · simp [he]

/-- In whatever order the rows are tested, the survivors are left. -/
theorem sweep_eq [DecidableEq α] {pending : List α} (hp : ∀ x ∈ xs, x ∈ pending) :
    sweep newer pending xs = survivors newer xs := by
  have h : sweep newer pending (xs.filter fun _ => true) = _ :=
    sweep_filter ht hi pending (fun _ => true) fun _ _ => rfl
  rw [List.filter_true] at h
  rw [h, survivors]
  apply List.filter_congr
  intro x hx
  simp [hp x hx]

end Sweeping

/-- What a scan finds does not change when elements are dropped that repeat an earlier one. -/
theorem findSome?_filter {f : α → Option β} {p : α → Bool}
    (h : ∀ before x after, xs = before ++ x :: after → p x = false → ∃ y ∈ before, f y = f x) :
    (xs.filter p).findSome? f = xs.findSome? f := by
  induction xs using List.reverseRecOn with
  | nil => rfl
  | append_singleton xs x ih =>
    have hx : (xs.filter p).findSome? f = xs.findSome? f := by
      apply ih
      intro before y after he
      apply h before y (after ++ [x])
      rw [he, List.append_assoc, List.cons_append]
    rw [List.filter_append, List.findSome?_append, List.findSome?_append, hx]
    cases hp : p x with
    | true => rw [List.filter_cons_of_pos hp, List.filter_nil]
    | false =>
      obtain ⟨y, hy, hf⟩ := h xs x [] rfl hp
      rw [List.filter_cons_of_neg (by simp [hp]), List.filter_nil, List.findSome?_singleton, ← hf]
      cases hs : xs.findSome? f with
      | some b => rfl
      | none => rw [List.findSome?_eq_none_iff.1 hs y hy]; rfl

end Dhttp.Lib
