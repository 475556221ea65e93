import Mathlib.Logic.Function.Basic
import Mathlib.Data.List.Basic

namespace Dhttp.Lib
set_option autoImplicit true

/-- Keys with at most one owner each. -/
abbrev Registry (K O : Type) := K → Option O

namespace Registry
variable {K O : Type}

/-- The other owners keep their keys and get no new ones. -/
def SameForOthers (owner : O) (r r' : Registry K O) : Prop :=
  ∀ key other, other ≠ owner → (r' key = some other ↔ r key = some other)

theorem SameForOthers.refl (owner : O) (r : Registry K O) : SameForOthers owner r r :=
  fun _ _ _ => Iff.rfl

theorem SameForOthers.trans {r r' r'' : Registry K O} (h : SameForOthers owner r r')
    (h' : SameForOthers owner r' r'') : SameForOthers owner r r'' :=
  fun key other ho => (h' key other ho).trans (h key other ho)

/-- A registry is what its owners have. -/
theorem SameForOthers.eq {r r' : Registry K O} (h : SameForOthers owner r r')
    (ho : ∀ key, r' key = some owner ↔ r key = some owner) : r' = r := by
  funext key
  have hiff (o : O) : r' key = some o ↔ r key = some o := by
    by_cases he : o = owner
    · rw [he]
      exact ho key
    · exact h key o he
  cases hr : r key with
  | none =>
    cases hr' : r' key with
    | none => rfl
    | some o => exact absurd (hr.symm.trans ((hiff o).1 hr')) nofun
  | some o => exact (hiff o).2 hr

section Release
variable [DecidableEq O]

/-- All keys of an owner are given up. -/
def release (r : Registry K O) (owner : O) : Registry K O := fun key =>
  if r key = some owner then none else r key

theorem release_eq_some {r : Registry K O} :
    r.release owner key = some other ↔ r key = some other ∧ owner ≠ other := by
  rw [release]
  split
  · next h =>
    rw [h, Option.some.injEq]
    exact iff_of_false nofun fun ⟨he, hn⟩ => hn he
  · next h => exact ⟨fun ho => ⟨ho, fun he => h (he ▸ ho)⟩, And.left⟩

theorem release_owner (r : Registry K O) (owner : O) (key : K) :
    r.release owner key ≠ some owner := fun h => (release_eq_some.1 h).2 rfl

theorem sameForOthers_release (r : Registry K O) (owner : O) :
    SameForOthers owner r (r.release owner) := fun _ _ ho =>
  release_eq_some.trans (and_iff_left ho.symm)

end Release

variable [DecidableEq K]

def enter (r : Registry K O) (owner : O) (key : K) : Registry K O :=
  Function.update r key (some owner)

def erase (r : Registry K O) (key : K) : Registry K O := Function.update r key none

def eraseAll (r : Registry K O) (keys : List K) : Registry K O := keys.foldl erase r

theorem enter_self (r : Registry K O) (owner : O) (key : K) :
    r.enter owner key key = some owner := Function.update_self ..

theorem enter_of_ne (r : Registry K O) (owner : O) (h : key ≠ key') :
    r.enter owner key' key = r key := Function.update_of_ne h ..

theorem enter_eq_owner {r : Registry K O} :
    r.enter owner key key' = some owner ↔ key' = key ∨ r key' = some owner := by
  by_cases h : key' = key
  · rw [h, enter_self]
    exact iff_of_true rfl (.inl rfl)
  · rw [enter_of_ne _ _ h, or_iff_right h]

theorem enter_eq_other {r : Registry K O} (hf : r key = none) (h : owner ≠ other) :
    r.enter owner key key' = some other ↔ r key' = some other := by
  by_cases hk : key' = key
  · rw [hk, enter_self, hf, Option.some.injEq]
    exact iff_of_false h nofun
  · rw [enter_of_ne _ _ hk]

/-- A key that no other owner has is entered without harm to the others. -/
theorem sameForOthers_enter {r : Registry K O} (h : ∀ other, r key = some other → other = owner) :
    SameForOthers owner r (r.enter owner key) := by
  intro key' other ho
  by_cases hk : key' = key
  · rw [hk, enter_self]
    exact iff_of_false (fun he => ho (Option.some.inj he).symm) fun he => ho (h other he)
  · rw [enter_of_ne _ _ hk]

theorem release_enter [DecidableEq O] {r : Registry K O} (hf : r key = none)
    (ho : ∀ key, r key ≠ some owner) : (r.enter owner key).release owner = r := by
  funext key'
  rw [release]
  split
  · next h => rw [(enter_eq_owner.1 h).resolve_right (ho key'), hf]
  · next h => exact enter_of_ne _ _ fun hk => h (by rw [hk, enter_self])

theorem eraseAll_apply (r : Registry K O) (keys : List K) (key : K) :
    r.eraseAll keys key = if key ∈ keys then none else r key := by
  induction keys generalizing r with
  | nil => rfl
  | cons first keys ih =>
    rw [eraseAll, List.foldl_cons]
    refine (ih _).trans ?_
    by_cases hm : key ∈ keys
    · rw [if_pos hm, if_pos (List.mem_cons_of_mem _ hm)]
    · by_cases hk : key = first
      · rw [hk, if_pos (List.mem_cons_self ..), erase, Function.update_self, ite_self]
      · rw [if_neg hm, if_neg (by simp [hk, hm]), erase, Function.update_of_ne hk]

theorem eraseAll_eq_owner {r : Registry K O} :
    r.eraseAll keys key = some owner ↔ key ∉ keys ∧ r key = some owner := by
  rw [eraseAll_apply]
  split
  · next h => exact iff_of_false nofun fun ⟨hn, _⟩ => hn h
  · next h => exact (and_iff_right h).symm

theorem sameForOthers_eraseAll {r : Registry K O} (h : ∀ key ∈ keys, r key = some owner) :
    SameForOthers owner r (r.eraseAll keys) := by
  intro key other ho
  rw [eraseAll_eq_owner, and_iff_right_of_imp]
  intro he hm
  exact ho (Option.some.inj (he.symm.trans (h key hm)))

/-- What a loop that enters keys has done when it ends: the key it was refused, if any. -/
structure Entered (K O : Type) where
  done : List K
  refused : Option K
  registry : Registry K O

/-- Enter keys one after another until one is refused. -/
def enterAll (refuses : K → Option O → Bool) (owner : O) (r : Registry K O) :
    List K → Entered K O
  | [] => ⟨[], none, r⟩
  | key :: keys =>
    if refuses key (r key) then ⟨[], some key, r⟩
    else
      let rest := enterAll refuses owner (r.enter owner key) keys
      ⟨key :: rest.done, rest.refused, rest.registry⟩

/-- Enter the keys that are not refused. -/
def enterEach (refuses : K → Option O → Bool) (owner : O) (r : Registry K O)
    (keys : List K) : Registry K O :=
  keys.foldl (fun r key => if refuses key (r key) then r else r.enter owner key) r

variable {refuses : K → Option O → Bool}

theorem enterAll_eq_owner {r : Registry K O} :
    (enterAll refuses owner r keys).registry key = some owner ↔
      key ∈ (enterAll refuses owner r keys).done ∨ r key = some owner := by
  induction keys generalizing r with
  | nil => simp [enterAll]
  | cons first keys ih =>
    rw [enterAll]
    split
    · simp
    · rw [ih, enter_eq_owner, List.mem_cons]
      tauto

theorem enterAll_subset {r : Registry K O} (h : key ∈ (enterAll refuses owner r keys).done) :
    key ∈ keys := by
  induction keys generalizing r with
  | nil => exact h
  | cons first keys ih =>
    rw [enterAll] at h
    split at h
    · cases h
    · exact List.mem_cons.2 ((List.mem_cons.1 h).imp_right ih)

theorem enterAll_done {r : Registry K O} (h : (enterAll refuses owner r keys).refused = none) :
    (enterAll refuses owner r keys).done = keys := by
  induction keys generalizing r with
  | nil => rfl
  | cons first keys ih =>
    rw [enterAll] at h ⊢
    split
    · next hr => simp [hr] at h
    · next hr =>
      rw [if_neg hr] at h
      exact congrArg _ (ih h)

theorem enterAll_refused {r : Registry K O}
    (h : (enterAll refuses owner r keys).refused = some key) :
    key ∈ keys ∧
      (refuses key (r key) = true ∨ ¬ keys.Nodup ∧ refuses key (some owner) = true) := by
  induction keys generalizing r with
  | nil => cases h
  | cons first keys ih =>
    rw [enterAll] at h
    split at h
    · next hr =>
      cases h
      exact ⟨List.mem_cons_self .., .inl hr⟩
    · obtain ⟨hm, hr⟩ := ih h
      refine ⟨List.mem_cons_of_mem _ hm, ?_⟩
      by_cases hk : key = first
      · subst hk
        rw [enter_self] at hr
        exact .inr ⟨fun hn => (List.nodup_cons.1 hn).1 hm, hr.elim id And.right⟩
      · rw [enter_of_ne _ _ hk] at hr
        exact hr.imp_right fun ⟨hn, hr⟩ => ⟨fun hc => hn (List.nodup_cons.1 hc).2, hr⟩

theorem enterAll_accepted {r : Registry K O}
    (h : (enterAll refuses owner r keys).refused = none) (hm : key ∈ keys) :
    refuses key (r key) = false ∨ ¬ keys.Nodup ∧ refuses key (some owner) = false := by
  induction keys generalizing r with
  | nil => cases hm
  | cons first keys ih =>
    rw [enterAll] at h
    split at h
    · cases h
    · next hr =>
      by_cases hk : key = first
      · rw [hk]
        exact .inl (Bool.eq_false_iff.2 hr)
      · have hrest := ih h ((List.mem_cons.1 hm).resolve_left hk)
        rw [enter_of_ne _ _ hk] at hrest
        exact hrest.imp_right fun ⟨hn, hr⟩ => ⟨fun hc => hn (List.nodup_cons.1 hc).2, hr⟩

/-- The keys entered were not refused; no other owner has them if such a key is refused. -/
theorem sameForOthers_enterAll {r : Registry K O}
    (h : ∀ key other, refuses key (some other) = false → other = owner) :
    SameForOthers owner r (enterAll refuses owner r keys).registry := by
  induction keys generalizing r with
  | nil => exact .refl owner r
  | cons first keys ih =>
    rw [enterAll]
    split
    · exact .refl owner r
    · next hr =>
      refine (sameForOthers_enter fun other he => h first other ?_).trans ih
      rw [← he]
      exact Bool.eq_false_iff.2 hr

theorem enterEach_eq_owner {r : Registry K O} :
    enterEach refuses owner r keys key = some owner ↔
      (key ∈ keys ∧ refuses key (r key) = false) ∨ r key = some owner := by
  induction keys generalizing r with
  | nil => simp [enterEach]
  | cons first keys ih =>
    rw [enterEach, List.foldl_cons]
    refine ih.trans ?_
    by_cases hk : key = first
    · subst hk
      by_cases hr : refuses key (r key) = true
      · rw [if_pos hr]
        simp only [hr, Bool.true_eq_false, and_false, false_or]
      · rw [if_neg hr, enter_self]
        exact iff_of_true (.inr rfl)
          (.inl ⟨List.mem_cons_self .., Bool.not_eq_true _ ▸ hr⟩)
    · rw [List.mem_cons, or_iff_right hk]
      split
      · rfl
      · rw [enter_of_ne _ _ hk]

theorem sameForOthers_enterEach {r : Registry K O}
    (h : ∀ key other, refuses key (some other) = false → other = owner) :
    SameForOthers owner r (enterEach refuses owner r keys) := by
  induction keys generalizing r with
  | nil => exact .refl owner r
  | cons first keys ih =>
    rw [enterEach, List.foldl_cons]
    split
    · exact ih
    · next hr =>
      refine (sameForOthers_enter fun other he => h first other ?_).trans ih
      rw [← he]
      exact Bool.eq_false_iff.2 hr

end Registry
end Dhttp.Lib
