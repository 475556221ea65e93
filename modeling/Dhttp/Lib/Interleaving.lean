import Mathlib.Logic.Function.Basic

namespace Dhttp.Lib
set_option autoImplicit true

/-- The states that allowed steps lead to, one event after another. -/
inductive Reaches {S E : Type} (step : S → E → S → Prop) (allowed : S → E → Prop) (start : S) :
    S → Prop
  | refl : Reaches step allowed start start
  | tail (h : Reaches step allowed start s) (ha : allowed s e) (hs : step s e s') :
    Reaches step allowed start s'

section Runs
variable {S E : Type} {step : S → E → S → Prop} {allowed : S → E → Prop}

/-- What holds at the start and is kept by every allowed step holds all along. -/
theorem Reaches.invariant {Inv : S → Prop} (h : Reaches step allowed start s) (hs : Inv start)
    (hstep : ∀ s e s', Inv s → allowed s e → step s e s' → Inv s') : Inv s := by
  induction h with
  | refl => exact hs
  | tail _ ha hs ih => exact hstep _ _ _ ih ha hs

end Runs

/-- A run that goes on until it is over, each of its steps lowering a rank, is over in time. -/
theorem run_ends {S : Type} {step : S → S → Prop} {Inv Over : S → Prop} {rank : S → Nat}
    {run : Nat → S} (hstep : ∀ s s', Inv s → step s s' → Inv s' ∧ rank s' < rank s)
    (hs : Inv (run 0)) (hrun : ∀ n, ¬ Over (run n) → step (run n) (run (n + 1))) :
    ∃ n ≤ rank (run 0), Inv (run n) ∧ Over (run n) := by
  induction hr : rank (run 0) using Nat.strongRecOn generalizing run with
  | ind r ih =>
    by_cases ho : Over (run 0)
    · exact ⟨0, Nat.zero_le r, hs, ho⟩
    · obtain ⟨hnext, hlt⟩ := hstep _ _ hs (hrun 0 ho)
      rw [hr] at hlt
      obtain ⟨n, hn, hend⟩ := ih _ hlt hnext (fun n => hrun (n + 1)) rfl
      exact ⟨n + 1, Nat.lt_of_le_of_lt hn hlt, hend⟩

/-- Every event of a history, newest first, is allowed by those before it. -/
def Lawful {E : Type} (law : E → List E → Prop) : List E → Prop
  | [] => True
  | e :: log => law e log ∧ Lawful law log

theorem Lawful.law {E : Type} {law : E → List E → Prop} {e : E} {later log : List E}
    (h : Lawful law (later ++ e :: log)) : law e log := by
  induction later with
  | nil => exact h.1
  | cons _ later ih => exact ih h.2

/-- The process that has the lock is the one whose local state says so. -/
def Exclusive {I P : Type} (holds : P → Prop) (lock : Option I) (pc : I → P) : Prop :=
  ∀ i, holds (pc i) ↔ lock = some i

section Locks
variable {I P : Type} {holds : P → Prop} {pc : I → P}

theorem Exclusive.not_holds (h : Exclusive holds none pc) (i : I) : ¬ holds (pc i) := fun hp =>
  nomatch (h i).1 hp

/-- Only the process that has the lock can be inside. -/
theorem Exclusive.eq_of_holds (h : Exclusive holds lock pc) (hi : holds (pc i))
    (hj : holds (pc j)) : i = j :=
  Option.some.inj (((h i).1 hi).symm.trans ((h j).1 hj))

variable [DecidableEq I]

theorem Exclusive.take (h : Exclusive holds none pc) (i : I) (hp : holds p) :
    Exclusive holds (some i) (Function.update pc i p) := by
  intro j
  by_cases hj : j = i
  · rw [hj, Function.update_self]
    exact iff_of_true hp rfl
  · rw [Function.update_of_ne hj, h j]
    exact iff_of_false nofun fun he => hj (Option.some.inj he).symm

theorem Exclusive.release (h : Exclusive holds (some i) pc) (hp : ¬ holds p) :
    Exclusive holds none (Function.update pc i p) := by
  intro j
  by_cases hj : j = i
  · rw [hj, Function.update_self]
    exact iff_of_false hp nofun
  · rw [Function.update_of_ne hj, h j]
    exact iff_of_false (fun he => hj (Option.some.inj he).symm) nofun

theorem Exclusive.keep (h : Exclusive holds lock pc) (hp : holds p ↔ holds (pc i)) :
    Exclusive holds lock (Function.update pc i p) := by
  intro j
  by_cases hj : j = i
  · rw [hj, Function.update_self, hp, h i]
  · rw [Function.update_of_ne hj, h j]

end Locks

end Dhttp.Lib
