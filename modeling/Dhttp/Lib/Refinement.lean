import Mathlib.Logic.Basic

namespace Dhttp.Lib
set_option autoImplicit true

/-- An operation and what it is meant to do: both fail, or both succeed with related values. -/
inductive Agrees (rel : α → β → Prop) : Except ε α → Option β → Prop
  | fail : Agrees rel (.error e) none
  | done (h : rel a b) : Agrees rel (.ok a) (some b)

namespace Agrees

variable {rel : α → β → Prop} {x : Except ε α} {y : Option β}

theorem of_error (h : Agrees rel (.error e : Except ε α) y) : y = none := by
  cases h
  rfl

theorem of_ok (h : Agrees rel (.ok a : Except ε α) y) : ∃ b, y = some b ∧ rel a b := by
  cases h with
  | done h => exact ⟨_, rfl, h⟩

theorem mapError (h : Agrees rel x y) (f : ε → ε') : Agrees rel (x.mapError f) y := by
  cases h with
  | fail => exact .fail
  | done h => exact .done h

theorem map {rel' : α' → β' → Prop} {f : α → α'} {g : β → β'} (h : Agrees rel x y)
    (hr : ∀ a b, rel a b → rel' (f a) (g b)) : Agrees rel' (x.map f) (y.map g) := by
  cases h with
  | fail => exact .fail
  | done h => exact .done (hr _ _ h)

theorem bind {rel' : α' → β' → Prop} {f : α → Except ε α'} {g : β → Option β'}
    (h : Agrees rel x y) (hr : ∀ a b, rel a b → Agrees rel' (f a) (g b)) :
    Agrees rel' (x >>= f) (y.bind g) := by
  cases h with
  | fail => exact .fail
  | done h => exact hr _ _ h

end Agrees

end Dhttp.Lib
