import Mathlib.Data.List.Basic

namespace Dhttp.Lib
set_option autoImplicit true

/-- The expressions in prefix order over symbols of given arities. -/
inductive PolishWord (arity : γ → Nat) : List γ → Prop where
  | node (s : γ) (operands : List (List γ)) (hn : operands.length = arity s)
      (hw : ∀ w ∈ operands, PolishWord arity w) : PolishWord arity (s :: operands.flatten)

/-- The number of complete expressions a word ends with more than it asks for. -/
def surplus (arity : γ → Nat) : List γ → Int
  | [] => 0
  | s :: w => 1 - arity s + surplus arity w

section
variable {arity : γ → Nat}

@[simp] theorem surplus_nil : surplus arity [] = 0 := rfl

@[simp] theorem surplus_cons (s : γ) (w : List γ) :
    surplus arity (s :: w) = 1 - arity s + surplus arity w := rfl

@[simp] theorem surplus_append (u v : List γ) :
    surplus arity (u ++ v) = surplus arity u + surplus arity v := by
  induction u with
  | nil => simp
  | cons s u ih =>
    simp only [List.cons_append, surplus_cons, ih]
    omega

/-- A word never offers more than `n` expressions before its end. -/
def LateSurplus (arity : γ → Nat) (n : Int) (w : List γ) : Prop :=
  ∀ u, u <+: w → u ≠ w → surplus arity u < n

theorem lateSurplus_nil (n : Int) : LateSurplus arity n [] := by
  intro u hu hne
  exact absurd (List.prefix_nil.mp hu) hne

theorem lateSurplus_cons (n : Int) (s : γ) (w : List γ) :
    LateSurplus arity n (s :: w) ↔ 0 < n ∧ LateSurplus arity (n - 1 + arity s) w := by
  constructor
  · intro h
    constructor
    · exact h [] List.nil_prefix (List.cons_ne_nil s w).symm
    · intro u hu hne
      have hs := h (s :: u) ((List.prefix_cons_inj s).mpr hu)
        (fun he => hne (List.tail_eq_of_cons_eq he))
      rw [surplus_cons] at hs
      omega
  · intro ⟨hn, h⟩ u hu hne
    cases u with
    | nil => exact hn
    | cons x u =>
      obtain ⟨rfl, hrest⟩ := List.cons_prefix_cons.mp hu
      have hs := h u hrest (fun he => hne (congrArg _ he))
      rw [surplus_cons]
      omega

theorem PolishWord.cons_one (h : PolishWord arity w) (hs : arity s = 1) :
    PolishWord arity (s :: w) := by
  have hword := PolishWord.node s [w] hs.symm fun x hx => List.eq_of_mem_singleton hx ▸ h
  rwa [List.flatten_singleton] at hword

theorem PolishWord.cons_two (hl : PolishWord arity l) (hr : PolishWord arity r)
    (hs : arity s = 2) : PolishWord arity (s :: (l ++ r)) := by
  have hword := PolishWord.node s [l, r] hs.symm
  rw [List.flatten_cons, List.flatten_singleton] at hword
  apply hword
  intro x hx
  cases hx with
  | head => exact hl
  | tail _ hx => exact List.eq_of_mem_singleton hx ▸ hr

/-- A left-to-right scan that counts the expressions still to come. -/
inductive Pending (arity : γ → Nat) : Nat → List γ → Prop where
  | done : Pending arity 0 []
  | read (s : γ) (h : Pending arity (n + arity s) w) : Pending arity (n + 1) (s :: w)

theorem Pending.append (hu : Pending arity m u) (hv : Pending arity n v) :
    Pending arity (m + n) (u ++ v) := by
  induction hu with
  | done =>
    rw [Nat.zero_add]
    exact hv
  | @read m w s _ ih =>
    rw [Nat.add_right_comm] at ih
    rw [Nat.add_right_comm]
    exact .read s ih

theorem Pending.flatten {ws : List (List γ)} (h : ∀ w ∈ ws, Pending arity 1 w) :
    Pending arity ws.length ws.flatten := by
  induction ws with
  | nil => exact .done
  | cons w ws ih =>
    have hw := h w List.mem_cons_self
    have hws := ih fun x hx => h x (List.mem_cons_of_mem _ hx)
    rw [List.length_cons, Nat.add_comm]
    exact hw.append hws

theorem PolishWord.pending (h : PolishWord arity w) : Pending arity 1 w := by
  induction h with
  | node s operands hn _ ih =>
    apply Pending.read
    rw [Nat.zero_add, ← hn]
    exact Pending.flatten ih

/-- The first operands of the symbol read are the first of the words spelled after it. -/
theorem Pending.spelled (h : Pending arity n w) :
    ∃ ws : List (List γ), ws.length = n ∧ (∀ x ∈ ws, PolishWord arity x) ∧ ws.flatten = w := by
  induction h with
  | done => exact ⟨[], rfl, fun _ hx => absurd hx List.not_mem_nil, rfl⟩
  | @read n w s _ ih =>
    obtain ⟨ws, hl, hws, rfl⟩ := ih
    have hfirst : (ws.take (arity s)).length = arity s := by
      rw [List.length_take, hl]
      omega
    have hword : PolishWord arity (s :: (ws.take (arity s)).flatten) :=
      .node s _ hfirst fun x hx => hws x (List.mem_of_mem_take hx)
    refine ⟨(s :: (ws.take (arity s)).flatten) :: ws.drop (arity s), ?_, ?_, ?_⟩
    · rw [List.length_cons, List.length_drop, hl, Nat.add_sub_cancel]
    · intro x hx
      cases hx with
      | head => exact hword
      | tail _ hx => exact hws x (List.mem_of_mem_drop hx)
    · rw [List.flatten_cons, List.cons_append, ← List.flatten_append, List.take_append_drop]

theorem pending_iff (n : Nat) (w : List γ) :
    Pending arity n w ↔ surplus arity w = n ∧ LateSurplus arity n w := by
  induction w generalizing n with
  | nil =>
    constructor
    · intro h
      cases h
      exact ⟨rfl, lateSurplus_nil _⟩
    · intro h
      have hn : n = 0 := by
        have hs := h.1
        rw [surplus_nil] at hs
        omega
      rw [hn]
      exact .done
  | cons s w ih =>
    rw [lateSurplus_cons, surplus_cons]
    cases n with
    | zero =>
      constructor
      · intro h
        cases h
      · intro h
        exact absurd h.2.1 (Int.lt_irrefl 0)
    | succ n =>
      have he : ((n + 1 : Nat) : Int) - 1 + arity s = (n + arity s : Nat) := by omega
      rw [he]
      constructor
      · intro h
        cases h with
        | read _ h =>
          obtain ⟨hs, hl⟩ := (ih _).mp h
          exact ⟨by omega, by omega, hl⟩
      · intro ⟨hs, _, hl⟩
        exact .read s ((ih _).mpr ⟨by omega, hl⟩)

/-- A word is one expression when its count reaches one at its last symbol only. -/
theorem polishWord_iff (w : List γ) :
    PolishWord arity w ↔ surplus arity w = 1 ∧ LateSurplus arity 1 w := by
  have hcount : Pending arity 1 w ↔ surplus arity w = 1 ∧ LateSurplus arity 1 w :=
    pending_iff 1 w
  constructor
  · intro h
    exact hcount.mp h.pending
  · intro h
    obtain ⟨ws, hl, hws, rfl⟩ := (hcount.mpr h).spelled
    obtain ⟨x, rfl⟩ := List.length_eq_one_iff.mp hl
    rw [List.flatten_singleton]
    exact hws x List.mem_cons_self

end
end Dhttp.Lib
