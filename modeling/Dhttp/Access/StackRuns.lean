import Mathlib.Logic.Function.Iterate
import Dhttp.Access.StackMachine

namespace Dhttp.Access
open Dhttp.Lib
set_option autoImplicit true

/-- The two-place connectives of an expression tree. -/
inductive Junction where
  | and
  | or
  deriving Repr, DecidableEq

def Junction.operator : Junction → BooleanOperator
  | .and => .and
  | .or => .or

@[simp] theorem Junction.operand_operator (j : Junction) : j.operator.operand = 2 := by
  cases j <;> rfl

/-- The prefix (Polish) listing of an expression tree. -/
def listing (t : OpTree Junction α) : List (Part BooleanOperator α) :=
  t.preorder (.operator .not) (.operator ∘ Junction.operator) .expr

@[simp] theorem listing_leaf (a : α) : listing (.leaf a) = [.expr a] := rfl

@[simp] theorem listing_neg (t : OpTree Junction α) : listing t.neg = .operator .not :: listing t := rfl

@[simp] theorem listing_node (j : Junction) (l r : OpTree Junction α) :
    listing (.node j l r) = .operator j.operator :: (listing l ++ listing r) := rfl

theorem listing_map (f : α → γ) (t : OpTree Junction α) :
    (listing t).map (Part.mapExpr f) = listing (t.map f) := by
  simp only [listing, OpTree.map_preorder, OpTree.preorder_map]
  rfl

/-- What the operators do to operands that are all there, for any type of values. -/
class Connectives (V : Type) extends BeOperator BooleanOperator V where
  neg : V → V
  join : Junction → V → V → V
  decides : Junction → V → Bool
  operand_eq : ∀ op, operand op = op.operand
  operate_not : ∀ v, operate .not [v] = some (neg v)
  operate_join : ∀ j l r, operate (Junction.operator j) [l, r] = some (join j l r)
  shortCircuit_join : ∀ j v,
    shortCircuit (Junction.operator j) [v] = if decides j v then some (v, 1) else none

instance : Connectives Unit where
  neg _ := ()
  join _ _ _ := ()
  decides _ _ := false
  operand_eq _ := rfl
  operate_not _ := rfl
  operate_join j _ _ := by cases j <;> rfl
  shortCircuit_join _ _ := rfl

/-- A left operand that settles the connective: an error, or the deciding value. -/
def Junction.decides : Junction → Except E Bool → Bool
  | _, .error _ => true
  | .and, .ok b => !b
  | .or, .ok b => b

def Junction.join : Junction → Except E Bool → Except E Bool → Except E Bool
  | .and, l, r => r.bind fun r => l.map fun l => l && r
  | .or, l, r => r.bind fun r => l.map fun l => l || r

instance : Connectives (Except E Bool) where
  neg v := v.map (!·)
  join := Junction.join
  decides := Junction.decides
  operand_eq _ := rfl
  operate_not _ := rfl
  operate_join j _ _ := by cases j <;> rfl
  shortCircuit_join j v := by
    rcases v with e | _ | _ <;> cases j <;> rfl

namespace VM

variable {V : Type} [Connectives V]

theorem tryEval_not (s : Nat) (v : V) (vs : List V) (ops : List BooleanOperator) :
    tryEval s (v :: vs) (.not :: ops) = tryEval s (Connectives.neg v :: vs) ops := by
  rw [tryEval]
  simp only [Connectives.operand_eq, BooleanOperator.operand, List.length_cons,
    Nat.le_add_left, if_true, List.take_succ_cons, List.take_zero, List.reverse_singleton,
    Connectives.operate_not, List.drop_succ_cons, List.drop_zero]

theorem tryEval_nots (k s : Nat) (v : V) (vs : List V) (ops : List BooleanOperator) :
    tryEval s (v :: vs) (.replicate k .not ++ ops) =
      tryEval s (Connectives.neg^[k] v :: vs) ops := by
  induction k generalizing v with
  | zero => rfl
  | succ k ih =>
    rw [List.replicate_succ, List.cons_append, tryEval_not, ih, Function.iterate_succ_apply]

theorem tryEval_join (s : Nat) (j : Junction) (l r : V) (vs : List V)
    (ops : List BooleanOperator) :
    tryEval s (r :: l :: vs) (j.operator :: ops) =
      tryEval s (Connectives.join j l r :: vs) ops := by
  rw [tryEval]
  simp only [Connectives.operand_eq, Junction.operand_operator, List.length_cons,
    Nat.le_add_left, if_true, List.take_succ_cons, List.take_zero, List.reverse_cons,
    List.reverse_nil, List.nil_append, List.cons_append, Connectives.operate_join,
    List.drop_succ_cons, List.drop_zero]

/-- A single value under a binary operator waits there unless it settles the operator. -/
theorem tryEval_hold (s : Nat) (j : Junction) (v : V) (ops : List BooleanOperator) :
    tryEval s [v] (j.operator :: ops) =
      if Connectives.decides j v then tryEval (s + 1) [v] ops
      else .ok ⟨s, j.operator :: ops, [v]⟩ := by
  rw [tryEval]
  simp only [Connectives.operand_eq, Junction.operand_operator, List.length_cons,
    List.length_nil, Nat.zero_add, Nat.reduceLeDiff, if_false, Connectives.shortCircuit_join]
  cases Connectives.decides j v <;> rfl

theorem tryEval_skip (n s : Nat) (vs : List V) (ops : List BooleanOperator) :
    tryEval (s + n) vs ops =
      (tryEval s vs ops).map fun vm => { vm with shortCircuit := vm.shortCircuit + n } := by
  induction ops generalizing s vs with
  | nil => rfl
  | cons op ops ih =>
    rw [tryEval, tryEval]
    split
    · split
      · rfl
      · exact ih _ _
    · split
      · rw [Nat.add_right_comm]
        exact ih _ _
      · rfl

theorem tryRunFrom_cons (vm : VM BooleanOperator V) (p : Part BooleanOperator V)
    (ps : List (Part BooleanOperator V)) :
    tryRunFrom vm (p :: ps) = vm.step p >>= fun vm => tryRunFrom vm ps := by
  simp only [tryRunFrom, List.foldlM_cons, bind_assoc]

/-- While the counter is positive one whole operand is passed over. -/
theorem tryRunFrom_skip (t : OpTree Junction V) (s : Nat) (ops : List BooleanOperator)
    (vs : List V) (rest : List (Part BooleanOperator V)) :
    tryRunFrom ⟨s + 1, ops, vs⟩ (listing t ++ rest) = tryRunFrom ⟨s, ops, vs⟩ rest := by
  induction t generalizing s rest with
  | leaf => exact tryRunFrom_cons _ _ _
  | neg t ih =>
    rw [listing_neg, List.cons_append, tryRunFrom_cons, ← ih]
    simp only [step, Connectives.operand_eq]
    rfl
  | node j l r ihl ihr =>
    rw [listing_node, List.cons_append, tryRunFrom_cons, List.append_assoc]
    simp only [step, Connectives.operand_eq, Junction.operand_operator]
    exact (ihl (s + 1) _).trans (ihr s _)

theorem resume_decided (t : OpTree Junction V) (vs : List V) (ops : List BooleanOperator)
    (rest : List (Part BooleanOperator V)) :
    (tryEval 1 vs ops >>= fun vm => tryRunFrom vm (listing t ++ rest)) =
      tryEval 0 vs ops >>= fun vm => tryRunFrom vm rest := by
  rw [← Nat.zero_add 1, tryEval_skip]
  cases tryEval 0 vs ops with
  | error => rfl
  | ok vm => exact tryRunFrom_skip t _ _ _ _

/-- The value left after an operand, read while `acc` waits under `j` and `k` negations are
pending above it. -/
def heldValue (j : Junction) (acc : V) (k : Nat) : OpTree Junction V → V
  | .leaf v => Connectives.join j acc (Connectives.neg^[k] v)
  | .neg t => heldValue j acc (k + 1) t
  | .node q l r =>
    let w := Connectives.neg^[k] (heldValue q acc 0 l)
    if Connectives.decides j w then w else heldValue j w 0 r

/-- The value left after an expression read with an empty stack of values. -/
def machineValue : OpTree Junction V → V
  | .leaf v => v
  | .neg t => Connectives.neg (machineValue t)
  | .node j l r =>
    let w := machineValue l
    if Connectives.decides j w then w else heldValue j w 0 r

theorem tryRunFrom_held (t : OpTree Junction V) (j : Junction) (acc : V) (k : Nat)
    (ops : List BooleanOperator) (rest : List (Part BooleanOperator V)) :
    tryRunFrom ⟨0, .replicate k .not ++ j.operator :: ops, [acc]⟩ (listing t ++ rest) =
      tryEval 0 [heldValue j acc k t] ops >>= fun vm => tryRunFrom vm rest := by
  induction t generalizing j acc k ops rest with
  | leaf v =>
    rw [listing_leaf, List.singleton_append, tryRunFrom_cons]
    simp only [step, tryEval_nots, tryEval_join, heldValue]
  | neg t ih =>
    rw [listing_neg, List.cons_append, tryRunFrom_cons]
    exact ih j acc (k + 1) ops rest
  | node q l r ihl ihr =>
    rw [listing_node, List.cons_append, tryRunFrom_cons, List.append_assoc]
    change tryRunFrom ⟨0, .replicate 0 .not ++ q.operator :: _, _⟩ _ = _
    rw [ihl, tryEval_nots, tryEval_hold, heldValue]
    split
    · exact resume_decided r _ _ _
    · exact ihr j _ 0 ops rest

theorem tryRunFrom_free (t : OpTree Junction V) (ops : List BooleanOperator)
    (rest : List (Part BooleanOperator V)) :
    tryRunFrom ⟨0, ops, []⟩ (listing t ++ rest) =
      tryEval 0 [machineValue t] ops >>= fun vm => tryRunFrom vm rest := by
  induction t generalizing ops rest with
  | leaf v => exact tryRunFrom_cons _ _ _
  | neg t ih =>
    rw [listing_neg, List.cons_append, tryRunFrom_cons]
    change tryRunFrom ⟨0, .not :: ops, []⟩ (listing t ++ rest) = _
    rw [ih, tryEval_not, machineValue]
  | node j l r ihl ihr =>
    rw [listing_node, List.cons_append, tryRunFrom_cons, List.append_assoc]
    change tryRunFrom ⟨0, j.operator :: ops, []⟩ (listing l ++ (listing r ++ rest)) = _
    rw [ihl, tryEval_hold, machineValue]
    split
    · exact resume_decided r _ _ _
    · exact tryRunFrom_held r j _ 0 ops rest

/-- On a complete prefix expression the machine always returns a value. -/
theorem tryRun_listing (t : OpTree Junction V) : tryRun (listing t) = .ok (machineValue t) := by
  have h := tryRunFrom_free t [] []
  rw [List.append_nil] at h
  exact h

end VM

theorem Exprs.tryEval_listing [Connectives V] (t : OpTree Junction α) (eval : α → V) :
    Exprs.tryEval ⟨listing t⟩ eval = .ok (VM.machineValue (t.map eval)) := by
  rw [Exprs.tryEval, listing_map, VM.tryRun_listing]

theorem Exprs.validateArity_listing (t : OpTree Junction α) :
    Exprs.validateArity ⟨listing t⟩ = .ok () := by
  rw [Exprs.validateArity, listing_map, VM.tryRun_listing]

end Dhttp.Access
