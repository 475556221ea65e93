import Dhttp.Lib.OperatorTree

namespace Dhttp.Access
open Dhttp.Lib
set_option autoImplicit true

/-- One element of an expression in Polish notation. -/
inductive Part (Operator Expr : Type) where
  | operator (op : Operator)
  | expr (e : Expr)
  deriving Repr, DecidableEq

def Part.mapExpr (f : α → γ) : Part Operator α → Part Operator γ
  | .operator op => .operator op
  | .expr e => .expr (f e)

/-- The operand iterators are lists; the values of the machine's stack reach `shortCircuit`
from the top of the stack. -/
class BeOperator (Operator Value : Type) where
  operand : Operator → Nat
  operate : Operator → List Value → Option Value
  shortCircuit : Operator → List Value → Option (Value × Nat) := fun _ _ => none

inductive BooleanOperator where
  | and
  | or
  | not
  deriving Repr, DecidableEq

def BooleanOperator.operand : BooleanOperator → Nat
  | .and => 2
  | .or => 2
  | .not => 1

instance : BeOperator BooleanOperator Bool where
  operand := BooleanOperator.operand
  operate
    | .and, l :: r :: _ => some (l && r)
    | .and, [l] => if l then none else some false
    | .or, l :: r :: _ => some (l || r)
    | .or, [l] => if l then some true else none
    | .not, v :: _ => some (!v)
    | _, _ => none
  shortCircuit
    | .and, v :: _ => if !v then some (false, 1) else none
    | .or, v :: _ => if v then some (true, 1) else none
    | _, _ => none

instance : BeOperator BooleanOperator (Except E Bool) where
  operand := BooleanOperator.operand
  operate
    | .and, l :: r :: _ => some (r.bind fun r => l.map fun l => l && r)
    | .or, l :: r :: _ => some (r.bind fun r => l.map fun l => l || r)
    | .not, v :: _ => some (v.map (!·))
    | _, _ => none
  shortCircuit
    | .and, .ok false :: _ => some (.ok false, 1)
    | .and, .error e :: _ => some (.error e, 1)
    | .or, .ok true :: _ => some (.ok true, 1)
    | .or, .error e :: _ => some (.error e, 1)
    | _, _ => none

instance : BeOperator BooleanOperator Unit where
  operand := BooleanOperator.operand
  operate op values := if op.operand ≤ values.length then some () else none

inductive EvalPolishError where
  | incompleteExpression
  | extraOperands
  | missingOperands
  deriving Repr, DecidableEq

/-- Both stacks are lists with the top first. -/
structure VM (Operator Value : Type) where
  shortCircuit : Nat := 0
  ops : List Operator := []
  values : List Value := []
  deriving Repr, DecidableEq

namespace VM

variable [BeOperator Operator Value]

/-- The `while let` loop of `try_eval`: each round pops an operator or stops. -/
def tryEval (skip : Nat) (values : List Value) :
    List Operator → Except EvalPolishError (VM Operator Value)
  | [] => .ok ⟨skip, [], values⟩
  | op :: ops =>
    if BeOperator.operand Value op ≤ values.length then
      match BeOperator.operate op (values.take (BeOperator.operand Value op)).reverse with
      | none => .error .missingOperands
      | some value => tryEval skip (value :: values.drop (BeOperator.operand Value op)) ops
    else
      match BeOperator.shortCircuit op values with
      | some (value, consumed) =>
        tryEval (skip + (BeOperator.operand Value op - consumed)) (value :: values.drop consumed) ops
      | none => .ok ⟨skip, op :: ops, values⟩

/-- The loop body of `try_run`. -/
def step (vm : VM Operator Value) :
    Part Operator Value → Except EvalPolishError (VM Operator Value)
  | .operator op =>
    match vm.shortCircuit with
    | 0 => .ok { vm with ops := op :: vm.ops }
    | n + 1 => .ok { vm with shortCircuit := n + 1 + (BeOperator.operand Value op - 1) }
  | .expr value =>
    match vm.shortCircuit with
    | 0 => tryEval 0 (value :: vm.values) vm.ops
    | n + 1 => .ok { vm with shortCircuit := n }

/-- The checks after the loop of `try_run`. -/
def finish (vm : VM Operator Value) : Except EvalPolishError Value :=
  if vm.ops ≠ [] ∨ vm.shortCircuit ≠ 0 ∨ vm.values = [] then .error .incompleteExpression
  else
    match vm.values with
    | [] => .error .incompleteExpression
    | [value] => .ok value
    | _ => .error .extraOperands

def tryRunFrom (vm : VM Operator Value) (parts : List (Part Operator Value)) :
    Except EvalPolishError Value :=
  parts.foldlM step vm >>= finish

def tryRun (parts : List (Part Operator Value)) : Except EvalPolishError Value :=
  tryRunFrom {} parts

end VM

structure Exprs (Operator Expr : Type) where
  parts : List (Part Operator Expr)
  deriving Repr, DecidableEq

/-- The state enters through `eval`, the evaluation of an atom in it. -/
def Exprs.tryEval [BeOperator Operator Value] (exprs : Exprs Operator Expr)
    (eval : Expr → Value) : Except EvalPolishError Value :=
  VM.tryRun (exprs.parts.map (Part.mapExpr eval))

def Exprs.validateArity [BeOperator Operator Unit] (exprs : Exprs Operator Expr) :
    Except EvalPolishError Unit :=
  VM.tryRun (exprs.parts.map (Part.mapExpr fun _ => ()))

class EvalRuleError (E Action : Type) where
  fallback : E → Action → Option Action

inductive RequestAction where
  | allow
  | deny
  deriving Repr, DecidableEq

inductive EvalError where
  | missingClientName
  deriving Repr, DecidableEq, Inhabited

instance : EvalRuleError EvalError RequestAction where
  fallback _ _ := some .deny

structure Rule (Expr Action : Type) where
  exprs : Exprs BooleanOperator Expr
  action : Action

def Rule.eval {Action : Type} [EvalRuleError E Action] (rule : Rule Expr Action)
    (eval : Expr → Except E Bool) : Option Action :=
  match rule.exprs.tryEval eval with
  | .ok (.ok matched) => if matched then some rule.action else none
  | .ok (.error e) => EvalRuleError.fallback e rule.action
  | .error _ => none

end Dhttp.Access
