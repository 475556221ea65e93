import Dhttp.Access.ArityCheck

namespace Dhttp.Access
open Dhttp.Lib
set_option autoImplicit true

namespace VM

section Checked

variable [BeOperator Operator Value]

/-- Subtraction of machine integers: nothing below zero. -/
def checkedSub (a b : Nat) : Option Nat := if b ≤ a then some (a - b) else none

/-- The `kept` oldest values of a stack with its top first. -/
def truncate (values : List Value) (kept : Nat) : List Value :=
  values.drop (values.length - kept)

/-- `tryEval` with every subtraction of the source checked. -/
def tryEvalChecked (skip : Nat) (values : List Value) :
    List Operator → Option (Except EvalPolishError (VM Operator Value))
  | [] => some (.ok ⟨skip, [], values⟩)
  | op :: ops =>
    if BeOperator.operand Value op ≤ values.length then do
      let start ← checkedSub values.length (BeOperator.operand Value op)
      match BeOperator.operate op (values.take (values.length - start)).reverse with
      | none => some (.error .missingOperands)
      | some value => tryEvalChecked skip (value :: truncate values start) ops
    else
      match BeOperator.shortCircuit op values with
      | some (value, consumed) => do
        let kept ← checkedSub values.length consumed
        let skipped ← checkedSub (BeOperator.operand Value op) consumed
        tryEvalChecked (skip + skipped) (value :: truncate values kept) ops
      | none => some (.ok ⟨skip, op :: ops, values⟩)

/-- `step` with every subtraction of the source checked. -/
def stepChecked (vm : VM Operator Value) :
    Part Operator Value → Option (Except EvalPolishError (VM Operator Value))
  | .operator op =>
    if vm.shortCircuit = 0 then some (.ok { vm with ops := op :: vm.ops })
    else do
      let more ← checkedSub (BeOperator.operand Value op) 1
      some (.ok { vm with shortCircuit := vm.shortCircuit + more })
  | .expr value =>
    if vm.shortCircuit = 0 then tryEvalChecked 0 (value :: vm.values) vm.ops
    else do
      let rest ← checkedSub vm.shortCircuit 1
      some (.ok { vm with shortCircuit := rest })

def runChecked (vm : VM Operator Value) :
    List (Part Operator Value) → Option (Except EvalPolishError (VM Operator Value))
  | [] => some (.ok vm)
  | part :: parts => do
    match ← vm.stepChecked part with
    | .error e => some (.error e)
    | .ok vm => vm.runChecked parts

def tryRunChecked (parts : List (Part Operator Value)) :
    Option (Except EvalPolishError Value) := do
  let read ← runChecked {} parts
  some (read >>= finish)

theorem checkedSub_of_le (h : b ≤ a) : checkedSub a b = some (a - b) := if_pos h

theorem truncate_sub {values : List Value} (h : n ≤ values.length) :
    truncate values (values.length - n) = values.drop n := by
  rw [truncate, Nat.sub_sub_self h]

end Checked

section

variable {V : Type}

/-- How far the unit machine is when the machine on `V` is at the same part: a skipped
operand is one the unit machine still has to read for an operator kept on its stack. -/
inductive Follows : VM BooleanOperator Unit → VM BooleanOperator V → Prop where
  | reading (ops : List BooleanOperator) (hl : us.length = vs.length) :
    Follows ⟨0, ops, us⟩ ⟨0, ops, vs⟩
  | skipping {extra ops : List BooleanOperator} {n : Nat} (u : Unit)
    (v : V) (hp : pendingPairs extra = n + 1) (hh : Held ops) :
    Follows ⟨0, extra ++ ops, [u]⟩ ⟨n + 1, ops, [v]⟩

theorem Follows.finish {unit : VM BooleanOperator Unit} {vm : VM BooleanOperator V}
    (h : Follows unit vm) : (finish vm).map (fun _ => ()) = finish unit := by
  cases h with
  | @reading us vs ops hl =>
    cases ops with
    | cons op ops => rfl
    | nil =>
      match us, vs with
      | [], [] => rfl
      | [_], [_] => rfl
      | _ :: _ :: _, _ :: _ :: _ => rfl
  | @skipping extra ops n u v hp hh =>
    cases extra with
    | nil => cases hp
    | cons op extra => simp [VM.finish, Except.map]

variable [Connectives V]

theorem tryEvalChecked_eq (s : Nat) (v : V) (vs : List V) (ops : List BooleanOperator) :
    tryEvalChecked s (v :: vs) ops = some (tryEval s (v :: vs) ops) := by
  induction ops generalizing s v vs with
  | nil => rfl
  | cons op ops ih =>
    rw [tryEvalChecked, tryEval]
    split
    · rename_i hle
      rw [checkedSub_of_le hle, Option.bind_eq_bind, Option.bind_some, Nat.sub_sub_self hle,
        truncate_sub hle]
      cases BeOperator.operate op ((v :: vs).take (BeOperator.operand V op)).reverse with
      | none => rfl
      | some value => exact ih _ _ _
    · rename_i hlt
      obtain rfl | ⟨j, rfl⟩ := op.not_or_junction
      · rw [Connectives.operand_eq] at hlt
        exact absurd (Nat.le_add_left 1 vs.length) hlt
      · rw [Connectives.operand_eq, Junction.operand_operator, List.length_cons] at hlt
        obtain rfl : vs = [] := List.length_eq_zero_iff.mp (by omega)
        rw [Connectives.shortCircuit_join]
        cases Connectives.decides j v with
        | false => rfl
        | true =>
          simp only [if_true, Connectives.operand_eq, Junction.operand_operator]
          exact ih _ _ _

theorem stepChecked_eq (vm : VM BooleanOperator V) (part : Part BooleanOperator V) :
    vm.stepChecked part = some (vm.step part) := by
  obtain ⟨skip, ops, values⟩ := vm
  cases skip with
  | zero =>
    cases part with
    | operator op => rfl
    | expr value => exact tryEvalChecked_eq _ _ _ _
  | succ n =>
    cases part with
    | operator op =>
      have hpos : 1 ≤ BeOperator.operand V op := by
        rw [Connectives.operand_eq]
        exact operand_pos op
      simp only [stepChecked, checkedSub_of_le hpos]
      rfl
    | expr value => rfl

theorem runChecked_eq (vm : VM BooleanOperator V) (parts : List (Part BooleanOperator V)) :
    vm.runChecked parts = some (parts.foldlM step vm) := by
  induction parts generalizing vm with
  | nil => rfl
  | cons part parts ih =>
    rw [runChecked, stepChecked_eq, List.foldlM_cons]
    cases vm.step part with
    | error => rfl
    | ok vm => exact ih vm

/-- No subtraction of a run goes below zero. -/
theorem tryRunChecked_eq (parts : List (Part BooleanOperator V)) :
    tryRunChecked parts = some (tryRun parts) := by
  rw [tryRunChecked, runChecked_eq]
  rfl

/-- With one value left the machine pops to where it rests, and owes an operand for each
pair it has popped. -/
theorem tryEval_one (s : Nat) (v : V) (ops : List BooleanOperator) :
    ∃ popped rest w, ops = popped ++ rest ∧ Held rest ∧
      tryEval s [v] ops = .ok ⟨s + pendingPairs popped, rest, [w]⟩ := by
  induction ops generalizing s v with
  | nil => exact ⟨[], [], v, rfl, .inl rfl, rfl⟩
  | cons op ops ih =>
    obtain rfl | ⟨j, rfl⟩ := op.not_or_junction
    · obtain ⟨popped, rest, w, he, hh, hr⟩ := ih s (Connectives.neg v)
      refine ⟨.not :: popped, rest, w, congrArg _ he, hh, ?_⟩
      rw [tryEval_not, hr, pendingPairs_not]
    · rw [tryEval_hold]
      split
      · obtain ⟨popped, rest, w, he, hh, hr⟩ := ih (s + 1) v
        refine ⟨j.operator :: popped, rest, w, congrArg _ he, hh, ?_⟩
        rw [hr, pendingPairs_junction, Nat.add_assoc]
      · exact ⟨[], _, v, rfl, .inr ⟨j, ops, rfl⟩, rfl⟩

theorem tryEval_follows (u : Unit) (v : V) {us : List Unit} {vs : List V}
    (ops : List BooleanOperator) (hl : us.length = vs.length) :
    ∃ unit vm, tryEval 0 (u :: us) ops = .ok unit ∧ tryEval 0 (v :: vs) ops = .ok vm ∧
      Follows unit vm := by
  induction ops generalizing u v us vs with
  | nil => exact ⟨_, _, rfl, rfl, .reading _ (congrArg (· + 1) hl)⟩
  | cons op ops ih =>
    obtain rfl | ⟨j, rfl⟩ := op.not_or_junction
    · rw [tryEval_not, tryEval_not]
      exact ih _ _ hl
    · cases us with
      | nil =>
        obtain rfl : vs = [] := List.length_eq_zero_iff.mp hl.symm
        rw [tryEval_hold, tryEval_hold]
        cases Connectives.decides j v with
        | false => exact ⟨_, _, rfl, rfl, .reading _ rfl⟩
        | true =>
          obtain ⟨popped, rest, w, rfl, hh, hr⟩ := tryEval_one (0 + 1) v ops
          rw [if_pos rfl, hr, Nat.zero_add, Nat.add_comm 1]
          refine ⟨_, _, rfl, rfl, ?_⟩
          have hp : pendingPairs (j.operator :: popped) = pendingPairs popped + 1 := by
            rw [pendingPairs_junction, Nat.add_comm]
          exact .skipping _ w hp hh
      | cons l us =>
        cases vs with
        | nil => cases hl
        | cons r vs =>
          rw [tryEval_join, tryEval_join]
          exact ih _ _ (Nat.succ.inj hl)

theorem tryEval_unit_one (u : Unit) (extra : List BooleanOperator)
    {ops : List BooleanOperator} (hh : Held ops) :
    ∃ w rest, tryEval 0 [u] (extra ++ ops) = .ok ⟨0, rest ++ ops, [w]⟩ ∧
      pendingPairs rest = pendingPairs extra ∧ (pendingPairs extra = 0 → rest = []) := by
  induction extra generalizing u with
  | nil =>
    obtain rfl | ⟨j, rest, rfl⟩ := hh
    · exact ⟨u, [], rfl, rfl, fun _ => rfl⟩
    · exact ⟨u, [], tryEval_hold .., rfl, fun _ => rfl⟩
  | cons op extra ih =>
    obtain rfl | ⟨j, rfl⟩ := op.not_or_junction
    · rw [List.cons_append, tryEval_not, pendingPairs_not]
      exact ih _
    · refine ⟨u, j.operator :: extra, tryEval_hold .., rfl, ?_⟩
      rw [pendingPairs_junction]
      intro hzero
      omega

/-- An operand of an operator kept on the stack closes one pair. -/
theorem tryEval_unit_two (l r : Unit) {extra ops : List BooleanOperator} (hh : Held ops)
    (hp : pendingPairs extra = n + 1) :
    ∃ w rest, tryEval 0 [r, l] (extra ++ ops) = .ok ⟨0, rest ++ ops, [w]⟩ ∧
      pendingPairs rest = n ∧ (n = 0 → rest = []) := by
  induction extra generalizing r with
  | nil => cases hp
  | cons op extra ih =>
    obtain rfl | ⟨j, rfl⟩ := op.not_or_junction
    · rw [pendingPairs_not] at hp
      rw [List.cons_append, tryEval_not]
      exact ih _ hp
    · rw [pendingPairs_junction, Nat.add_comm] at hp
      rw [List.cons_append, tryEval_join, ← Nat.succ.inj hp]
      exact tryEval_unit_one _ extra hh

theorem Follows.step {unit : VM BooleanOperator Unit} {vm : VM BooleanOperator V}
    (h : Follows unit vm) (part : Part BooleanOperator V) :
    ∃ unit' vm', unit.step (part.mapExpr fun _ => ()) = .ok unit' ∧ vm.step part = .ok vm' ∧
      Follows unit' vm' := by
  cases h with
  | reading ops hl =>
    cases part with
    | operator op => exact ⟨_, _, rfl, rfl, .reading _ hl⟩
    | expr value => exact tryEval_follows () value ops hl
  | @skipping extra ops n u v hp hh =>
    cases part with
    | operator op =>
      have hn : pendingPairs (op :: extra) = n + (op.operand - 1) + 1 := by
        rw [pendingPairs, hp]
        omega
      refine ⟨⟨0, op :: extra ++ ops, [u]⟩, ⟨n + (op.operand - 1) + 1, ops, [v]⟩, rfl, ?_, ?_⟩
      · simp only [VM.step, Connectives.operand_eq]
        rw [Nat.add_right_comm]
      · exact .skipping u v hn hh
    | expr value =>
      obtain ⟨w, rest, he, hr, hzero⟩ := tryEval_unit_two u () hh hp
      refine ⟨_, _, he, rfl, ?_⟩
      cases n with
      | zero =>
        rw [hzero rfl]
        exact .reading ops rfl
      | succ n => exact .skipping w v hr hh

theorem Follows.run {unit : VM BooleanOperator Unit} {vm : VM BooleanOperator V}
    (h : Follows unit vm) (parts : List (Part BooleanOperator V)) :
    ∃ unit' vm', (parts.map (Part.mapExpr fun _ => ())).foldlM VM.step unit = .ok unit' ∧
      parts.foldlM VM.step vm = .ok vm' ∧ Follows unit' vm' := by
  induction parts generalizing unit vm with
  | nil => exact ⟨unit, vm, rfl, rfl, h⟩
  | cons part parts ih =>
    obtain ⟨unit', vm', hu, hv, h'⟩ := h.step part
    rw [List.map_cons, List.foldlM_cons, List.foldlM_cons, hu, hv]
    exact ih h'

/-- The unit run and the run on values end alike. -/
theorem tryRun_unit (parts : List (Part BooleanOperator V)) :
    (tryRun parts).map (fun _ => ()) = tryRun (parts.map (Part.mapExpr fun _ => ())) := by
  have hstart : Follows (V := V) {} {} := @Follows.reading V [] [] [] rfl
  obtain ⟨unit, vm, hu, hv, h⟩ := hstart.run parts
  rw [tryRun, tryRunFrom, tryRun, tryRunFrom, hv]
  exact h.finish.trans (by rw [hu]; rfl)

end

end VM

/-- Evaluation ends as the validation of the same parts does, and a validated rule always
has a value to decide on. -/
theorem validation_predicts_evaluation (exprs : Exprs BooleanOperator Expr)
    (eval : Expr → Except E Bool) :
    (exprs.tryEval eval).map (fun _ => ()) = exprs.validateArity ∧
      VM.tryRunChecked (exprs.parts.map (Part.mapExpr eval)) = some (exprs.tryEval eval) ∧
      VM.tryRunChecked (exprs.parts.map (Part.mapExpr fun _ => ())) =
        some exprs.validateArity ∧
      ∀ (Action : Type) [EvalRuleError E Action] (action : Action),
        exprs.validateArity = .ok () →
          ∃ value, exprs.tryEval eval = .ok value ∧
            (Rule.mk exprs action).eval eval =
              match value with
              | .ok matched => if matched then some action else none
              | .error e => EvalRuleError.fallback e action := by
  have hunit : (exprs.tryEval eval).map (fun _ => ()) = exprs.validateArity := by
    rw [Exprs.tryEval, VM.tryRun_unit, List.map_map]
    congr 2
    funext part
    cases part <;> rfl
  refine ⟨hunit, VM.tryRunChecked_eq _, VM.tryRunChecked_eq _, ?_⟩
  intro Action _ action hok
  rw [hok] at hunit
  cases hvalue : exprs.tryEval eval with
  | error e =>
    rw [hvalue] at hunit
    cases hunit
  | ok value =>
    refine ⟨value, rfl, ?_⟩
    rw [Rule.eval, hvalue]
    cases value <;> rfl

theorem validation_predicts_evaluation_not :
    (Rule.mk (⟨[.operator .not, .expr ()]⟩ : Exprs BooleanOperator Unit)
      RequestAction.allow).eval (fun _ => Except.error EvalError.missingClientName) =
        some .deny := by
  have hpredicts := validation_predicts_evaluation
    (⟨[.operator .not, .expr ()]⟩ : Exprs BooleanOperator Unit)
    (fun _ => Except.error EvalError.missingClientName)
  obtain ⟨value, hvalue, heval⟩ := hpredicts.2.2.2 RequestAction .allow rfl
  cases hvalue
  exact heval

end Dhttp.Access
