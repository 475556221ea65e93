import Mathlib.Data.List.Induction
import Dhttp.Lib.PolishWords
import Dhttp.Access.StoredRules

namespace Dhttp.Access
open Dhttp.Lib
set_option autoImplicit true

/-- The operators pending on a stack that wait for two operands. -/
def pendingPairs : List BooleanOperator → Nat
  | [] => 0
  | op :: ops => op.operand - 1 + pendingPairs ops

@[simp] theorem pendingPairs_not (ops : List BooleanOperator) :
    pendingPairs (.not :: ops) = pendingPairs ops :=
  Nat.zero_add _

@[simp] theorem pendingPairs_junction (j : Junction) (ops : List BooleanOperator) :
    pendingPairs (j.operator :: ops) = 1 + pendingPairs ops := by
  rw [pendingPairs, Junction.operand_operator]

theorem BooleanOperator.not_or_junction (op : BooleanOperator) :
    op = .not ∨ ∃ j : Junction, op = j.operator := by
  cases op with
  | and => exact .inr ⟨.and, rfl⟩
  | or => exact .inr ⟨.or, rfl⟩
  | not => exact .inl rfl

/-- A stack at rest: nothing is pending, or a pair waits for its second operand. -/
def Held (ops : List BooleanOperator) : Prop :=
  ops = [] ∨ ∃ j rest, ops = Junction.operator j :: rest

theorem operand_pos (op : BooleanOperator) : 0 < op.operand := by
  cases op <;> decide

def Part.arity : Part BooleanOperator α → Nat
  | .operator op => op.operand
  | .expr _ => 0

theorem arity_mapExpr (f : α → γ) (part : Part BooleanOperator α) :
    (part.mapExpr f).arity = part.arity := by
  cases part <;> rfl

theorem surplus_mapExpr (f : α → γ) (parts : List (Part BooleanOperator α)) :
    surplus Part.arity (parts.map (Part.mapExpr f)) = surplus Part.arity parts := by
  induction parts with
  | nil => rfl
  | cons part parts ih => rw [List.map_cons, surplus_cons, surplus_cons, arity_mapExpr, ih]

/-- The last part is an atom. -/
def EndsInAtom (parts : List (Part Operator Expr)) : Prop :=
  ∃ front atom, parts = front ++ [.expr atom]

theorem endsInAtom_concat_expr (front : List (Part Operator Expr)) (atom : Expr) :
    EndsInAtom (front ++ [.expr atom]) :=
  ⟨front, atom, rfl⟩

theorem not_endsInAtom_concat_operator (front : List (Part Operator Expr)) (op : Operator) :
    ¬EndsInAtom (front ++ [.operator op]) := by
  intro ⟨front', atom, h⟩
  have hlast := List.append_inj_right' h rfl
  cases hlast

theorem endsInAtom_mapExpr (f : α → γ) (parts : List (Part Operator α)) :
    EndsInAtom (parts.map (Part.mapExpr f)) ↔ EndsInAtom parts := by
  induction parts using List.reverseRecOn with
  | nil =>
    constructor
    · intro ⟨front, atom, h⟩
      exact absurd h.symm (List.append_ne_nil_of_right_ne_nil _ (List.cons_ne_nil _ _))
    · intro ⟨front, atom, h⟩
      exact absurd h.symm (List.append_ne_nil_of_right_ne_nil _ (List.cons_ne_nil _ _))
  | append_singleton front part _ =>
    rw [List.map_append, List.map_singleton]
    cases part with
    | operator op =>
      constructor
      · intro h
        exact absurd h (not_endsInAtom_concat_operator _ _)
      · intro h
        exact absurd h (not_endsInAtom_concat_operator _ _)
    | expr e =>
      constructor
      · intro _
        exact endsInAtom_concat_expr _ _
      · intro _
        exact endsInAtom_concat_expr _ _

namespace VM

/-- A run on unit values reduces until one value is left or no operator is. -/
theorem tryEval_unit (v : Unit) (vs : List Unit) (ops : List BooleanOperator) :
    ∃ w ws ops', tryEval 0 (v :: vs) ops = .ok ⟨0, ops', w :: ws⟩ ∧
      ws.length + pendingPairs ops = vs.length + pendingPairs ops' ∧
      (ops' = [] ∨ ws = [] ∧ Held ops') := by
  induction ops generalizing v vs with
  | nil => exact ⟨v, vs, [], rfl, rfl, .inl rfl⟩
  | cons op ops ih =>
    obtain rfl | ⟨j, rfl⟩ := op.not_or_junction
    · rw [tryEval_not, pendingPairs_not]
      exact ih _ vs
    · rw [pendingPairs_junction]
      cases vs with
      | nil =>
        rw [tryEval_hold]
        refine ⟨v, [], j.operator :: ops, rfl, ?_, .inr ⟨rfl, .inr ⟨j, ops, rfl⟩⟩⟩
        rw [pendingPairs_junction]
      | cons l vs =>
        rw [tryEval_join]
        obtain ⟨w, ws, ops', he, hb, hh⟩ := ih (Connectives.join j l v) vs
        refine ⟨w, ws, ops', he, ?_, hh⟩
        rw [List.length_cons]
        omega

/-- What the unit machine knows of the parts it has read. -/
structure HasRead (parts : List (Part BooleanOperator Unit)) (vm : VM BooleanOperator Unit) :
    Prop where
  reading : vm.shortCircuit = 0
  balance : (vm.values.length : Int) - pendingPairs vm.ops = surplus Part.arity parts
  afterAtom : EndsInAtom parts → vm.ops = [] ∨ vm.values.length = 1 ∧ Held vm.ops
  drained : vm.ops = [] → parts = [] ∨ EndsInAtom parts

theorem hasRead_nil : HasRead [] {} where
  reading := rfl
  balance := rfl
  afterAtom _ := .inl rfl
  drained _ := .inl rfl

theorem HasRead.step (h : HasRead parts vm) (part : Part BooleanOperator Unit) :
    ∃ vm', vm.step part = .ok vm' ∧ HasRead (parts ++ [part]) vm' := by
  obtain ⟨skip, ops, values⟩ := vm
  obtain ⟨rfl, hb, -, -⟩ := h
  cases part with
  | operator op =>
    refine ⟨⟨0, op :: ops, values⟩, rfl, rfl, ?_, ?_, ?_⟩
    · have hpos := operand_pos op
      simp only [pendingPairs, surplus_append, surplus_cons, surplus_nil, Part.arity, ← hb]
      omega
    · intro hlast
      exact absurd hlast (not_endsInAtom_concat_operator _ _)
    · intro hnil
      cases hnil
  | expr value =>
    obtain ⟨w, ws, ops', he, hw, hh⟩ := tryEval_unit value values ops
    refine ⟨⟨0, ops', w :: ws⟩, he, rfl, ?_, ?_, ?_⟩
    · simp only [List.length_cons, surplus_append, surplus_cons, surplus_nil, Part.arity, ← hb]
      omega
    · intro _
      exact hh.imp_right fun h => ⟨congrArg (·.length + 1) h.1, h.2⟩
    · intro _
      exact .inr (endsInAtom_concat_expr _ _)

theorem hasRead_run (parts : List (Part BooleanOperator Unit)) :
    ∃ vm, parts.foldlM VM.step {} = .ok vm ∧ HasRead parts vm := by
  induction parts using List.reverseRecOn with
  | nil => exact ⟨{}, rfl, hasRead_nil⟩
  | append_singleton parts part ih =>
    obtain ⟨vm, he, h⟩ := ih
    obtain ⟨vm', hs, h'⟩ := h.step part
    refine ⟨vm', ?_, h'⟩
    rw [List.foldlM_append, he]
    change List.foldlM VM.step vm [part] = _
    rw [List.foldlM_cons, hs]
    rfl

theorem finish_unit_ok {ops : List BooleanOperator} {values : List Unit} :
    finish ⟨0, ops, values⟩ = .ok () ↔ ops = [] ∧ values.length = 1 := by
  constructor
  · intro h
    simp only [finish] at h
    split at h
    · cases h
    · rename_i hn
      have hops : ops = [] := by
        by_contra hne
        exact hn (.inl hne)
      cases values with
      | nil => cases h
      | cons value values =>
        cases values with
        | nil => exact ⟨hops, rfl⟩
        | cons => cases h
  · intro ⟨hops, hl⟩
    obtain ⟨value, rfl⟩ := List.length_eq_one_iff.mp hl
    rw [hops]
    rfl

theorem HasRead.finish_ok_iff (h : HasRead parts vm) :
    finish vm = .ok () ↔ EndsInAtom parts ∧ surplus Part.arity parts = 1 := by
  obtain ⟨skip, ops, values⟩ := vm
  obtain ⟨rfl, hb, hatom, hdrained⟩ := h
  rw [finish_unit_ok, ← hb]
  constructor
  · intro ⟨hops, hl⟩
    subst hops
    obtain rfl | hlast := hdrained rfl
    · have he : (values.length : Int) - 0 = 0 := hb
      omega
    · exact ⟨hlast, by simp only [pendingPairs, hl]; rfl⟩
  · intro ⟨hlast, hs⟩
    obtain hops | ⟨hl, hops | ⟨j, rest, hops⟩⟩ := hatom hlast
    · simp only at hops hs
      rw [hops, pendingPairs] at hs
      exact ⟨hops, by omega⟩
    · exact ⟨hops, hl⟩
    · simp only at hl hops hs
      rw [hops, hl, pendingPairs_junction] at hs
      omega

theorem tryRun_unit_ok (parts : List (Part BooleanOperator Unit)) :
    tryRun parts = .ok () ↔ EndsInAtom parts ∧ surplus Part.arity parts = 1 := by
  obtain ⟨vm, he, h⟩ := hasRead_run parts
  rw [tryRun, tryRunFrom, he]
  exact h.finish_ok_iff

end VM

/-- The check looks at the last part and at the count of the parts only. -/
theorem Exprs.validateArity_ok (exprs : Exprs BooleanOperator Expr) :
    exprs.validateArity = .ok () ↔
      EndsInAtom exprs.parts ∧ surplus Part.arity exprs.parts = 1 := by
  rw [Exprs.validateArity, VM.tryRun_unit_ok, endsInAtom_mapExpr, surplus_mapExpr]

/-- One complete prefix expression. -/
inductive PrefixExpr : List (Part BooleanOperator Expr) → Prop where
  | atom (e : Expr) : PrefixExpr [.expr e]
  | not (h : PrefixExpr parts) : PrefixExpr (.operator .not :: parts)
  | and (hl : PrefixExpr l) (hr : PrefixExpr r) : PrefixExpr (.operator .and :: (l ++ r))
  | or (hl : PrefixExpr l) (hr : PrefixExpr r) : PrefixExpr (.operator .or :: (l ++ r))

theorem prefixExpr_iff_polishWord (parts : List (Part BooleanOperator Expr)) :
    PrefixExpr parts ↔ PolishWord Part.arity parts := by
  constructor
  · intro h
    induction h with
    | atom e =>
      exact @PolishWord.node _ Part.arity (Part.expr e) [] rfl
        fun _ hw => absurd hw List.not_mem_nil
    | not _ ih => exact ih.cons_one rfl
    | and _ _ ihl ihr => exact ihl.cons_two ihr rfl
    | or _ _ ihl ihr => exact ihl.cons_two ihr rfl
  · intro h
    induction h with
    | node s operands hn _ ih =>
      cases s with
      | expr e =>
        rw [List.length_eq_zero_iff.mp hn]
        exact .atom e
      | operator op =>
        cases op with
        | not =>
          obtain ⟨w, rfl⟩ := List.length_eq_one_iff.mp hn
          rw [List.flatten_singleton]
          exact .not (ih w List.mem_cons_self)
        | and =>
          obtain ⟨l, r, rfl⟩ := List.length_eq_two.mp hn
          rw [List.flatten_cons, List.flatten_singleton]
          exact .and (ih l List.mem_cons_self) (ih r (List.mem_cons_of_mem _ List.mem_cons_self))
        | or =>
          obtain ⟨l, r, rfl⟩ := List.length_eq_two.mp hn
          rw [List.flatten_cons, List.flatten_singleton]
          exact .or (ih l List.mem_cons_self) (ih r (List.mem_cons_of_mem _ List.mem_cons_self))

/-- Some proper beginning already has more atoms than two-place operators, although the
sequence ends in an atom and its counts are those of one expression. -/
def ClosesEarly (parts : List (Part BooleanOperator Expr)) : Prop :=
  EndsInAtom parts ∧ surplus Part.arity parts = 1 ∧
    ∃ front, front <+: parts ∧ front ≠ parts ∧ 0 < surplus Part.arity front

theorem PrefixExpr.endsInAtom {parts : List (Part BooleanOperator α)} (h : PrefixExpr parts) :
    EndsInAtom parts := by
  have hlast {l r : List (Part BooleanOperator α)} (hr : EndsInAtom r) : EndsInAtom (l ++ r) := by
    obtain ⟨front, atom, rfl⟩ := hr
    exact ⟨l ++ front, atom, (List.append_assoc ..).symm⟩
  induction h with
  | atom e => exact ⟨[], e, rfl⟩
  | @not parts _ ih => exact hlast (l := [.operator .not]) ih
  | @and l r _ _ _ ih => exact hlast (l := .operator .and :: l) ih
  | @or l r _ _ _ ih => exact hlast (l := .operator .or :: l) ih

theorem validateArity_prefixExpr (exprs : Exprs BooleanOperator Expr)
    (h : PrefixExpr exprs.parts) : exprs.validateArity = .ok () := by
  rw [Exprs.validateArity_ok]
  exact ⟨h.endsInAtom, ((polishWord_iff _).mp ((prefixExpr_iff_polishWord _).mp h)).1⟩

theorem validateArity_iff_prefixExpr (exprs : Exprs BooleanOperator Expr) :
    (exprs.validateArity = .ok () ↔ PrefixExpr exprs.parts) ↔ ¬ClosesEarly exprs.parts := by
  constructor
  · intro h ⟨hlast, hs, front, hf, hne, hpos⟩
    have hexpr := h.mp ((Exprs.validateArity_ok exprs).mpr ⟨hlast, hs⟩)
    have hlate := ((polishWord_iff _).mp ((prefixExpr_iff_polishWord _).mp hexpr)).2
    have hlt := hlate front hf hne
    omega
  · intro h
    constructor
    · intro hok
      obtain ⟨hlast, hs⟩ := (Exprs.validateArity_ok exprs).mp hok
      apply (prefixExpr_iff_polishWord _).mpr
      apply (polishWord_iff _).mpr
      constructor
      · exact hs
      · intro front hf hne
        by_contra hge
        exact h ⟨hlast, hs, front, hf, hne, by omega⟩
    · exact validateArity_prefixExpr exprs

section
variable (R : RegexLib)

/-- The parts a stored text spells, before their arity is checked. -/
def Exprs.readStored (polish : Text) :
    Option (Exprs BooleanOperator (AtomicLocationRuleExpr R)) := do
  let ts ← TokenStream.new polish
  let read ← polishLocationRuleExprs R ts
  read.toOption

theorem deserialize_ok_iff (polish : Text) (exprs : Exprs BooleanOperator _) :
    Exprs.deserialize R polish = .ok exprs ↔
      Exprs.readStored R polish = some exprs ∧ exprs.validateArity = .ok () := by
  rw [Exprs.deserialize, Exprs.readStored]
  cases TokenStream.new polish with
  | none => simp
  | some ts =>
    simp only [Option.bind_eq_bind, Option.bind_some]
    cases polishLocationRuleExprs R ts with
    | none => simp
    | some read =>
      cases read with
      | error source => simp [Except.toOption]
      | ok read =>
        simp only [Option.bind_some, Except.toOption, Option.some.injEq]
        cases hv : read.validateArity with
        | error source =>
          constructor
          · intro h
            cases h
          · intro h
            rw [h.1, h.2] at hv
            cases hv
        | ok =>
          constructor
          · intro h
            cases h
            exact ⟨rfl, hv⟩
          · intro h
            rw [h.1]

/-- The check of stored rules is exact on the sequences that do not close early. -/
theorem stored_check_exact_iff (exprs : Exprs BooleanOperator Expr) :
    ((exprs.validateArity = .ok () ↔ PrefixExpr exprs.parts) ↔ ¬ClosesEarly exprs.parts) ∧
      ∀ polish stored, Exprs.readStored R polish = some stored →
        ((Exprs.deserialize R polish = .ok stored ↔ PrefixExpr stored.parts) ↔
          ¬ClosesEarly stored.parts) := by
  constructor
  · exact validateArity_iff_prefixExpr exprs
  · intro polish stored hread
    have hstored : Exprs.deserialize R polish = .ok stored ↔ stored.validateArity = .ok () := by
      rw [deserialize_ok_iff]
      exact and_iff_right hread
    rw [hstored]
    exact validateArity_iff_prefixExpr stored

theorem stored_check_exact_iff_sample :
    ∃ exprs : Exprs BooleanOperator (AtomicLocationRuleExpr literalLib),
      exprs.parts = [.operator .and, .expr .any, .operator .not, .expr .any] ∧
        ¬ClosesEarly exprs.parts ∧
        (Exprs.deserialize literalLib (text "AND *? NOT *?") = .ok exprs ↔
          PrefixExpr exprs.parts) := by
  let exprs : Exprs BooleanOperator (AtomicLocationRuleExpr literalLib) :=
    ⟨[.operator .and, .expr .any, .operator .not, .expr .any]⟩
  have hexpr : PrefixExpr exprs.parts := .and (.atom _) (.not (.atom _))
  have hexact := stored_check_exact_iff literalLib exprs
  have hearly := hexact.1.mp ⟨fun _ => hexpr, validateArity_prefixExpr exprs⟩
  exact ⟨exprs, rfl, hearly, (hexact.2 (text "AND *? NOT *?") exprs rfl).mpr hearly⟩

/-- A rule in infix order passes the check, also as a stored text. -/
theorem stored_check_infix :
    (¬∀ exprs : Exprs BooleanOperator (AtomicLocationRuleExpr literalLib),
      exprs.validateArity = .ok () ↔ PrefixExpr exprs.parts) ∧
    ¬∀ polish stored, Exprs.deserialize literalLib polish = .ok stored →
      PrefixExpr stored.parts := by
  constructor
  · intro h
    have hexpr := (h ⟨[.expr .any, .operator .and, .expr .any]⟩).mp rfl
    cases hexpr
  · intro h
    have hread : Exprs.readStored literalLib (text "*? AND *?") =
        some ⟨[.expr .any, .operator .and, .expr .any]⟩ := by rfl
    have hexpr := h _ _ ((deserialize_ok_iff _ _ _).mpr ⟨hread, rfl⟩)
    cases hexpr

end

end Dhttp.Access
