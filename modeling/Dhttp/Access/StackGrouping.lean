import Dhttp.Access.StackRuns

namespace Dhttp.Access
open Dhttp.Lib VM
set_option autoImplicit true

/-- The recursive meaning of an expression over evaluated atoms. -/
def meaning : OpTree Junction (Except E Bool) → Except E Bool
  | .leaf v => v
  | .neg t => (meaning t).map (!·)
  | .node .and l r =>
    match meaning l with
    | .error e => .error e
    | .ok false => .ok false
    | .ok true => meaning r
  | .node .or l r =>
    match meaning l with
    | .error e => .error e
    | .ok true => .ok true
    | .ok false => meaning r

/-- The boolean that leaves the outcome of a connective to its other operand. -/
def Junction.unit : Junction → Bool
  | .and => true
  | .or => false

/-- An operand that is a chain of `j`s over literals, each inner `j` under an even number of
negations; `k` counts the negations above the operand. -/
def Joined (j : Junction) (k : Nat) : OpTree Junction α → Prop
  | .leaf _ => True
  | .neg t => Joined j (k + 1) t
  | .node q l r => k % 2 = 0 ∧ q = j ∧ Joined j 0 l ∧ Joined j 0 r

/-- The expressions in which every right operand is joined to the operator above it. -/
def Grouped : OpTree Junction α → Prop
  | .leaf _ => True
  | .neg t => Grouped t
  | .node j l r => Grouped l ∧ Joined j 0 r

def decideJoined (j : Junction) : (k : Nat) → (t : OpTree Junction α) → Decidable (Joined j k t)
  | _, .leaf _ => .isTrue trivial
  | k, .neg t => decideJoined j (k + 1) t
  | k, .node q l r =>
    have := decideJoined j 0 l
    have := decideJoined j 0 r
    inferInstanceAs (Decidable (k % 2 = 0 ∧ q = j ∧ Joined j 0 l ∧ Joined j 0 r))

instance (j : Junction) (k : Nat) (t : OpTree Junction α) : Decidable (Joined j k t) :=
  decideJoined j k t

def decideGrouped : (t : OpTree Junction α) → Decidable (Grouped t)
  | .leaf _ => .isTrue trivial
  | .neg t => decideGrouped t
  | .node j l r =>
    have := decideGrouped l
    inferInstanceAs (Decidable (Grouped l ∧ Joined j 0 r))

instance (t : OpTree Junction α) : Decidable (Grouped t) := decideGrouped t

theorem joined_map (f : α → γ) (j : Junction) (k : Nat) (t : OpTree Junction α) :
    Joined j k (t.map f) ↔ Joined j k t := by
  induction t generalizing j k with
  | leaf => rfl
  | neg t ih => exact ih j (k + 1)
  | node q l r ihl ihr => simp only [OpTree.map, Joined, ihl, ihr]

theorem grouped_map (f : α → γ) (t : OpTree Junction α) : Grouped (t.map f) ↔ Grouped t := by
  induction t with
  | leaf => rfl
  | neg t ih => exact ih
  | node j l r ihl ihr => simp only [OpTree.map, Grouped, ihl, joined_map]

/-- Negation of an outcome passes errors through. -/
def negate (v : Except E Bool) : Except E Bool := v.map (!·)

@[simp] theorem negate_ok (b : Bool) : negate (.ok b : Except E Bool) = .ok !b := rfl

@[simp] theorem negate_error (e : E) : negate (.error e) = .error e := rfl

@[simp] theorem negate_negate (v : Except E Bool) : negate (negate v) = v := by
  rcases v with e | _ | _ <;> rfl

theorem negate_iterate (k : Nat) (v : Except E Bool) :
    negate^[k] v = if k % 2 = 0 then v else negate v := by
  induction k with
  | zero => rfl
  | succ k ih =>
    rw [Function.iterate_succ_apply', ih]
    rcases Nat.mod_two_eq_zero_or_one k with h | h <;> simp [Nat.add_mod, h]

theorem negate_iterate_self (k : Nat) (v : Except E Bool) : negate^[k] (negate^[k] v) = v := by
  rw [negate_iterate, negate_iterate]
  split <;> simp

theorem negate_iterate_ok (k : Nat) (b : Bool) :
    ∃ c, negate^[k] (.ok b : Except E Bool) = .ok c := by
  rw [negate_iterate]
  split
  · exact ⟨b, rfl⟩
  · exact ⟨!b, rfl⟩

theorem negate_iterate_error (k : Nat) (e : E) : negate^[k] (.error e) = .error e := by
  rw [negate_iterate, negate_error, ite_self]

theorem Junction.decides_unit (j : Junction) : j.decides (.ok j.unit : Except E Bool) = false := by
  cases j <;> rfl

theorem Junction.eq_unit {j : Junction} {v : Except E Bool} (h : j.decides v = false) :
    v = .ok j.unit := by
  rcases v with e | _ | _ <;> cases j <;> first | rfl | cases h

theorem Junction.join_unit (j : Junction) (v : Except E Bool) : j.join (.ok j.unit) v = v := by
  rcases v with e | _ | _ <;> cases j <;> rfl

theorem meaning_neg (t : OpTree Junction (Except E Bool)) : meaning t.neg = negate (meaning t) := rfl

theorem meaning_node (j : Junction) (l r : OpTree Junction (Except E Bool)) :
    meaning (.node j l r) = if j.decides (meaning l) then meaning l else meaning r := by
  cases j <;> simp only [meaning] <;> rcases meaning l with e | _ | _ <;> rfl

theorem heldValue_node (j q : Junction) (acc : Except E Bool) (k : Nat)
    (l r : OpTree Junction (Except E Bool)) :
    heldValue j acc k (.node q l r) =
      if j.decides (negate^[k] (heldValue q acc 0 l)) then negate^[k] (heldValue q acc 0 l)
      else heldValue j (negate^[k] (heldValue q acc 0 l)) 0 r := rfl

theorem machineValue_node (j : Junction) (l r : OpTree Junction (Except E Bool)) :
    machineValue (.node j l r) =
      if j.decides (machineValue l) then machineValue l else heldValue j (machineValue l) 0 r := rfl

/-- A joined operand keeps its meaning although its first value meets the waiting one. -/
theorem Joined.heldValue {t : OpTree Junction (Except E Bool)} (h : Joined j k t) :
    heldValue j (.ok j.unit) k t = negate^[k] (meaning t) := by
  induction t generalizing j k with
  | leaf v => exact j.join_unit _
  | neg t ih => exact (ih h).trans (Function.iterate_succ_apply negate k (meaning t))
  | node q l r ihl ihr =>
    obtain ⟨hk, rfl, hl, hr⟩ := h
    rw [heldValue_node, meaning_node, ihl hl, Function.iterate_zero_apply, negate_iterate,
      if_pos hk, negate_iterate, if_pos hk]
    cases hd : q.decides (meaning l) with
    | true => rfl
    | false =>
      rw [Junction.eq_unit hd, ihr hr]
      rfl

theorem Grouped.machineValue {t : OpTree Junction (Except E Bool)} (h : Grouped t) :
    machineValue t = meaning t := by
  induction t with
  | leaf => rfl
  | neg t ih => exact congrArg negate (ih h)
  | node j l r ihl ihr =>
    rw [machineValue_node, meaning_node, ihl h.1]
    cases hd : j.decides (meaning l) with
    | true => rfl
    | false =>
      rw [Junction.eq_unit hd, h.2.heldValue]
      rfl

/-- Every outcome without errors is the meaning of some labelling without errors. -/
theorem exists_meaning (E : Type) (s : OpTree Junction Unit) (b : Bool) :
    ∃ u : OpTree Junction Bool, u.shape = s ∧ meaning (u.map (Except.ok (ε := E))) = .ok b := by
  induction s generalizing b with
  | leaf => exact ⟨.leaf b, rfl, rfl⟩
  | neg s ih =>
    obtain ⟨u, rfl, hu⟩ := ih !b
    refine ⟨u.neg, rfl, ?_⟩
    rw [OpTree.map, meaning_neg, hu, negate_ok, Bool.not_not]
  | node j l r ihl ihr =>
    obtain ⟨u, rfl, hu⟩ := ihl j.unit
    obtain ⟨w, rfl, hw⟩ := ihr b
    refine ⟨.node j u w, rfl, ?_⟩
    rw [OpTree.map, meaning_node, hu, Junction.decides_unit]
    exact hw

theorem heldValue_ok (E : Type) (j : Junction) (a : Bool) (k : Nat) (u : OpTree Junction Bool) :
    ∃ b, heldValue j (.ok a : Except E Bool) k (u.map .ok) = .ok b := by
  induction u generalizing j a k with
  | leaf b =>
    obtain ⟨c, hc⟩ := negate_iterate_ok (E := E) k b
    change ∃ d, j.join (.ok a) (negate^[k] (.ok b)) = .ok d
    rw [hc]
    cases j <;> exact ⟨_, rfl⟩
  | neg u ih => exact ih j a (k + 1)
  | node q l r ihl ihr =>
    obtain ⟨b, hb⟩ := ihl q a 0
    obtain ⟨c, hc⟩ := negate_iterate_ok (E := E) k b
    rw [OpTree.map, heldValue_node, hb, hc]
    split
    · exact ⟨c, rfl⟩
    · exact ihr j c 0

theorem heldValue_error {E : Type} (e : E) (j : Junction) (a : Bool) (k : Nat)
    (s : OpTree Junction Unit) :
    heldValue j (.ok a : Except E Bool) k (s.map fun _ => .error e) = .error e := by
  induction s generalizing j a k with
  | leaf =>
    change j.join (.ok a) (negate^[k] (.error e)) = _
    rw [negate_iterate_error]
    cases j <;> rfl
  | neg s ih => exact ih j a (k + 1)
  | node q l r ihl ihr =>
    rw [OpTree.map, heldValue_node, ihl, negate_iterate_error]
    rfl

/-- Where the machine and the meaning agree over every right operand, they agree on what has
been decided before it, and an undecided machine still agrees on the right operand. -/
theorem branch_agree [Inhabited E] {j q : Junction} {m : Nat} {w v : Except E Bool}
    {r : OpTree Junction Unit}
    (h : ∀ t : OpTree Junction (Except E Bool), t.shape = r →
      (if j.decides w then w else heldValue j w 0 t) =
        negate^[m] (if q.decides v then v else meaning t)) :
    (q.decides v = true → j.decides w = true ∧ w = negate^[m] v) ∧
      (q.decides v = false → w = .ok j.unit ∧ ∀ t : OpTree Junction (Except E Bool),
        t.shape = r → heldValue j (.ok j.unit) 0 t = negate^[m] (meaning t)) := by
  obtain ⟨u, hu, hut⟩ := exists_meaning E r true
  obtain ⟨u', hu', huf⟩ := exists_meaning E r false
  have ht := h (u.map .ok) ((OpTree.shape_map _ _).trans hu)
  have hf := h (u'.map .ok) ((OpTree.shape_map _ _).trans hu')
  have he := h (r.map fun _ => .error default) (OpTree.shape_fill r _)
  constructor
  · intro hv
    rw [hv, if_pos rfl] at ht he
    cases hw : j.decides w with
    | true =>
      rw [hw, if_pos rfl] at ht
      exact ⟨rfl, ht⟩
    | false =>
      -- an undecided machine goes on to read the operand that the meaning ignores
      rw [Junction.eq_unit hw, j.decides_unit, if_neg Bool.false_ne_true] at ht he
      rw [heldValue_error] at he
      obtain ⟨b, hb⟩ := heldValue_ok E j j.unit 0 u
      rw [hb, ← he] at ht
      cases ht
  · intro hv
    rw [hv, if_neg Bool.false_ne_true] at ht hf
    cases hw : j.decides w with
    | true =>
      rw [hw, if_pos rfl] at ht hf
      rw [hut] at ht
      rw [huf] at hf
      have hn := congrArg (negate^[m]) (ht.symm.trans hf)
      rw [negate_iterate_self, negate_iterate_self] at hn
      cases hn
    | false =>
      refine ⟨Junction.eq_unit hw, fun t hs => ?_⟩
      have hn := h t hs
      rwa [hv, hw, if_neg Bool.false_ne_true, if_neg Bool.false_ne_true, Junction.eq_unit hw] at hn

theorem Junction.decides_not_unit (j : Junction) :
    j.decides (.ok !j.unit : Except E Bool) = true := by
  cases j <;> rfl

/-- Agreement over all labellings forces the shape of a right operand. -/
theorem joined_of_agree [Inhabited E] {j : Junction} {a : Bool} {k m : Nat}
    {s : OpTree Junction Unit}
    (h : ∀ t : OpTree Junction (Except E Bool), t.shape = s →
      heldValue j (.ok a) k t = negate^[m] (meaning t)) :
    a = j.unit ∧ m % 2 = k % 2 ∧ Joined j k s := by
  induction s generalizing j a k m with
  | leaf =>
    have hb (b : Bool) : j.join (.ok a) (negate^[k] (.ok b)) = negate^[m] (.ok b : Except E Bool) :=
      h (.leaf (.ok b)) rfl
    have ht := hb true
    have hf := hb false
    rcases Nat.mod_two_eq_zero_or_one k with hk | hk <;>
      rcases Nat.mod_two_eq_zero_or_one m with hm | hm <;>
      simp only [negate_iterate, hk, hm, if_true, Nat.one_ne_zero, if_false, negate_ok] at ht hf <;>
      cases j <;> cases a <;>
      first | exact ⟨rfl, hm.trans hk.symm, trivial⟩ | (cases ht; done) | cases hf
  | neg s ih =>
    obtain ⟨ha, hm, hs⟩ := ih (k := k + 1) (m := m + 1) fun t ht =>
      (h t.neg (congrArg OpTree.neg ht)).trans (Function.iterate_succ_apply negate m _).symm
    exact ⟨ha, by omega, hs⟩
  | node q l r ihl ihr =>
    have hb (t : OpTree Junction (Except E Bool)) (ht : t.shape = l) := branch_agree (r := r)
      fun t' ht' => (meaning_node q t t' ▸ h (.node q t t') (by rw [OpTree.shape_node, ht, ht']))
    obtain ⟨u, hu, hut⟩ := exists_meaning E l !q.unit
    obtain ⟨u', hu', hut'⟩ := exists_meaning E l q.unit
    -- the deciding value of `q` decides `j` after the negations of the meaning
    obtain ⟨hd, he⟩ := (hb _ ((OpTree.shape_map _ _).trans hu)).1 (hut ▸ q.decides_not_unit)
    obtain ⟨hw, hr⟩ := (hb _ ((OpTree.shape_map _ _).trans hu')).2 (hut' ▸ q.decides_unit)
    obtain ⟨-, hm, hjr⟩ := ihr hr
    rw [he, hut, negate_iterate, if_pos hm] at hd
    have hq : q = j := by cases q <;> cases j <;> first | rfl | cases hd
    subst q
    have hl (t : OpTree Junction (Except E Bool)) (ht : t.shape = l) :
        negate^[k] (heldValue j (.ok a) 0 t) = meaning t := by
      cases hv : j.decides (meaning t) with
      | true =>
        have hw := ((hb t ht).1 hv).2
        rwa [negate_iterate m, if_pos hm] at hw
      | false => exact ((hb t ht).2 hv).1.trans (Junction.eq_unit hv).symm
    obtain ⟨ha, hk, hjl⟩ := ihl (m := k) fun t ht => by
      rw [← hl t ht, negate_iterate_self]
    exact ⟨ha, hm.trans hk.symm, hk, rfl, hjl, hjr⟩

theorem grouped_of_agree [Inhabited E] {s : OpTree Junction Unit}
    (h : ∀ t : OpTree Junction (Except E Bool), t.shape = s → machineValue t = meaning t) :
    Grouped s := by
  induction s with
  | leaf => trivial
  | neg s ih =>
    refine ih fun t ht => ?_
    have hn := congrArg negate (h t.neg (congrArg OpTree.neg ht))
    exact (negate_negate _).symm.trans (hn.trans (negate_negate _))
  | node j l r ihl ihr =>
    have hb (t : OpTree Junction (Except E Bool)) (ht : t.shape = l) := branch_agree (m := 0) (r := r)
      fun t' ht' => (meaning_node j t t' ▸ h (.node j t t') (by rw [OpTree.shape_node, ht, ht']))
    obtain ⟨u, hu, hut⟩ := exists_meaning E l j.unit
    obtain ⟨-, hr⟩ := (hb _ ((OpTree.shape_map _ _).trans hu)).2 (hut ▸ j.decides_unit)
    refine ⟨ihl fun t ht => ?_, (joined_of_agree hr).2.2⟩
    cases hv : j.decides (meaning t) with
    | true => exact ((hb t ht).1 hv).2
    | false => exact ((hb t ht).2 hv).1.trans (Junction.eq_unit hv).symm

/-- Every labelling of the expression runs to its recursive meaning. -/
def RunsToMeaning (E : Type) (s : OpTree Junction Unit) : Prop :=
  ∀ t : OpTree Junction (Except E Bool), t.shape = s → tryRun (listing t) = .ok (meaning t)

def EvaluatesToMeaning (E : Type) (s : OpTree Junction Unit) : Prop :=
  ∀ (α : Type) (t : OpTree Junction α) (eval : α → Except E Bool), t.shape = s →
    Exprs.tryEval ⟨listing t⟩ eval = .ok (meaning (t.map eval))

/-- The outcome of a rule from the meaning of its expression. -/
def ruleOutcome {Action : Type} [EvalRuleError E Action] (action : Action) :
    Except E Bool → Option Action
  | .ok matched => if matched then some action else none
  | .error e => EvalRuleError.fallback e action

theorem Rule.eval_listing {Action : Type} [EvalRuleError E Action] (t : OpTree Junction α)
    (action : Action) (eval : α → Except E Bool) :
    Rule.eval ⟨⟨listing t⟩, action⟩ eval = ruleOutcome action (machineValue (t.map eval)) := by
  rw [Rule.eval, Exprs.tryEval_listing]
  rcases machineValue (t.map eval) with e | _ | _ <;> rfl

/-- The machine computes the recursive meaning of an expression under every assignment to its
atoms exactly when the expression is grouped. -/
theorem runsToMeaning_iff_grouped (E : Type) [Inhabited E] (s : OpTree Junction Unit) :
    (RunsToMeaning E s ↔ Grouped s) ∧ (EvaluatesToMeaning E s ↔ Grouped s) ∧
      (Grouped s → ∀ (α Action : Type) [EvalRuleError E Action] (t : OpTree Junction α)
        (action : Action) (eval : α → Except E Bool), t.shape = s →
        Rule.eval ⟨⟨listing t⟩, action⟩ eval = ruleOutcome action (meaning (t.map eval))) := by
  have hg {α : Type} (t : OpTree Junction α) (eval : α → Except E Bool) (ht : t.shape = s)
      (hs : Grouped s) : machineValue (t.map eval) = meaning (t.map eval) := by
    rw [← ht] at hs
    exact Grouped.machineValue ((grouped_map _ _).2 ((grouped_map _ _).1 hs))
  refine ⟨⟨fun h => grouped_of_agree (E := E) fun t ht => ?_, fun hs t ht => ?_⟩,
    ⟨fun h => grouped_of_agree (E := E) fun t ht => ?_, fun hs α t eval ht => ?_⟩,
    fun hs α Action _ t action eval ht => ?_⟩
  · exact Except.ok.inj ((tryRun_listing t).symm.trans (h t ht))
  · have he := hg t id ht hs
    rw [OpTree.map_id] at he
    rw [tryRun_listing, he]
  · have he := h _ t id ht
    rw [Exprs.tryEval_listing, OpTree.map_id] at he
    exact Except.ok.inj he
  · rw [Exprs.tryEval_listing, hg t eval ht hs]
  · rw [Rule.eval_listing, hg t eval ht hs]

/-- `And a (Or b c)` with `a` and `b` true and `c` false. -/
def orUnderAnd : OpTree Junction (Except EvalError Bool) :=
  .node .and (.leaf (.ok true)) (.node .or (.leaf (.ok true)) (.leaf (.ok false)))

/-- The disjunction consumes the value that the conjunction holds as its first operand. -/
theorem tryRun_orUnderAnd :
    tryRun (listing orUnderAnd) = .ok (.ok false) ∧ meaning orUnderAnd = .ok true ∧
      tryRun (listing orUnderAnd) ≠ .ok (meaning orUnderAnd) :=
  ⟨rfl, rfl, fun h => Bool.false_ne_true (Except.ok.inj (Except.ok.inj h))⟩

end Dhttp.Access
