import Dhttp.Lib.FirstCopies
import Dhttp.Access.UniqueMigration

namespace Dhttp.Access
open Dhttp.Lib
set_option autoImplicit true

variable {R : RegexLib}

theorem sameLogicalRule_eq (r r' : RuleModel R) :
    sameLogicalRule r r' = decide (r.decisive = r'.decisive) := by
  rw [Bool.eq_iff_iff, sameLogicalRule_iff, decide_eq_true_iff, RuleModel.decisive,
    RuleModel.decisive, Prod.mk.injEq]

/-- Of logically equal rules the first is kept. -/
theorem deduplicateRules_eq (rules : List (RuleModel R)) :
    deduplicateRules rules = firstCopies RuleModel.decisive rules := by
  rw [deduplicateRules, firstCopies]
  simp only [sameLogicalRule_eq]

/-- What a rule makes of a request. -/
def RuleModel.decide (request : LocationRuleRequest R) (r : RuleModel R) : Option RequestAction :=
  (Rule.mk r.exprs.polish r.action).eval request

theorem RuleModel.decide_congr (request : LocationRuleRequest R) (r r' : RuleModel R)
    (h : r.decisive = r'.decisive) : r.decide request = r'.decide request := by
  rw [decisive, decisive, Prod.mk.injEq] at h
  rw [decide, decide, StoredExprs.polish_eq_iff.2 h.2, h.1]

/-- An earlier rule has the action and the polish of `r`. -/
def Duplicate (earlier : List (RuleModel R)) (r : RuleModel R) : Prop :=
  ∃ r' ∈ earlier, sameLogicalRule r' r = true

/-- The last rule to decide is a duplicate, and behind the last rule to decide that is none, only
duplicates decide, the last of them the other way. -/
def Outvoted (request : LocationRuleRequest R) (rules : List (RuleModel R)) : Prop :=
  ∃ before s between r after, rules = before ++ s :: (between ++ r :: after) ∧
    ¬Duplicate before s ∧
    (∀ front x back, between ++ r :: after = front ++ x :: back → x.decide request ≠ none →
      Duplicate (before ++ [s] ++ front) x) ∧
    s.decide request ≠ none ∧ r.decide request ≠ none ∧ s.decide request ≠ r.decide request ∧
    ∀ x ∈ after, x.decide request = none

theorem duplicate_iff (earlier : List (RuleModel R)) (r : RuleModel R) :
    Duplicate earlier r ↔ Repeats RuleModel.decisive earlier r := by
  simp only [Duplicate, Repeats, sameLogicalRule_eq, decide_eq_true_iff]

theorem outvoted_iff (request : LocationRuleRequest R) (rules : List (RuleModel R)) :
    Outvoted request rules ↔ Overruled RuleModel.decisive (RuleModel.decide request) rules := by
  simp only [Outvoted, Overruled, OnlyRepeats, duplicate_iff]

theorem decideIn_eq_iff (location : StoredPattern R) (request : LocationRuleRequest R)
    (rules rules' : List (RuleModel R)) :
    LocationRulesDatabase.decideIn location request rules =
        LocationRulesDatabase.decideIn location request rules' ↔
      rules.reverse.findSome? (RuleModel.decide request) =
        rules'.reverse.findSome? (RuleModel.decide request) := by
  have hscan (rules : List (RuleModel R)) : (rules.reverse.findSome? fun r =>
      (Rule.mk r.exprs.polish r.action).eval request) =
        rules.reverse.findSome? (RuleModel.decide request) := rfl
  rw [LocationRulesDatabase.decideIn, LocationRulesDatabase.decideIn, hscan, hscan]
  cases rules.reverse.findSome? (RuleModel.decide request) with
  | none => cases rules'.reverse.findSome? (RuleModel.decide request) <;> simp
  | some action => cases rules'.reverse.findSome? (RuleModel.decide request) <;> simp

/-- One rule of each kind is kept, in order, and the decision changes where a kept rule is
outvoted by duplicates behind it. -/
theorem deduplicateRules_decides_iff (rules : List (RuleModel R)) (location : StoredPattern R)
    (request : LocationRuleRequest R) :
    (deduplicateRules rules).Pairwise (fun r r' => sameLogicalRule r r' = false) ∧
      (∀ r ∈ rules, ∃ r' ∈ deduplicateRules rules, sameLogicalRule r' r = true) ∧
      (deduplicateRules rules).Sublist rules ∧
      (LocationRulesDatabase.decideIn location request (deduplicateRules rules) =
        LocationRulesDatabase.decideIn location request rules ↔ ¬Outvoted request rules) := by
  rw [deduplicateRules_eq]
  refine ⟨?_, ?_, firstCopies_sublist _ _, ?_⟩
  · apply (List.pairwise_map.mp (firstCopies_nodup RuleModel.decisive rules)).imp
    intro r r' hne
    rw [sameLogicalRule_eq]
    exact decide_eq_false hne
  · intro r hr
    obtain ⟨r', hr', hk⟩ := exists_firstCopy RuleModel.decisive hr
    exact ⟨r', hr', by rw [sameLogicalRule_eq]; exact decide_eq_true hk⟩
  · rw [decideIn_eq_iff, outvoted_iff]
    exact findSome?_firstCopies_iff RuleModel.decisive (RuleModel.decide_congr request) rules

/-- A rule, the opposite one, and the first again. -/
def repeatedRules : List (RuleModel literalLib) := orderedRules duplicateStore.rules 1

theorem repeatedRules_outvoted : Outvoted (fun _ => .ok true) repeatedRules := by
  by_contra h
  have hdecides := (deduplicateRules_decides_iff repeatedRules locationA fun _ => .ok true).2.2.2
  cases hdecides.mpr h

/-- The newest rule of a list in storage order is forgotten when an older one equals it. -/
theorem deduplicateRules_repeated : ¬∀ (rules : List (RuleModel literalLib))
    (location : StoredPattern literalLib) (request : LocationRuleRequest literalLib),
    rules.Pairwise (fun r r' => (r.cmp r').isLE = true) →
      LocationRulesDatabase.decideIn location request (deduplicateRules rules) =
        LocationRulesDatabase.decideIn location request rules := by
  intro h
  have hd := h repeatedRules locationA (fun _ => .ok true) (sortBy_pairwise _)
  cases hd

end Dhttp.Access
