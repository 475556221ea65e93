import Dhttp.Access.RuleRemoval
import Dhttp.Access.RuleStoreRuns

namespace Dhttp.Access
open Dhttp.Lib
set_option autoImplicit true

section Types

variable (R : RegexLib)

structure PolicyRule where
  id : Int
  action : RequestAction
  exprs : StoredExprs R

/-- What the tables are for: the locations in the order of their creation, and the rules of each
location, the one consulted first in front. -/
@[ext]
structure Policy where
  locations : List (PatternWithTime R)
  rules : StoredPattern R → List (PolicyRule R)
  nextLocation : Int
  nextRule : Int

end Types

variable {R : RegexLib}

/-- What makes two rules of a location the same rule. -/
def PolicyRule.repeats (action : RequestAction) (expr : StoredExprs R) (r : PolicyRule R) : Bool :=
  decide (r.action = action ∧ r.exprs.polishText = expr.polishText)

namespace Policy

def empty : Policy R := ⟨[], fun _ => [], 1, 1⟩

def Has (p : Policy R) (location : StoredPattern R) : Prop :=
  ∃ l ∈ p.locations, l.pattern = location

instance (p : Policy R) (location : StoredPattern R) : Decidable (p.Has location) :=
  inferInstanceAs (Decidable (∃ l ∈ p.locations, l.pattern = location))

def setRules (p : Policy R) (location : StoredPattern R) (rules : List (PolicyRule R)) :
    Policy R :=
  { p with rules := Function.update p.rules location rules }

def create (now : DateTimeUtc) (location : StoredPattern R) (p : Policy R) : Option (Policy R) :=
  if p.Has location then some p
  else if maxId < p.nextLocation then none
  else some { p with
    locations := p.locations ++ [⟨timestampMicros now, location⟩]
    nextLocation := p.nextLocation + 1 }

/-- A rule that is there comes to the front as it is, another is put in front. -/
def promote (location : StoredPattern R) (action : RequestAction) (expr : StoredExprs R)
    (p : Policy R) : Option (PolicyRule R × Policy R) :=
  match (p.rules location).find? (PolicyRule.repeats action expr) with
  | some r =>
    some (r, p.setRules location
      (r :: (p.rules location).filter fun r => !r.repeats action expr))
  | none =>
    if maxId < p.nextRule then none
    else
      some (⟨p.nextRule, action, expr⟩,
        { p.setRules location (⟨p.nextRule, action, expr⟩ :: p.rules location) with
          nextRule := p.nextRule + 1 })

def append (clock : Clock) (location : StoredPattern R) (action : RequestAction)
    (expr : StoredExprs R) (p : Policy R) : Option (PolicyRule R × Policy R) :=
  (p.create clock.location location).bind (promote location action expr)

/-- A rule changes in its place, unless another rule is the same already. -/
def replace (location : StoredPattern R) (id : Int) (action : RequestAction)
    (expr : StoredExprs R) (p : Policy R) : Option (PolicyRule R × Policy R) :=
  if (∃ r ∈ p.rules location, r.id = id) ∧
      ∀ r ∈ p.rules location, r.repeats action expr = true → r.id = id then
    some (⟨id, action, expr⟩, p.setRules location ((p.rules location).map fun r =>
      if r.id = id then ⟨id, action, expr⟩ else r))
  else none

/-- Positions count from the rule consulted last. -/
def removeAt (location : StoredPattern R) (sequence : List Nat) (p : Policy R) :
    Option (Policy R) :=
  if p.Has location ∧ ∀ seq ∈ sequence, seq < (p.rules location).length then
    some (p.setRules location (withoutPositions sequence (p.rules location).reverse).reverse)
  else none

def removeIds (location : StoredPattern R) (ids : List Int) (p : Policy R) : Option (Policy R) :=
  if p.Has location ∧ ∀ id ∈ ids, ∃ r ∈ p.rules location, r.id = id then
    some (p.setRules location ((p.rules location).filter fun r => decide (r.id ∉ ids)))
  else none

def removeLocation (location : StoredPattern R) (p : Policy R) : Option (Policy R) :=
  if p.Has location then
    some { p.setRules location [] with
      locations := p.locations.filter fun l => decide (l.pattern ≠ location) }
  else none

/-- What a call is meant to do; nothing if it is refused. -/
def apply (clock : Clock) (p : Policy R) : Call R → Option (Option (PolicyRule R) × Policy R)
  | .appendRule location action expr =>
    (p.append clock location action expr).map fun q => (none, q.2)
  | .appendRuleWithId location action expr =>
    (p.append clock location action expr).map fun q => (some q.1, q.2)
  | .replaceRuleById location id action expr =>
    (p.replace location id action expr).map fun q => (some q.1, q.2)
  | .removeRules location sequence => (p.removeAt location sequence).map fun q => (none, q)
  | .removeRulesByIds location ids => (p.removeIds location ids).map fun q => (none, q)
  | .removeRuleSet location => (p.removeLocation location).map fun q => (none, q)

def run (calls : List (Clock × Call R)) (p : Policy R) : Policy R :=
  calls.foldl (fun p c => ((p.apply c.1 c.2).map Prod.snd).getD p) p

theorem run_append (calls : List (Clock × Call R)) (c : Clock × Call R) (p : Policy R) :
    run (calls ++ [c]) p = (((run calls p).apply c.1 c.2).map Prod.snd).getD (run calls p) := by
  rw [run, List.foldl_append]
  rfl

/-- Of the locations that match, the first by kind, then by age, then in the order of creation. -/
def select (p : Policy R) (path : Bytes) : Option (StoredPattern R) :=
  ((sortBy PatternWithTime.cmp p.locations).find? (·.pattern.isMatch path)).map
    PatternWithTime.pattern

def decide (p : Policy R) (path : Bytes) (request : LocationRuleRequest R) :
    LocationRuleResult R :=
  match p.select path with
  | none => .error (.noRuleSet path)
  | some location =>
    match (p.rules location).findSome? fun r =>
        (Rule.mk r.exprs.polish r.action).eval request with
    | some action => .ok ⟨location, action⟩
    | none => .error (.noRuleInSet location)

end Policy

def RuleModel.policyRule (r : RuleModel R) : PolicyRule R := ⟨r.id, r.action, r.exprs⟩

/-- The policy that the tables hold. -/
def Store.policy (store : Store R) : Policy R where
  locations := store.locations.map LocationModel.patternWithTime
  rules location := (store.rulesAt location).map RuleModel.policyRule
  nextLocation := store.nextLocation
  nextRule := store.nextRule

section Abstraction

variable {store : Store R}

theorem Store.empty_policy : (Store.empty : Store R).policy = Policy.empty := rfl

theorem findLocation_isSome_iff :
    (∃ l, store.findLocation location = some l) ↔ store.policy.Has location := by
  constructor
  · intro h
    obtain ⟨l, hf⟩ := h
    obtain ⟨hl, hp⟩ := findLocation_some hf
    exact ⟨l.patternWithTime, List.mem_map_of_mem hl, hp⟩
  · intro h
    obtain ⟨t, ht, hp⟩ := h
    obtain ⟨l, hl, rfl⟩ := List.mem_map.1 ht
    cases hf : store.findLocation location with
    | some l' => exact ⟨l', rfl⟩
    | none => exact absurd hp (findLocation_none hf l hl)

theorem not_has_of_findLocation (h : store.findLocation location = none) :
    ¬ store.policy.Has location := by
  intro hh
  obtain ⟨l, hf⟩ := findLocation_isSome_iff.2 hh
  rw [h] at hf
  cases hf

theorem policy_rules (hf : store.findLocation location = some l) :
    store.policy.rules location =
      (orderedRules store.rules l.id).reverse.map RuleModel.policyRule :=
  congrArg _ (rulesAt_some hf)

theorem policy_rules_none (hf : store.findLocation location = none) :
    store.policy.rules location = [] := by
  change (store.rulesAt location).map _ = []
  rw [Store.rulesAt, hf]
  rfl

/-- A rule of the policy is a row of its location. -/
theorem mem_policy_rules (hf : store.findLocation location = some l) :
    r ∈ store.policy.rules location ↔
      ∃ row ∈ store.rules, row.locationId = l.id ∧ row.policyRule = r := by
  rw [policy_rules hf, List.mem_map]
  constructor
  · intro h
    obtain ⟨row, hr, he⟩ := h
    rw [List.mem_reverse, mem_orderedRules] at hr
    exact ⟨row, hr.1, hr.2, he⟩
  · intro h
    obtain ⟨row, hr, hl, he⟩ := h
    exact ⟨row, List.mem_reverse.2 (mem_orderedRules.2 ⟨hr, hl⟩), he⟩

theorem repeats_policyRule (r : RuleModel R) :
    r.policyRule.repeats action expr = sameRule action expr r := rfl

/-- A change of the rules at one location. -/
theorem policy_written {after : Store R} (hl : after.locations = store.locations)
    (hn : after.nextLocation = store.nextLocation)
    (hat : (after.rulesAt location).map RuleModel.policyRule = rules)
    (helse : ∀ p, p ≠ location → after.rulesAt p = store.rulesAt p) :
    after.policy =
      { store.policy.setRules location rules with nextRule := after.nextRule } := by
  apply Policy.ext
  · change after.locations.map _ = store.locations.map _
    rw [hl]
  · funext p
    change (after.rulesAt p).map _ = Function.update store.policy.rules location rules p
    by_cases hp : p = location
    · rw [hp, Function.update_self, hat]
    · rw [Function.update_of_ne hp, helse p hp]
      rfl
  · exact hn
  · rfl

/-- The tables decide as the policy they hold. -/
theorem evaluate_policy (h : store.Schema) (path : Bytes) (request : LocationRuleRequest R) :
    LocationRulesDatabase.evaluate store path request = store.policy.decide path request := by
  have hk : ((store.locations.map fun l => (l.patternWithTime, l.id)).map Prod.fst).Nodup := by
    have hn := keys_nodup h.patterns
    rwa [List.map_map] at hn ⊢
  have hsel : store.policy.select path =
      (LocationRulesDatabase.selectLocation store.locations path).map Prod.fst := by
    have hsort : sortBy PatternWithTime.cmp store.policy.locations =
        (LocationRulesDatabase.orderedLocations store.locations).map Prod.fst := by
      rw [LocationRulesDatabase.orderedLocations, collect_of_nodup hk]
      let entries := store.locations.map fun l => (l.patternWithTime, l.id)
      have hm : sortBy PatternWithTime.cmp (entries.map Prod.fst) =
          (sortBy (fun x y => x.1.cmp y.1) entries).map Prod.fst :=
        sortBy_map fun _ _ _ _ => rfl
      rw [← hm, List.map_map]
      rfl
    rw [Policy.select, hsort, List.find?_map, LocationRulesDatabase.selectLocation,
      Option.map_map, Option.map_map]
    rfl
  rw [Policy.decide, hsel]
  cases hs : LocationRulesDatabase.selectLocation store.locations path with
  | none => rw [LocationRulesDatabase.evaluate, hs]; rfl
  | some p =>
    obtain ⟨location, locationId⟩ := p
    have hr : store.policy.rules location =
        (store.rulesAt location).map RuleModel.policyRule := rfl
    simp only [Option.map_some, evaluate_rulesAt h hs, hr, List.findSome?_map]
    rfl

end Abstraction

end Dhttp.Access
