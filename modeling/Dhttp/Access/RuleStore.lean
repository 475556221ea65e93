import Dhttp.Access.RuleEvaluation

namespace Dhttp.Access
open Dhttp.Lib
set_option autoImplicit true

/-- Failures of the connection itself are left out of the errors. -/
inductive MatchOrCreateLocationError where
  | insertLocation (source : DbErr)
  | locationMissing

inductive AppendRuleError where
  | matchOrCreateLocation (source : MatchOrCreateLocationError)
  | refreshExistingRule (source : DbErr)
  | insertRule (source : DbErr)
  | insertedRuleMissing (id : Int)
  | conflictingRuleMissing

section Errors

variable (R : RegexLib)

inductive LocateLocationFailed where
  | locationNotExist (location : StoredPattern R)

inductive RemoveRuleFailed where
  | ruleNotExist (seq : Nat)
  | ruleSetNotExist (source : LocateLocationFailed R)

inductive RemoveRulesError where
  | rule (source : RemoveRuleFailed R)

inductive RemoveRuleByIdFailed where
  | removeRuleIdNotExist (id : Int)
  | removeRuleSetByIdNotExist (source : LocateLocationFailed R)

inductive RemoveRulesByIdsError where
  | rule (source : RemoveRuleByIdFailed R)

inductive ReplaceRuleByIdFailed where
  | replaceRuleIdNotExist (id : Int)
  | replaceRuleSetByIdNotExist (source : LocateLocationFailed R)

inductive ReplaceRuleByIdError where
  | rule (source : ReplaceRuleByIdFailed R)
  | updateRule (source : DbErr)

inductive RemoveRuleSetError where
  | locationNotExist (source : LocateLocationFailed R)

end Errors

inductive TryInsertResult where
  | inserted (lastInsertId : Int)
  | conflicted
  deriving Repr, DecidableEq

/-- The times a call reads: for a location it creates, for the rule it writes, and for the rule it
finds after a conflict. -/
structure Clock where
  location : DateTimeUtc
  rule : DateTimeUtc
  conflict : DateTimeUtc
  deriving Repr, DecidableEq

/-- The largest id of the models. -/
def maxId : Int := 2147483647

variable {R : RegexLib}

namespace Store

def empty : Store R := ⟨[], [], 1, 1⟩

def findLocation (store : Store R) (location : StoredPattern R) : Option (LocationModel R) :=
  store.locations.find? (·.pattern = location)

def findRule (store : Store R) (id : Int) : Option (RuleModel R) :=
  store.rules.find? (·.id == id)

/-- Inserts run under `ON CONFLICT DO NOTHING`. -/
def tryInsertLocation (store : Store R) (location : StoredPattern R) (now : DateTimeUtc) :
    Except DbErr (TryInsertResult × Store R) :=
  if store.locations.any (·.pattern = location) then .ok (.conflicted, store)
  else if maxId < store.nextLocation then .error .idOverflow
  else .ok (.inserted store.nextLocation, { store with
    locations := store.locations ++ [⟨store.nextLocation, location, now, now⟩]
    nextLocation := store.nextLocation + 1 })

def newRule (store : Store R) (locationId : Int) (action : RequestAction) (expr : StoredExprs R)
    (now : DateTimeUtc) : RuleModel R :=
  ⟨store.nextRule, locationId, action, expr, now, now⟩

def tryInsertRule (store : Store R) (locationId : Int) (action : RequestAction)
    (expr : StoredExprs R) (now : DateTimeUtc) : Except DbErr (TryInsertResult × Store R) :=
  let row := store.newRule locationId action expr now
  if store.rules.any (·.logicalKey = row.logicalKey) then .ok (.conflicted, store)
  else if !store.locations.any (·.id == locationId) then .error .foreignKeyViolation
  else if maxId < store.nextRule then .error .idOverflow
  else .ok (.inserted store.nextRule, { store with
    rules := store.rules ++ [row]
    nextRule := store.nextRule + 1 })

def replaceRow (row : RuleModel R) (r : RuleModel R) : RuleModel R :=
  if r.id = row.id then row else r

/-- The row with the id of `row` takes its columns. -/
def updateRule (store : Store R) (row : RuleModel R) : Except DbErr (RuleModel R × Store R) :=
  if !store.rules.any (·.id == row.id) then .error .recordNotUpdated
  else if store.rules.any fun r => r.id != row.id && decide (r.logicalKey = row.logicalKey) then
    .error .uniqueViolation
  else .ok (row, { store with rules := store.rules.map (replaceRow row) })

def deleteRules (store : Store R) (ids : List Int) : Store R :=
  { store with rules := store.rules.filter (·.id ∉ ids) }

/-- The rules of the location go with it. -/
def deleteLocation (store : Store R) (id : Int) : Store R :=
  { store with
    locations := store.locations.filter (·.id != id)
    rules := store.rules.filter (·.locationId != id) }

end Store

namespace LocationService

/-- `match_location_internal`, strict. -/
def matchLocation (store : Store R) (location : StoredPattern R) :
    Option (Int × StoredPattern R) :=
  (store.findLocation location).map fun l => (l.id, l.pattern)

/-- The location that a call needs. -/
def locate (store : Store R) (location : StoredPattern R) : Except (LocateLocationFailed R) Int :=
  match matchLocation store location with
  | some (id, _) => .ok id
  | none => .error (.locationNotExist location)

def matchOrCreateLocation (now : DateTimeUtc) (location : StoredPattern R) (store : Store R) :
    Except MatchOrCreateLocationError (Int × Store R) :=
  match matchLocation store location with
  | some (id, _) => .ok (id, store)
  | none =>
    match store.tryInsertLocation location now with
    | .error source => .error (.insertLocation source)
    | .ok (.inserted id, store) => .ok (id, store)
    | .ok (.conflicted, store) =>
      match store.findLocation location with
      | some l => .ok (l.id, store)
      | none => .error .locationMissing

/-- The scan for a rule with the same action and polish. -/
def existingRule (store : Store R) (locationId : Int) (action : RequestAction)
    (expr : StoredExprs R) : Option (RuleModel R) :=
  (sortBy RuleModel.cmp (store.rules.filter fun r =>
    r.locationId == locationId && r.action == action)).find? (·.exprs.polish == expr.polish)

def refreshRulePriority (now : DateTimeUtc) (existing : RuleModel R) (store : Store R) :
    Except AppendRuleError (RuleModel R × Store R) :=
  (store.updateRule { existing with createdAt := now, updatedAt := now }).mapError
    .refreshExistingRule

def appendRuleInternal (clock : Clock) (location : StoredPattern R) (action : RequestAction)
    (expr : StoredExprs R) (store : Store R) :
    Except AppendRuleError (RuleModel R × Store R) := do
  let (locationId, store) ← (matchOrCreateLocation clock.location location store).mapError
    .matchOrCreateLocation
  match existingRule store locationId action expr with
  | some existing => refreshRulePriority clock.rule existing store
  | none =>
    let (result, store) ← (store.tryInsertRule locationId action expr clock.rule).mapError
      .insertRule
    match result with
    | .inserted id =>
      match store.findRule id with
      | some inserted => .ok (inserted, store)
      | none => .error (.insertedRuleMissing id)
    | .conflicted =>
      match existingRule store locationId action expr with
      | some existing => refreshRulePriority clock.conflict existing store
      | none => .error .conflictingRuleMissing

def replaceRuleById (clock : Clock) (location : StoredPattern R) (id : Int)
    (action : RequestAction) (expr : StoredExprs R) (store : Store R) :
    Except (ReplaceRuleByIdError R) (RuleModel R × Store R) := do
  let locationId ← (locate store location).mapError fun source =>
    .rule (.replaceRuleSetByIdNotExist source)
  match store.findRule id with
  | none => .error (.rule (.replaceRuleIdNotExist id))
  | some current =>
    if current.locationId ≠ locationId then .error (.rule (.replaceRuleIdNotExist id))
    else
      (store.updateRule { current with action := action, exprs := expr, updatedAt := clock.rule })
        |>.mapError .updateRule

/-- The rules at the positions asked for, or the first position out of range. -/
def selectRules (visible : List (RuleModel R)) :
    List Nat → Except (RemoveRuleFailed R) (List (RuleModel R))
  | [] => .ok []
  | seq :: rest =>
    match visible[seq]? with
    | none => .error (.ruleNotExist seq)
    | some r => (selectRules visible rest).map (r :: ·)

/-- The ids of the rules that are logically one of the selected. -/
def idsToDelete (rules selected : List (RuleModel R)) : List Int :=
  (rules.filter fun candidate => selected.any (sameLogicalRule candidate ·)).map RuleModel.id

def removeRules (location : StoredPattern R) (sequence : List Nat) (store : Store R) :
    Except (RemoveRulesError R) (Store R) := do
  let locationId ← (locate store location).mapError fun source => .rule (.ruleSetNotExist source)
  let rules := orderedRules store.rules locationId
  let selected ← (selectRules (deduplicateRules rules) sequence).mapError .rule
  return store.deleteRules (idsToDelete rules selected)

def removeRulesByIds (location : StoredPattern R) (ids : List Int) (store : Store R) :
    Except (RemoveRulesByIdsError R) (Store R) := do
  let locationId ← (locate store location).mapError fun source =>
    .rule (.removeRuleSetByIdNotExist source)
  let requested := sortBy compare ids.dedup
  let matched := store.rules.filter (·.id ∈ requested)
  if matched.length ≠ requested.length then
    let missing := requested.find? fun id => id ∉ matched.map RuleModel.id
    .error (.rule (.removeRuleIdNotExist (missing.getD 0)))
  else
    match matched.find? (·.locationId != locationId) with
    | some foreign => .error (.rule (.removeRuleIdNotExist foreign.id))
    | none =>
      .ok (store.deleteRules
        (idsToDelete (store.rules.filter (·.locationId == locationId)) matched))

def removeRuleSet (location : StoredPattern R) (store : Store R) :
    Except (RemoveRuleSetError R) (Store R) := do
  let locationId ← (locate store location).mapError .locationNotExist
  return store.deleteLocation locationId

end LocationService

section Calls

variable (R)

inductive Call where
  | appendRule (location : StoredPattern R) (action : RequestAction) (expr : StoredExprs R)
  | appendRuleWithId (location : StoredPattern R) (action : RequestAction) (expr : StoredExprs R)
  | replaceRuleById (location : StoredPattern R) (id : Int) (action : RequestAction)
    (expr : StoredExprs R)
  | removeRules (location : StoredPattern R) (sequence : List Nat)
  | removeRulesByIds (location : StoredPattern R) (ids : List Int)
  | removeRuleSet (location : StoredPattern R)

inductive CallError where
  | appendRule (source : AppendRuleError)
  | replaceRuleById (source : ReplaceRuleByIdError R)
  | removeRules (source : RemoveRulesError R)
  | removeRulesByIds (source : RemoveRulesByIdsError R)
  | removeRuleSet (source : RemoveRuleSetError R)

/-- A call returns the rule it wrote, or nothing. -/
abbrev Reply := Except (CallError R) (Option (RuleModel R))

variable {R}

namespace Call

/-- The body of the transaction of a call. -/
def body (clock : Clock) (store : Store R) :
    Call R → Except (CallError R) (Option (RuleModel R) × Store R)
  | .appendRule location action expr =>
    ((LocationService.appendRuleInternal clock location action expr store).map fun p =>
      (none, p.2)).mapError .appendRule
  | .appendRuleWithId location action expr =>
    ((LocationService.appendRuleInternal clock location action expr store).map fun p =>
      (some p.1, p.2)).mapError .appendRule
  | .replaceRuleById location id action expr =>
    ((LocationService.replaceRuleById clock location id action expr store).map fun p =>
      (some p.1, p.2)).mapError .replaceRuleById
  | .removeRules location sequence =>
    ((LocationService.removeRules location sequence store).map fun s => (none, s)).mapError
      .removeRules
  | .removeRulesByIds location ids =>
    ((LocationService.removeRulesByIds location ids store).map fun s => (none, s)).mapError
      .removeRulesByIds
  | .removeRuleSet location =>
    ((LocationService.removeRuleSet location store).map fun s => (none, s)).mapError .removeRuleSet

/-- The transaction: it commits what its body did, or rolls back. -/
def commit (clock : Clock) (call : Call R) (store : Store R) : Reply R × Store R :=
  match call.body clock store with
  | .ok (reply, store) => (.ok reply, store)
  | .error e => (.error e, store)

end Call

end Calls

end Dhttp.Access
