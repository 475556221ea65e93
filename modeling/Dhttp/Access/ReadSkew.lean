import Dhttp.Access.RuleStoreRuns

namespace Dhttp.Access
open Dhttp.Lib
set_option autoImplicit true

section Types

variable (R : RegexLib)

/-- How far a call of `evaluate` has come. -/
inductive Phase where
  | started
  | located (location : StoredPattern R) (locationId : Int)
  | returned (result : LocationRuleResult R)

/-- The database, the call, and the states committed since the call started, the last one first. -/
structure Execution where
  store : Store R
  phase : Phase R
  committed : List (Store R)

inductive Event where
  | transaction (clock : Clock) (call : Call R)
  | readLocations
  | readRules

end Types

variable {R : RegexLib}

namespace Execution

def start (store : Store R) : Execution R := ⟨store, .started, [store]⟩

def commit (e : Execution R) (clock : Clock) (call : Call R) : Execution R :=
  let store := (call.commit clock e.store).2
  { e with store := store, committed := store :: e.committed }

/-- Each query reads the last committed state. Nothing is recorded after the call has returned. -/
def step (path : Bytes) (request : LocationRuleRequest R) (e : Execution R) :
    Event R → Option (Execution R)
  | .transaction clock call =>
    match e.phase with
    | .returned _ => none
    | _ => some (e.commit clock call)
  | .readLocations =>
    match e.phase with
    | .started =>
      match LocationRulesDatabase.selectLocation e.store.locations path with
      | none => some { e with phase := .returned (.error (.noRuleSet path)) }
      | some (location, locationId) => some { e with phase := .located location locationId }
    | _ => none
  | .readRules =>
    match e.phase with
    | .located location locationId =>
      some { e with phase := .returned (LocationRulesDatabase.decideIn location request
        (orderedRules e.store.rules locationId)) }
    | _ => none

/-- The executions of a call that starts at `store`, by steps that all meet `ok`. -/
inductive Reached (path : Bytes) (request : LocationRuleRequest R)
    (ok : Execution R → Event R → Prop) (store : Store R) : Execution R → Prop
  | start : Reached path request ok store (start store)
  | step : Reached path request ok store e → ok e ev → e.step path request ev = some e' →
      Reached path request ok store e'

end Execution

open Execution

/-- Between the reads, a transaction leaves what the rules of the selected location say, or leaves
it selected. -/
def Harmless (path : Bytes) (e : Execution R) : Event R → Prop
  | .transaction clock call =>
    match e.phase with
    | .located location locationId =>
      (orderedRules (e.commit clock call).store.rules locationId).map RuleModel.decisive =
          (orderedRules e.store.rules locationId).map RuleModel.decisive ∨
        LocationRulesDatabase.selectLocation (e.commit clock call).store.locations path =
          some (location, locationId)
    | _ => True
  | _ => True

theorem decideIn_congr {rules rules' : List (RuleModel R)}
    (h : rules.map RuleModel.decisive = rules'.map RuleModel.decisive)
    (location : StoredPattern R) (request : LocationRuleRequest R) :
    LocationRulesDatabase.decideIn location request rules =
      LocationRulesDatabase.decideIn location request rules' := by
  have hs : rules.reverse.findSome? (fun r => (Rule.mk r.exprs.polish r.action).eval request) =
      rules'.reverse.findSome? fun r => (Rule.mk r.exprs.polish r.action).eval request := by
    induction rules using List.reverseRecOn generalizing rules' with
    | nil =>
      rw [List.map_nil, eq_comm, List.map_eq_nil_iff] at h
      rw [h]
    | append_singleton rules r ih =>
      rw [List.map_append, List.map_singleton, eq_comm, List.map_eq_append_iff] at h
      obtain ⟨before, last, rfl, hb, hl⟩ := h
      obtain ⟨r', rfl, hr⟩ := List.map_eq_singleton_iff.1 hl
      rw [RuleModel.decisive, RuleModel.decisive, Prod.mk.injEq] at hr
      rw [List.reverse_append, List.reverse_append, List.reverse_singleton,
        List.reverse_singleton, List.singleton_append, List.singleton_append,
        List.findSome?_cons, List.findSome?_cons, ih hb.symm, hr.1,
        StoredExprs.polish_eq_iff.2 hr.2]
  rw [LocationRulesDatabase.decideIn, hs, LocationRulesDatabase.decideIn]

theorem Execution.step_transaction {e : Execution R}
    (h : e.step path request (.transaction clock call) = some e') : e' = e.commit clock call := by
  rw [Execution.step] at h
  split at h
  · cases h
  · cases h
    rfl

theorem Execution.step_readLocations {e : Execution R}
    (h : e.step path request .readLocations = some e') :
    e'.store = e.store ∧ e'.committed = e.committed ∧
      ((LocationRulesDatabase.selectLocation e.store.locations path = none ∧
          e'.phase = .returned (.error (.noRuleSet path))) ∨
        ∃ location locationId,
          LocationRulesDatabase.selectLocation e.store.locations path =
            some (location, locationId) ∧
          e'.phase = .located location locationId) := by
  rw [Execution.step] at h
  split at h
  · split at h
    · rename_i hs
      cases h
      exact ⟨rfl, rfl, .inl ⟨hs, rfl⟩⟩
    · rename_i hs
      cases h
      exact ⟨rfl, rfl, .inr ⟨_, _, hs, rfl⟩⟩
  · cases h

theorem Execution.step_readRules {e : Execution R}
    (h : e.step path request .readRules = some e') :
    e'.store = e.store ∧ e'.committed = e.committed ∧ ∃ location locationId,
      e.phase = .located location locationId ∧
      e'.phase = .returned (LocationRulesDatabase.decideIn location request
        (orderedRules e.store.rules locationId)) := by
  rw [Execution.step] at h
  split at h
  · rename_i hp
    cases h
    exact ⟨rfl, rfl, _, _, hp, rfl⟩
  · cases h

namespace Execution

theorem Reached.store_committed {store : Store R} (h : Reached path request ok store e) :
    e.store ∈ e.committed := by
  induction h with
  | start => exact List.mem_singleton_self _
  | @step e ev e' _ _ hs ih =>
    cases ev with
    | transaction clock call =>
      rw [step_transaction hs]
      exact List.mem_cons_self ..
    | readLocations =>
      obtain ⟨hst, hc, -⟩ := step_readLocations hs
      rwa [hst, hc]
    | readRules =>
      obtain ⟨hst, hc, -⟩ := step_readRules hs
      rwa [hst, hc]

theorem Reached.located_transaction {store : Store R}
    (h : Reached path request ok store e) (hl : e.phase = .located location locationId)
    (clock : Clock) (call : Call R) (ho : ok e (.transaction clock call)) :
    Reached path request ok store (e.commit clock call) := by
  apply h.step ho
  rw [Execution.step, hl]

end Execution

/-- One committed state selects the location and has for it what the rules to be read say. -/
def Coherent (path : Bytes) (e : Execution R) : Prop :=
  ∀ location locationId, e.phase = .located location locationId →
    ∃ s ∈ e.committed,
      LocationRulesDatabase.selectLocation s.locations path = some (location, locationId) ∧
      (orderedRules s.rules locationId).map RuleModel.decisive =
        (orderedRules e.store.rules locationId).map RuleModel.decisive

theorem coherent_step {path : Bytes} {e : Execution R} (hm : e.store ∈ e.committed)
    (hc : Coherent path e) (ho : Harmless path e ev) (hs : e.step path request ev = some e') :
    Coherent path e' := by
  intro location locationId hp
  cases ev with
  | transaction clock call =>
    rw [step_transaction hs] at hp ⊢
    have hp' : e.phase = .located location locationId := hp
    simp only [Harmless, hp'] at ho
    rcases ho with ho | ho
    · obtain ⟨s, hmem, hsel, hrules⟩ := hc location locationId hp'
      exact ⟨s, List.mem_cons_of_mem _ hmem, hsel, hrules.trans ho.symm⟩
    · exact ⟨(e.commit clock call).store, List.mem_cons_self .., ho, rfl⟩
  | readLocations =>
    obtain ⟨hst, hcom, hsel⟩ := step_readLocations hs
    rcases hsel with ⟨-, hp'⟩ | ⟨location', locationId', hsel, hp'⟩
    · rw [hp'] at hp
      cases hp
    · rw [hp'] at hp
      cases hp
      rw [hst, hcom]
      exact ⟨e.store, hm, hsel, rfl⟩
  | readRules =>
    obtain ⟨-, -, location', locationId', -, hp'⟩ := step_readRules hs
    rw [hp'] at hp
    cases hp

theorem coherent_of_harmless {path : Bytes} {store : Store R}
    (h : Reached path request (Harmless path) store e) : Coherent path e := by
  induction h with
  | start =>
    intro location locationId hp
    cases hp
  | step hr ho hs ih => exact coherent_step hr.store_committed ih ho hs

/-- In runs whose transactions between the reads are harmless, `evaluate` returns what it would
return alone on a state committed while it ran. -/
theorem returned_of_harmless (path : Bytes) (request : LocationRuleRequest R) (store : Store R)
    (e : Execution R) (h : Reached path request (Harmless path) store e)
    (result : LocationRuleResult R) (hp : e.phase = .returned result) :
    ∃ s ∈ e.committed, LocationRulesDatabase.evaluate s path request = result := by
  induction h with
  | start => cases hp
  | @step e ev e' hr _ hs ih =>
    cases ev with
    | transaction clock call =>
      rw [step_transaction hs] at hp ⊢
      obtain ⟨s, hm, he⟩ := ih hp
      exact ⟨s, List.mem_cons_of_mem _ hm, he⟩
    | readLocations =>
      obtain ⟨-, hcom, hsel⟩ := step_readLocations hs
      rcases hsel with ⟨hn, hp'⟩ | ⟨location, locationId, -, hp'⟩
      · rw [hp'] at hp
        cases hp
        rw [hcom]
        refine ⟨e.store, hr.store_committed, ?_⟩
        rw [LocationRulesDatabase.evaluate, hn]
      · rw [hp'] at hp
        cases hp
    | readRules =>
      obtain ⟨-, hcom, location, locationId, hl, hp'⟩ := step_readRules hs
      rw [hp'] at hp
      cases hp
      obtain ⟨s, hm, hsel, hrules⟩ := coherent_of_harmless hr location locationId hl
      rw [hcom]
      refine ⟨s, hm, ?_⟩
      rw [LocationRulesDatabase.evaluate, hsel]
      exact decideIn_congr hrules location request

/-- The call has read the locations of the sample. -/
def locatedSample : Execution literalLib := ⟨sampleStore, .located locationA 1, [sampleStore]⟩

theorem locatedSample_reached (ok : Execution literalLib → Event literalLib → Prop)
    (ho : ok (start sampleStore) .readLocations) :
    Reached (asciiBytes "/a") (fun _ => .ok true) ok sampleStore locatedSample := by
  apply Reached.step .start ho
  rfl

/-- The newer rule is removed between the reads; the location stays selected. -/
theorem returned_of_harmless_removal : ∃ e : Execution literalLib,
    e.phase = .returned (.ok ⟨locationA, .allow⟩) ∧
      ∃ s ∈ e.committed, LocationRulesDatabase.evaluate s (asciiBytes "/a") (fun _ => .ok true) =
        .ok ⟨locationA, .allow⟩ := by
  let removed := locatedSample.commit ⟨30, 31, 32⟩ (.removeRules locationA [1])
  have hr : Reached (asciiBytes "/a") (fun _ => .ok true) (Harmless (asciiBytes "/a"))
      sampleStore removed :=
    (locatedSample_reached _ trivial).located_transaction rfl _ _ (.inr rfl)
  have hs : removed.step (asciiBytes "/a") (fun _ => .ok true) .readRules =
      some { removed with phase := .returned (.ok ⟨locationA, .allow⟩) } := rfl
  exact ⟨_, rfl, returned_of_harmless _ _ sampleStore _ (.step hr (by trivial) hs) _ rfl⟩

/-- The location is removed between the reads: it was selected but has no rules. -/
theorem evaluate_skewed : ¬ ∀ (path : Bytes) (request : LocationRuleRequest literalLib)
    (store : Store literalLib) (e : Execution literalLib),
    Reached path request (fun _ _ => True) store e → ∀ result, e.phase = .returned result →
      ∃ s ∈ e.committed, LocationRulesDatabase.evaluate s path request = result := by
  intro h
  let removed := locatedSample.commit ⟨30, 31, 32⟩ (.removeRuleSet locationA)
  have hr : Reached (asciiBytes "/a") (fun _ => .ok true) (fun _ _ => True) sampleStore removed :=
    (locatedSample_reached _ trivial).located_transaction rfl _ _ trivial
  have hs : removed.step (asciiBytes "/a") (fun _ => .ok true) .readRules =
      some { removed with phase := .returned (.error (.noRuleInSet locationA)) } := rfl
  obtain ⟨s, hm, he⟩ := h _ _ sampleStore _ (.step hr trivial hs) _ rfl
  have hb : LocationRulesDatabase.evaluate sampleStore (asciiBytes "/a") (fun _ => .ok true) =
      .ok ⟨locationA, .deny⟩ := rfl
  have ha : LocationRulesDatabase.evaluate removed.store (asciiBytes "/a") (fun _ => .ok true) =
      .error (.noRuleSet (asciiBytes "/a")) := rfl
  rcases List.mem_cons.1 hm with hm | hm
  · rw [hm] at he
    cases ha.symm.trans he
  · rw [List.mem_singleton.1 hm] at he
    cases hb.symm.trans he

end Dhttp.Access
