import Dhttp.Access.LiteralLib
import Dhttp.Access.RuleRows

namespace Dhttp.Access
open Dhttp.Lib
set_option autoImplicit true

section Types

variable (R : RegexLib)

/-- The `eval_atomic` of a request. -/
abbrev LocationRuleRequest := AtomicLocationRuleExpr R → Except EvalError Bool

structure LocationRuleDecision where
  location : StoredPattern R
  action : RequestAction

/-- Failures of the backend are left out. -/
inductive LocationRuleDecisionError where
  | noRuleSet (path : Bytes)
  | noRuleInSet (location : StoredPattern R)

abbrev LocationRuleResult := Except (LocationRuleDecisionError R) (LocationRuleDecision R)

inductive MatchLocationFailed where
  | noMatchedLocation (location : StoredPattern R)
  | noMatchedPath (path : Bytes)

inductive MatchRuleFailed where
  | matchSet (source : MatchLocationFailed R)
  | matchRuleInSet

structure AllLocationRules where
  map : List (PatternWithTime R × (LocationModel R × List (RuleModel R)))

structure LocationRulesMatcher where
  map : List (PatternWithTime R × List (StoredExprs R × RequestAction))

end Types

variable {R : RegexLib}

/-- The rules of a location, `ORDER BY created_at, id`. -/
def orderedRules (rules : List (RuleModel R)) (locationId : Int) : List (RuleModel R) :=
  sortBy RuleModel.cmp (rules.filter (·.locationId == locationId))

namespace LocationRulesDatabase

def orderedLocations (locations : List (LocationModel R)) : List (PatternWithTime R × Int) :=
  collect PatternWithTime.cmp (locations.map fun l => (l.patternWithTime, l.id))

/-- What `evaluate` takes from its first query. -/
def selectLocation (locations : List (LocationModel R)) (path : Bytes) :
    Option (StoredPattern R × Int) :=
  ((orderedLocations locations).find? fun e => e.1.pattern.isMatch path).map fun e =>
    (e.1.pattern, e.2)

/-- What `evaluate` makes of the rows of its second query. -/
def decideIn (location : StoredPattern R) (request : LocationRuleRequest R)
    (rules : List (RuleModel R)) : LocationRuleResult R :=
  match rules.reverse.findSome? fun r => (Rule.mk r.exprs.polish r.action).eval request with
  | some action => .ok ⟨location, action⟩
  | none => .error (.noRuleInSet location)

def evaluate (store : Store R) (path : Bytes) (request : LocationRuleRequest R) :
    LocationRuleResult R :=
  match selectLocation store.locations path with
  | none => .error (.noRuleSet path)
  | some (location, id) => decideIn location request (orderedRules store.rules id)

end LocationRulesDatabase

/-- `load_many`: the rows of each location, as they come. -/
def loadMany (locations : List (LocationModel R)) (rows : List (RuleModel R)) :
    List (List (RuleModel R)) :=
  locations.map fun l => rows.filter (·.locationId == l.id)

def listAllRules (locations : List (LocationModel R)) (rows : List (RuleModel R)) :
    AllLocationRules R where
  map := collect PatternWithTime.cmp ((locations.zip (loadMany locations rows)).map fun p =>
    (p.1.patternWithTime, (p.1, sortBy RuleModel.cmp (deduplicateRules p.2))))

namespace LocationRulesMatcher

def ofAllLocationRules (all : AllLocationRules R) : LocationRulesMatcher R where
  map := collect PatternWithTime.cmp (all.map.map fun e =>
    (e.1, e.2.2.map fun r => (r.exprs, r.action)))

def matchRules (m : LocationRulesMatcher R) (path : Bytes) : Except (MatchLocationFailed R)
    (StoredPattern R × List (StoredExprs R × RequestAction)) :=
  match m.map.find? fun e => e.1.pattern.isMatch path with
  | some e => .ok (e.1.pattern, e.2)
  | none => .error (.noMatchedPath path)

def matchRule (m : LocationRulesMatcher R) (path : Bytes) (request : LocationRuleRequest R) :
    Except (MatchRuleFailed R) (StoredPattern R × RequestAction) := do
  let (location, rules) ← (m.matchRules path).mapError .matchSet
  match (rules.reverse.map fun e => Rule.mk e.1.polish e.2).findSome? (·.eval request) with
  | some action => .ok (location, action)
  | none => .error .matchRuleInSet

def evaluate (m : LocationRulesMatcher R) (path : Bytes) (request : LocationRuleRequest R) :
    LocationRuleResult R :=
  match m.matchRule path request with
  | .ok (location, action) => .ok ⟨location, action⟩
  | .error (.matchSet (.noMatchedPath path)) => .error (.noRuleSet path)
  | .error (.matchSet (.noMatchedLocation location)) =>
    .error (.noRuleSet (String.ofList location.asStr).toUTF8.toList)
  | .error .matchRuleInSet =>
    match m.matchRules path with
    | .ok (location, _) => .error (.noRuleInSet location)
    | .error _ => .error (.noRuleSet path)

end LocationRulesMatcher

/-- The map that both readers build, with the whole location as value. -/
def locationMap (locations : List (LocationModel R)) :
    List (PatternWithTime R × LocationModel R) :=
  collect PatternWithTime.cmp (locations.map fun l => (l.patternWithTime, l))

theorem collect_locations (f : LocationModel R → α) (locations : List (LocationModel R)) :
    collect PatternWithTime.cmp (locations.map fun l => (l.patternWithTime, f l)) =
      (locationMap locations).map (Prod.map id f) := by
  rw [locationMap, ← collect_map, List.map_map]
  rfl

theorem keys_nodup {locations : List (LocationModel R)}
    (h : (locations.map LocationModel.pattern).Nodup) :
    ((locations.map fun l => (l.patternWithTime, l)).map Prod.fst).Nodup := by
  have hp : (locations.map fun l => l.patternWithTime.pattern).Nodup := h
  rw [List.map_map]
  apply List.Nodup.of_map PatternWithTime.pattern
  rw [List.map_map]
  exact hp

theorem locationMap_perm {locations : List (LocationModel R)}
    (h : (locations.map LocationModel.pattern).Nodup) :
    (locationMap locations).Perm (locations.map fun l => (l.patternWithTime, l)) :=
  collect_perm (keys_nodup h)

/-- The entry that the readers stop at. -/
def firstMatch (locations : List (LocationModel R)) (path : Bytes) :
    Option (PatternWithTime R × LocationModel R) :=
  (locationMap locations).find? fun e => e.1.pattern.isMatch path

theorem selectLocation_eq (locations : List (LocationModel R)) (path : Bytes) :
    LocationRulesDatabase.selectLocation locations path =
      (firstMatch locations path).map fun e => (e.1.pattern, e.2.id) := by
  rw [LocationRulesDatabase.selectLocation, LocationRulesDatabase.orderedLocations,
    collect_locations, List.find?_map, Option.map_map]
  rfl

/-- The rules that a listed location carries. -/
def loadedRules (rows : List (RuleModel R)) (locationId : Int) : List (RuleModel R) :=
  sortBy RuleModel.cmp (deduplicateRules (rows.filter (·.locationId == locationId)))

theorem listAllRules_map (locations : List (LocationModel R)) (rows : List (RuleModel R)) :
    (listAllRules locations rows).map =
      (locationMap locations).map (Prod.map id fun l => (l, loadedRules rows l.id)) := by
  have hz : locations.zip (loadMany locations rows) =
      locations.map fun l => (l, rows.filter (·.locationId == l.id)) := by
    have hm := List.zip_map' (f := id) (l := locations)
      (g := fun l => rows.filter (·.locationId == l.id))
    rw [List.map_id] at hm
    exact hm
  rw [listAllRules, hz, List.map_map, ← collect_locations]
  rfl

theorem foldl_deduplicate {rules acc : List (RuleModel R)}
    (h : (acc ++ rules).Pairwise fun r r' => sameLogicalRule r r' = false) :
    rules.foldl (fun unique candidate =>
      if unique.any (sameLogicalRule · candidate) then unique else unique ++ [candidate]) acc =
        acc ++ rules := by
  induction rules generalizing acc with
  | nil => exact (List.append_nil acc).symm
  | cons r rules ih =>
    have hn : ¬ acc.any (sameLogicalRule · r) = true := by
      intro ha
      obtain ⟨x, hx, hs⟩ := List.any_eq_true.1 ha
      have hf := (List.pairwise_append.1 h).2.2 x hx r (List.mem_cons_self ..)
      rw [hf] at hs
      cases hs
    rw [List.append_cons] at h ⊢
    rw [List.foldl_cons, if_neg hn, ih h]

/-- Nothing is removed from rules that differ in action or polish. -/
theorem deduplicateRules_of_pairwise {rules : List (RuleModel R)}
    (h : rules.Pairwise fun r r' => sameLogicalRule r r' = false) :
    deduplicateRules rules = rules := by
  have hn : ([] ++ rules).Pairwise fun r r' => sameLogicalRule r r' = false := h
  exact foldl_deduplicate hn

theorem pairwise_distinct {rules : List (RuleModel R)}
    (h : (rules.map RuleModel.logicalKey).Nodup) (id : Int) :
    (rules.filter (·.locationId == id)).Pairwise fun r r' => sameLogicalRule r r' = false := by
  have hp := (List.pairwise_map.1 h).filter fun r => r.locationId == id
  apply hp.imp_of_mem
  intro r r' hr hr' hne
  rw [Bool.eq_false_iff]
  intro hs
  obtain ⟨ha, ht⟩ := sameLogicalRule_iff.1 hs
  have hl : r.locationId = r'.locationId := by
    rw [eq_of_beq (List.mem_filter.1 hr).2, eq_of_beq (List.mem_filter.1 hr').2]
  exact hne (by rw [RuleModel.logicalKey, hl, ha, ht, RuleModel.logicalKey])

/-- Rules with different ids are told apart by their order. -/
theorem cmp_eq_imp {rules : List (RuleModel R)} (h : (rules.map RuleModel.id).Nodup) :
    ∀ r ∈ rules, ∀ r' ∈ rules, r.cmp r' = .eq → r = r' := by
  intro r hr r' hr' he
  exact List.inj_on_of_nodup_map h hr hr' (RuleModel.cmp_eq he)

/-- The loaded rows of a location are its rules in order, in whatever order they come. -/
theorem loaded_orderedRules {rules rows : List (RuleModel R)} (hp : rows.Perm rules)
    (hi : (rules.map RuleModel.id).Nodup) (hl : (rules.map RuleModel.logicalKey).Nodup)
    (id : Int) :
    loadedRules rows id = orderedRules rules id := by
  have hk : (rows.map RuleModel.logicalKey).Nodup := (hp.map _).nodup_iff.2 hl
  rw [loadedRules, deduplicateRules_of_pairwise (pairwise_distinct hk id), orderedRules]
  apply sortBy_congr (hp.symm.filter _)
  intro r hr r' hr'
  exact cmp_eq_imp hi r (hp.mem_iff.1 (List.mem_of_mem_filter hr)) r'
    (hp.mem_iff.1 (List.mem_of_mem_filter hr'))

theorem matcher_map {locations : List (LocationModel R)}
    (h : (locations.map LocationModel.pattern).Nodup) (rows : List (RuleModel R)) :
    (LocationRulesMatcher.ofAllLocationRules (listAllRules locations rows)).map =
      (locationMap locations).map (Prod.map id fun l =>
        (loadedRules rows l.id).map fun r => (r.exprs, r.action)) := by
  have hm : ((listAllRules locations rows).map.map fun e =>
      (e.1, e.2.2.map fun r : RuleModel R => (r.exprs, r.action))) =
      (locationMap locations).map (Prod.map id fun l =>
        (loadedRules rows l.id).map fun r => (r.exprs, r.action)) := by
    rw [listAllRules_map, List.map_map]
    rfl
  rw [LocationRulesMatcher.ofAllLocationRules, hm, collect_map, locationMap,
    collect_collect (keys_nodup h)]

theorem matcher_matchRules {locations : List (LocationModel R)}
    (h : (locations.map LocationModel.pattern).Nodup) (rows : List (RuleModel R)) (path : Bytes) :
    (LocationRulesMatcher.ofAllLocationRules (listAllRules locations rows)).matchRules path =
      match firstMatch locations path with
      | some e => .ok (e.1.pattern, (loadedRules rows e.2.id).map fun r => (r.exprs, r.action))
      | none => .error (.noMatchedPath path) := by
  have hf (f : LocationModel R → List (StoredExprs R × RequestAction)) :
      (locationMap locations).find? ((fun e => e.1.pattern.isMatch path) ∘ Prod.map id f) =
      firstMatch locations path := rfl
  rw [LocationRulesMatcher.matchRules, matcher_map h, List.find?_map, hf]
  cases firstMatch locations path <;> rfl

theorem LocationRulesMatcher.evaluate_noMatchedPath {m : LocationRulesMatcher R}
    (h : m.matchRules path = .error (.noMatchedPath path)) (request : LocationRuleRequest R) :
    m.evaluate path request = .error (.noRuleSet path) := by
  rw [evaluate, matchRule, h]
  rfl

theorem LocationRulesMatcher.evaluate_matched {m : LocationRulesMatcher R}
    {rules : List (RuleModel R)}
    (h : m.matchRules path = .ok (location, rules.map fun r => (r.exprs, r.action)))
    (request : LocationRuleRequest R) :
    m.evaluate path request = LocationRulesDatabase.decideIn location request rules := by
  have hr : ((rules.map fun r => (r.exprs, r.action)).reverse.map
      fun e => Rule.mk e.1.polish e.2).findSome? (·.eval request) =
      rules.reverse.findSome? fun r => (Rule.mk r.exprs.polish r.action).eval request := by
    rw [← List.map_reverse, List.map_map, List.findSome?_map]
    rfl
  rw [evaluate, matchRule, h, LocationRulesDatabase.decideIn, ← hr]
  simp only [Except.mapError, bind, Except.bind]
  cases ((rules.map fun r => (r.exprs, r.action)).reverse.map
    fun e => Rule.mk e.1.polish e.2).findSome? (·.eval request) <;> rfl

/-- The matcher built from the listed rules decides as the database does. -/
theorem matcher_evaluate (store : Store R) (h : store.Schema) (rows : List (RuleModel R))
    (hp : rows.Perm store.rules) (path : Bytes) (request : LocationRuleRequest R) :
    (LocationRulesMatcher.ofAllLocationRules (listAllRules store.locations rows)).evaluate
      path request = LocationRulesDatabase.evaluate store path request := by
  have hm := matcher_matchRules h.patterns rows path
  rw [LocationRulesDatabase.evaluate, selectLocation_eq]
  cases hf : firstMatch store.locations path with
  | none =>
    rw [hf] at hm
    exact LocationRulesMatcher.evaluate_noMatchedPath hm request
  | some e =>
    simp only [hf, loaded_orderedRules hp h.rule_ids h.logical_rules] at hm
    exact LocationRulesMatcher.evaluate_matched hm request

theorem firstMatch_some {locations : List (LocationModel R)}
    (h : (locations.map LocationModel.pattern).Nodup) (hf : firstMatch locations path = some e) :
    e.2 ∈ locations ∧ e.1 = e.2.patternWithTime ∧ e.2.pattern.isMatch path = true ∧
      ∀ l ∈ locations, l.pattern.isMatch path = true →
        (e.1.cmp l.patternWithTime).isLE = true := by
  have hmem {e : PatternWithTime R × LocationModel R} :
      e ∈ locationMap locations ↔ e.2 ∈ locations ∧ e.1 = e.2.patternWithTime := by
    rw [(locationMap_perm h).mem_iff, List.mem_map]
    constructor
    · intro hl
      obtain ⟨l, hl, rfl⟩ := hl
      exact ⟨hl, rfl⟩
    · intro hl
      exact ⟨e.2, hl.1, Prod.ext hl.2.symm rfl⟩
  obtain ⟨he, hm, hmin⟩ := find?_minimal (collect_pairwise (keys_nodup h))
    (fun _ => Std.ReflCmp.isLE_rfl) hf
  obtain ⟨hl, hk⟩ := hmem.1 he
  rw [hk] at hm
  refine ⟨hl, hk, hm, ?_⟩
  intro l hl hm
  exact hmin (l.patternWithTime, l) (hmem.2 ⟨hl, rfl⟩) hm

theorem firstMatch_none {locations : List (LocationModel R)}
    (h : (locations.map LocationModel.pattern).Nodup) (hf : firstMatch locations path = none) :
    ∀ l ∈ locations, l.pattern.isMatch path = false := by
  intro l hl
  have he : (l.patternWithTime, l) ∈ locationMap locations :=
    (locationMap_perm h).mem_iff.2 (List.mem_map_of_mem hl)
  have hn := List.find?_eq_none.1 hf _ he
  rwa [Bool.not_eq_true] at hn

/-- Every location has its entry in the map, and the one selected is of the first kind and then
the newest to the microsecond among those that match. -/
theorem location_selected (locations : List (LocationModel R))
    (h : (locations.map LocationModel.pattern).Nodup) (path : Bytes) :
    (LocationRulesDatabase.orderedLocations locations).Perm
        (locations.map fun l => (l.patternWithTime, l.id)) ∧
      (∀ rows, ((listAllRules locations rows).map.map fun e => (e.1, e.2.1)).Perm
        (locations.map fun l => (l.patternWithTime, l))) ∧
      (∀ location id, LocationRulesDatabase.selectLocation locations path = some (location, id) →
        ∃ l ∈ locations, l.pattern = location ∧ l.id = id ∧ l.pattern.isMatch path = true ∧
          ∀ l' ∈ locations, l'.pattern.isMatch path = true →
            l.pattern.priority ≤ l'.pattern.priority ∧
              (l'.pattern.priority = l.pattern.priority →
                timestampMicros l'.createdAt ≤ timestampMicros l.createdAt)) ∧
      (∀ rows location rules, (LocationRulesMatcher.ofAllLocationRules
          (listAllRules locations rows)).matchRules path = .ok (location, rules) →
        ∃ id, LocationRulesDatabase.selectLocation locations path = some (location, id)) ∧
      (∀ rules nextLocation nextRule request p, LocationRulesDatabase.evaluate
          ⟨locations, rules, nextLocation, nextRule⟩ path request = .error (.noRuleSet p) →
        ∀ l ∈ locations, l.pattern.isMatch path = false) ∧
      (∀ rows p, (LocationRulesMatcher.ofAllLocationRules
          (listAllRules locations rows)).matchRules path = .error (.noMatchedPath p) →
        ∀ l ∈ locations, l.pattern.isMatch path = false) := by
  refine ⟨?_, ?_, ?_, ?_, ?_, ?_⟩
  · rw [LocationRulesDatabase.orderedLocations]
    apply collect_perm
    have hk := keys_nodup h
    rwa [List.map_map] at hk ⊢
  · intro rows
    rw [listAllRules_map, List.map_map]
    have he : ((fun e : PatternWithTime R × LocationModel R × List (RuleModel R) => (e.1, e.2.1)) ∘
        Prod.map id fun l => (l, loadedRules rows l.id)) = id := rfl
    rw [he, List.map_id]
    exact locationMap_perm h
  · intro location id hs
    rw [selectLocation_eq] at hs
    obtain ⟨e, hf, he⟩ := Option.map_eq_some_iff.1 hs
    cases he
    obtain ⟨hl, hk, hm, hmin⟩ := firstMatch_some h hf
    refine ⟨e.2, hl, by rw [hk]; rfl, rfl, hm, ?_⟩
    intro l' hl' hm'
    have hc := hmin l' hl' hm'
    rw [hk, PatternWithTime.cmp_isLE] at hc
    change e.2.pattern.priority < l'.pattern.priority ∨ _ at hc
    constructor
    · rcases hc with hc | hc
      · exact hc.le
      · exact hc.1.le
    · intro hp
      rcases hc with hc | hc
      · omega
      · exact hc.2
  · intro rows location rules hm
    rw [matcher_matchRules h] at hm
    rw [selectLocation_eq]
    cases hf : firstMatch locations path with
    | none =>
      rw [hf] at hm
      cases hm
    | some e =>
      rw [hf] at hm
      cases hm
      exact ⟨e.2.id, rfl⟩
  · intro rules nextLocation nextRule request p he
    rw [LocationRulesDatabase.evaluate, selectLocation_eq] at he
    cases hf : firstMatch locations path with
    | none => exact firstMatch_none h hf
    | some e =>
      simp only [hf, Option.map_some, LocationRulesDatabase.decideIn] at he
      split at he <;> cases he
  · intro rows p hm
    rw [matcher_matchRules h] at hm
    cases hf : firstMatch locations path with
    | none => exact firstMatch_none h hf
    | some e =>
      rw [hf] at hm
      cases hm

/-- A location by its path prefix, like `/files`. -/
def literalLocation (word : Text) (hp : (text "/").isPrefixOf word = true) (hn : word ≠ text "/")
    (hw : word.all isWordChar = true)
    (ha : locationPathLanguage.accepts (Literal.bytes ⟨word, false⟩) = true) :
    StoredPattern literalLib where
  pattern := ⟨.normalPrefix, ⟨word, false⟩, word⟩
  parsed := by
    have hs : splitOnce ' ' word = none := by
      rw [splitOnce_eq_none]
      intro hm
      exact absurd (List.all_eq_true.1 hw _ hm) (by decide)
    have hr : prefixRegex literalLib word = .ok ⟨word, false⟩ := by
      have hl := literal_text ⟨word, false⟩ hw
      rw [Literal.text, if_neg Bool.false_ne_true, List.append_nil] at hl
      exact literalLib_new.2 hl
    have hv := literal_validate PatternInputLanguage.searchable_locationPath
      (⟨.normalPrefix, ⟨word, false⟩, word⟩ : LocationPattern literalLib) hw ha
    rw [LocationPattern.fromStr, LocationPattern.compile, hs]
    simp only [if_neg hn, hp, if_true, hr]
    change (validateReachable _ _).mapError _ >>= _ = _
    rw [hv]
    rfl

def locationA : StoredPattern literalLib :=
  literalLocation (text "/a") rfl (by decide) rfl (by decide)

def locationAb : StoredPattern literalLib :=
  literalLocation (text "/ab") rfl (by decide) rfl (by decide)

/-- The expression `*?`. -/
def anyExprs : StoredExprs literalLib := .ofParsed (fromStr_print ⟨.any, .none⟩)

/-- A location with a rule that allows and a newer one that denies. -/
def sampleStore : Store literalLib where
  locations := [⟨1, locationA, 1000, 1000⟩]
  rules := [⟨1, 1, .allow, anyExprs, 1000, 1000⟩, ⟨2, 1, .deny, anyExprs, 1000, 1000⟩]
  nextLocation := 2
  nextRule := 3

theorem sampleStore_schema : sampleStore.Schema where
  location_ids := by decide
  patterns := List.nodup_singleton _
  rule_ids := by decide
  logical_rules := by decide
  foreign_keys := by decide

/-- Two locations made within a microsecond, the older one first. -/
def twinLocations : List (LocationModel literalLib) :=
  [⟨1, locationA, 1000, 1000⟩, ⟨2, locationAb, 1500, 1500⟩]

theorem twinLocations_patterns : (twinLocations.map LocationModel.pattern).Nodup := by decide

theorem location_selected_twins : ∃ l ∈ twinLocations, l.pattern = locationA ∧ l.id = 1 ∧
    l.pattern.isMatch (asciiBytes "/ab") = true ∧ ∀ l' ∈ twinLocations,
      l'.pattern.isMatch (asciiBytes "/ab") = true →
        l.pattern.priority ≤ l'.pattern.priority ∧
          (l'.pattern.priority = l.pattern.priority →
            timestampMicros l'.createdAt ≤ timestampMicros l.createdAt) :=
  (location_selected twinLocations twinLocations_patterns (asciiBytes "/ab")).2.2.1 locationA 1 rfl

/-- Of two locations made within a microsecond the older one can be selected. -/
theorem newest_not_selected : ¬ ∀ (locations : List (LocationModel literalLib)) (path : Bytes),
    (locations.map LocationModel.pattern).Nodup → ∀ location id,
      LocationRulesDatabase.selectLocation locations path = some (location, id) →
      ∃ l ∈ locations, l.pattern = location ∧ l.id = id ∧ ∀ l' ∈ locations,
        l'.pattern.isMatch path = true → l'.pattern.priority = l.pattern.priority →
          l'.createdAt ≤ l.createdAt := by
  intro h
  obtain ⟨l, hl, hp, hid, hn⟩ := h twinLocations (asciiBytes "/ab") twinLocations_patterns
    locationA 1 rfl
  rcases List.mem_cons.1 hl with rfl | hl
  · have ht := hn ⟨2, locationAb, 1500, 1500⟩ (by simp [twinLocations]) rfl rfl
    exact absurd ht (by decide)
  · rw [List.mem_singleton.1 hl] at hid
    cases hid

theorem matcher_evaluate_sample :
    (LocationRulesMatcher.ofAllLocationRules
      (listAllRules sampleStore.locations sampleStore.rules.reverse)).evaluate (asciiBytes "/a")
        (fun _ => .ok true) =
      LocationRulesDatabase.evaluate sampleStore (asciiBytes "/a") fun _ => .ok true :=
  matcher_evaluate sampleStore sampleStore_schema _ (List.reverse_perm _) _ _

end Dhttp.Access
