import Dhttp.Access.RuleStore

namespace Dhttp.Access
open Dhttp.Lib
set_option autoImplicit true

variable {R : RegexLib}

/-- The tables meet their constraints and the ids to come are new. -/
structure Store.Valid (store : Store R) : Prop extends store.Schema where
  location_bound : ∀ l ∈ store.locations, l.id < store.nextLocation
  rule_bound : ∀ r ∈ store.rules, r.id < store.nextRule

/-- The rules of a location in the order in which they are consulted. -/
def Store.rulesAt (store : Store R) (location : StoredPattern R) : List (RuleModel R) :=
  match store.findLocation location with
  | some l => (orderedRules store.rules l.id).reverse
  | none => []

theorem Store.empty_valid : (Store.empty : Store R).Valid where
  location_ids := List.nodup_nil
  patterns := List.nodup_nil
  rule_ids := List.nodup_nil
  logical_rules := List.nodup_nil
  foreign_keys := fun _ hr => absurd hr List.not_mem_nil
  location_bound := fun _ hl => absurd hl List.not_mem_nil
  rule_bound := fun _ hr => absurd hr List.not_mem_nil

theorem findLocation_some {store : Store R} (h : store.findLocation location = some l) :
    l ∈ store.locations ∧ l.pattern = location := by
  have hp := List.find?_some h
  exact ⟨List.mem_of_find?_eq_some h, of_decide_eq_true hp⟩

theorem findLocation_none {store : Store R} (h : store.findLocation location = none) :
    ∀ l ∈ store.locations, l.pattern ≠ location := by
  intro l hl he
  exact List.find?_eq_none.1 h l hl (decide_eq_true he)

theorem Store.Schema.findLocation_eq {store : Store R} (h : store.Schema)
    (hl : l ∈ store.locations) : store.findLocation l.pattern = some l := by
  cases hf : store.findLocation l.pattern with
  | none => exact absurd rfl (findLocation_none hf l hl)
  | some l' =>
    obtain ⟨hl', hp⟩ := findLocation_some hf
    rw [List.inj_on_of_nodup_map h.patterns hl' hl hp]

theorem rulesAt_some {store : Store R} (h : store.findLocation location = some l) :
    store.rulesAt location = (orderedRules store.rules l.id).reverse := by
  rw [Store.rulesAt, h]

/-- Evaluation takes the first rule consulted at the selected location that decides. -/
theorem evaluate_rulesAt {store : Store R} (h : store.Schema)
    (hs : LocationRulesDatabase.selectLocation store.locations path = some (location, locationId))
    (request : LocationRuleRequest R) :
    LocationRulesDatabase.evaluate store path request =
      match (store.rulesAt location).findSome? fun r =>
        (Rule.mk r.exprs.polish r.action).eval request with
      | some action => .ok ⟨location, action⟩
      | none => .error (.noRuleInSet location) := by
  have he := hs
  rw [selectLocation_eq] at he
  obtain ⟨e, hf, he⟩ := Option.map_eq_some_iff.1 he
  obtain ⟨hl, hk, -, -⟩ := firstMatch_some h.patterns hf
  rw [Prod.mk.injEq, hk] at he
  obtain ⟨rfl, rfl⟩ := he
  have hr : store.rulesAt e.2.patternWithTime.pattern =
      (orderedRules store.rules e.2.id).reverse := rulesAt_some (h.findLocation_eq hl)
  rw [LocationRulesDatabase.evaluate, hs, hr]
  rfl

theorem mem_orderedRules {rules : List (RuleModel R)} :
    r ∈ orderedRules rules locationId ↔ r ∈ rules ∧ r.locationId = locationId := by
  rw [orderedRules, mem_sortBy, List.mem_filter, beq_iff_eq]

theorem orderedRules_eq_nil {rules : List (RuleModel R)}
    (h : ∀ r ∈ rules, r.locationId ≠ locationId) : orderedRules rules locationId = [] := by
  apply List.eq_nil_iff_forall_not_mem.2
  intro r hr
  obtain ⟨hr, he⟩ := mem_orderedRules.1 hr
  exact h r hr he

section Locations

/-- Creating a location leaves the rules of every location as they are. -/
theorem insertLocation_valid {store : Store R} (hv : store.Valid) (now : DateTimeUtc)
    (hn : ∀ l ∈ store.locations, l.pattern ≠ location) :
    Store.Valid { store with
      locations := store.locations ++ [⟨store.nextLocation, location, now, now⟩]
      nextLocation := store.nextLocation + 1 } where
  location_ids := by
    rw [List.map_append, List.map_singleton]
    apply List.nodup_append.2
    refine ⟨hv.location_ids, List.nodup_singleton _, ?_⟩
    intro a ha b hb he
    obtain ⟨l, hl, rfl⟩ := List.mem_map.1 ha
    have hlt := hv.location_bound l hl
    have heq : l.id = store.nextLocation := he.trans (List.mem_singleton.1 hb)
    omega
  patterns := by
    rw [List.map_append, List.map_singleton]
    apply List.nodup_append.2
    refine ⟨hv.patterns, List.nodup_singleton _, ?_⟩
    intro a ha b hb he
    obtain ⟨l, hl, rfl⟩ := List.mem_map.1 ha
    rw [List.mem_singleton.1 hb] at he
    exact hn l hl he
  rule_ids := hv.rule_ids
  logical_rules := hv.logical_rules
  foreign_keys := by
    intro r hr
    obtain ⟨l, hl, he⟩ := hv.foreign_keys r hr
    exact ⟨l, List.mem_append_left _ hl, he⟩
  location_bound := by
    intro l hl
    change l.id < store.nextLocation + 1
    rcases List.mem_append.1 hl with hl | hl
    · have hlt := hv.location_bound l hl
      omega
    · rw [List.mem_singleton.1 hl]
      exact Int.lt_succ _
  rule_bound := hv.rule_bound

theorem tryInsertLocation_inserted {store : Store R}
    (h : store.tryInsertLocation location now = .ok (.inserted locationId, after)) :
    (∀ l ∈ store.locations, l.pattern ≠ location) ∧ locationId = store.nextLocation ∧
      after = { store with
        locations := store.locations ++ [⟨store.nextLocation, location, now, now⟩]
        nextLocation := store.nextLocation + 1 } := by
  rw [Store.tryInsertLocation] at h
  split at h
  · cases h
  · rename_i hn
    split at h
    · cases h
    · cases h
      refine ⟨?_, rfl, rfl⟩
      intro l hl he
      exact hn (List.any_eq_true.2 ⟨l, hl, decide_eq_true he⟩)

theorem tryInsertLocation_conflicted {store : Store R}
    (h : store.tryInsertLocation location now = .ok (.conflicted, after)) :
    ∃ l ∈ store.locations, l.pattern = location := by
  rw [Store.tryInsertLocation] at h
  split at h
  · rename_i ha
    obtain ⟨l, hl, hp⟩ := List.any_eq_true.1 ha
    exact ⟨l, hl, of_decide_eq_true hp⟩
  · split at h <;> cases h

theorem findLocation_append {store : Store R} (new : LocationModel R) (next : Int)
    (p : StoredPattern R) :
    Store.findLocation { store with
      locations := store.locations ++ [new]
      nextLocation := next } p =
      (store.findLocation p).or (if new.pattern = p then some new else none) := by
  change (store.locations ++ [new]).find? _ = _
  rw [List.find?_append, List.find?_singleton]
  by_cases hp : new.pattern = p
  · rw [if_pos hp, if_pos (decide_eq_true hp)]
    rfl
  · rw [if_neg hp, if_neg (by simpa using hp)]
    rfl

theorem matchOrCreateLocation_ok {store : Store R} (hv : store.Valid)
    (h : LocationService.matchOrCreateLocation now location store = .ok (locationId, after)) :
    after.Valid ∧ after.rules = store.rules ∧
      (∃ l, after.findLocation location = some l ∧ l.id = locationId) ∧
      ∀ p, after.rulesAt p = store.rulesAt p := by
  rw [LocationService.matchOrCreateLocation, LocationService.matchLocation] at h
  cases hf : store.findLocation location with
  | some l =>
    rw [hf] at h
    cases h
    exact ⟨hv, rfl, ⟨l, hf, rfl⟩, fun p => rfl⟩
  | none =>
    simp only [hf, Option.map_none] at h
    split at h
    · cases h
    · rename_i hi
      cases h
      obtain ⟨hn, rfl, rfl⟩ := tryInsertLocation_inserted hi
      let new : LocationModel R := ⟨store.nextLocation, location, now, now⟩
      refine ⟨insertLocation_valid hv now hn, rfl, ⟨new, ?_, rfl⟩, ?_⟩
      · rw [findLocation_append, hf, if_pos rfl]
        rfl
      · intro p
        rw [Store.rulesAt, findLocation_append, Store.rulesAt]
        cases hp : store.findLocation p with
        | some l => rfl
        | none =>
          by_cases he : location = p
          · rw [if_pos he]
            have hr : orderedRules store.rules store.nextLocation = [] := by
              apply orderedRules_eq_nil
              intro r hr he
              obtain ⟨l, hl, hid⟩ := hv.foreign_keys r hr
              have hlt := hv.location_bound l hl
              omega
            exact congrArg List.reverse hr
          · rw [if_neg he]
            rfl
    · rename_i hi
      obtain ⟨l, hl, hp⟩ := tryInsertLocation_conflicted hi
      exact absurd hp (findLocation_none hf l hl)

end Locations

section Rules

theorem updateRule_ok {store : Store R} (h : store.updateRule row = .ok (r, after)) :
    r = row ∧ (∃ old ∈ store.rules, old.id = row.id) ∧
      (∀ x ∈ store.rules, x.logicalKey = row.logicalKey → x.id = row.id) ∧
      after = { store with rules := store.rules.map (Store.replaceRow row) } := by
  rw [Store.updateRule] at h
  split at h
  · cases h
  · rename_i hm
    split at h
    · cases h
    · rename_i hu
      cases h
      rw [Bool.not_eq_true, Bool.not_eq_false', List.any_eq_true] at hm
      obtain ⟨old, hold, hid⟩ := hm
      refine ⟨rfl, ⟨old, hold, eq_of_beq hid⟩, ?_, rfl⟩
      intro x hx hk
      by_contra hne
      apply hu
      rw [List.any_eq_true]
      exact ⟨x, hx, by simp [hne, hk]⟩

theorem replaceRow_self (row : RuleModel R) (h : r.id = row.id) : Store.replaceRow row r = row :=
  if_pos h

theorem replaceRow_other (row : RuleModel R) (h : r.id ≠ row.id) : Store.replaceRow row r = r :=
  if_neg h

theorem replaceRow_id (row r : RuleModel R) : (Store.replaceRow row r).id = r.id := by
  by_cases h : r.id = row.id
  · rw [replaceRow_self row h, h]
  · rw [replaceRow_other row h]

theorem mem_map_replaceRow {rules : List (RuleModel R)}
    (h : r ∈ rules.map (Store.replaceRow row)) : r = row ∨ r ∈ rules ∧ r.id ≠ row.id := by
  obtain ⟨x, hx, rfl⟩ := List.mem_map.1 h
  by_cases hid : x.id = row.id
  · exact .inl (replaceRow_self row hid)
  · rw [replaceRow_other row hid]
    exact .inr ⟨hx, hid⟩

theorem map_replaceRow_perm {rules : List (RuleModel R)} (hn : (rules.map RuleModel.id).Nodup)
    (hold : old ∈ rules) (hid : old.id = row.id) :
    (rules.map (Store.replaceRow row)).Perm (row :: rules.filter fun r => r.id != row.id) := by
  induction rules with
  | nil => cases hold
  | cons r rules ih =>
    rw [List.map_cons, List.nodup_cons] at hn
    by_cases hr : r.id = row.id
    · have hne : ∀ x ∈ rules, x.id ≠ row.id := by
        intro x hx he
        rw [hr, ← he] at hn
        exact hn.1 (List.mem_map_of_mem hx)
      have hm : rules.map (Store.replaceRow row) = rules := by
        conv_rhs => rw [← List.map_id rules]
        apply List.map_congr_left
        intro x hx
        exact replaceRow_other row (hne x hx)
      have hf : (rules.filter fun r => r.id != row.id) = rules := by
        rw [List.filter_eq_self]
        intro x hx
        exact bne_iff_ne.2 (hne x hx)
      rw [List.map_cons, replaceRow_self row hr, hm, List.filter_cons_of_neg (by simp [hr]), hf]
    · have hmem : old ∈ rules := by
        rcases List.mem_cons.1 hold with rfl | hmem
        · exact absurd hid hr
        · exact hmem
      rw [List.map_cons, replaceRow_other row hr, List.filter_cons_of_pos (by simp [hr])]
      exact ((ih hn.2 hmem).cons r).trans (List.Perm.swap ..)

/-- An update that stays at its location keeps the constraints unless the index refuses it. -/
theorem updateRule_valid {store : Store R} (hv : store.Valid) (hold : old ∈ store.rules)
    (hid : old.id = row.id) (hl : old.locationId = row.locationId)
    (hk : ∀ x ∈ store.rules, x.logicalKey = row.logicalKey → x.id = row.id) :
    Store.Valid { store with rules := store.rules.map (Store.replaceRow row) } where
  location_ids := hv.location_ids
  patterns := hv.patterns
  rule_ids := by
    rw [List.map_map]
    have he : RuleModel.id ∘ Store.replaceRow row = RuleModel.id := funext (replaceRow_id row)
    rw [he]
    exact hv.rule_ids
  logical_rules := by
    have hp := (map_replaceRow_perm hv.rule_ids hold hid).map RuleModel.logicalKey
    rw [hp.nodup_iff, List.map_cons, List.nodup_cons]
    constructor
    · intro hm
      obtain ⟨x, hx, he⟩ := List.mem_map.1 hm
      obtain ⟨hx, hne⟩ := List.mem_filter.1 hx
      exact bne_iff_ne.1 hne (hk x hx he)
    · exact hv.logical_rules.sublist (List.filter_sublist.map _)
  foreign_keys := by
    intro r hr
    rcases mem_map_replaceRow hr with rfl | hr
    · rw [← hl]
      exact hv.foreign_keys old hold
    · exact hv.foreign_keys r hr.1
  location_bound := hv.location_bound
  rule_bound := by
    intro r hr
    rcases mem_map_replaceRow hr with rfl | hr
    · rw [← hid]
      exact hv.rule_bound old hold
    · exact hv.rule_bound r hr.1

theorem insertRule_valid {store : Store R} (hv : store.Valid) (row : RuleModel R)
    (hid : row.id = store.nextRule) (hl : ∃ l ∈ store.locations, l.id = row.locationId)
    (hk : ∀ r ∈ store.rules, r.logicalKey ≠ row.logicalKey) :
    Store.Valid { store with
      rules := store.rules ++ [row]
      nextRule := store.nextRule + 1 } where
  location_ids := hv.location_ids
  patterns := hv.patterns
  rule_ids := by
    rw [List.map_append, List.map_singleton]
    apply List.nodup_append.2
    refine ⟨hv.rule_ids, List.nodup_singleton _, ?_⟩
    intro a ha b hb he
    obtain ⟨r, hr, rfl⟩ := List.mem_map.1 ha
    have hlt := hv.rule_bound r hr
    rw [List.mem_singleton.1 hb, hid] at he
    omega
  logical_rules := by
    rw [List.map_append, List.map_singleton]
    apply List.nodup_append.2
    refine ⟨hv.logical_rules, List.nodup_singleton _, ?_⟩
    intro a ha b hb he
    obtain ⟨r, hr, rfl⟩ := List.mem_map.1 ha
    rw [List.mem_singleton.1 hb] at he
    exact hk r hr he
  foreign_keys := by
    intro r hr
    rcases List.mem_append.1 hr with hr | hr
    · exact hv.foreign_keys r hr
    · rw [List.mem_singleton.1 hr]
      exact hl
  location_bound := hv.location_bound
  rule_bound := by
    intro r hr
    change r.id < store.nextRule + 1
    rcases List.mem_append.1 hr with hr | hr
    · have hlt := hv.rule_bound r hr
      omega
    · rw [List.mem_singleton.1 hr, hid]
      exact Int.lt_succ _

theorem orderedRules_deleteRules {store : Store R} (h : (store.rules.map RuleModel.id).Nodup)
    (ids : List Int) (locationId : Int) :
    orderedRules (store.deleteRules ids).rules locationId =
      (orderedRules store.rules locationId).filter (·.id ∉ ids) := by
  rw [orderedRules, Store.deleteRules, List.filter_comm, sortBy_filter, orderedRules]
  intro r hr r' hr'
  exact cmp_eq_imp h r (List.mem_of_mem_filter hr) r' (List.mem_of_mem_filter hr')

theorem deleteRules_valid {store : Store R} (hv : store.Valid) (ids : List Int) :
    (store.deleteRules ids).Valid where
  location_ids := hv.location_ids
  patterns := hv.patterns
  rule_ids := hv.rule_ids.sublist (List.filter_sublist.map _)
  logical_rules := hv.logical_rules.sublist (List.filter_sublist.map _)
  foreign_keys := fun r hr => hv.foreign_keys r (List.mem_of_mem_filter hr)
  location_bound := hv.location_bound
  rule_bound := fun r hr => hv.rule_bound r (List.mem_of_mem_filter hr)

/-- The cascade keeps every rule at a location. -/
theorem deleteLocation_valid {store : Store R} (hv : store.Valid) (id : Int) :
    (store.deleteLocation id).Valid where
  location_ids := hv.location_ids.sublist (List.filter_sublist.map _)
  patterns := hv.patterns.sublist (List.filter_sublist.map _)
  rule_ids := hv.rule_ids.sublist (List.filter_sublist.map _)
  logical_rules := hv.logical_rules.sublist (List.filter_sublist.map _)
  foreign_keys := by
    intro r hr
    obtain ⟨hr, hne⟩ := List.mem_filter.1 hr
    obtain ⟨l, hl, he⟩ := hv.foreign_keys r hr
    rw [← he] at hne
    exact ⟨l, List.mem_filter.2 ⟨hl, hne⟩, he⟩
  location_bound := fun l hl => hv.location_bound l (List.mem_of_mem_filter hl)
  rule_bound := fun r hr => hv.rule_bound r (List.mem_of_mem_filter hr)

end Rules

end Dhttp.Access
