import Dhttp.Access.RuleStoreSteps

namespace Dhttp.Access
open Dhttp.Lib
set_option autoImplicit true

variable {R : RegexLib}

def sameRule (action : RequestAction) (expr : StoredExprs R) (r : RuleModel R) : Bool :=
  decide (r.action = action ∧ r.exprs.polishText = expr.polishText)

theorem logicalKey_eq_iff {r : RuleModel R} :
    r.logicalKey = (locationId, action, expr.polishText) ↔
      r.locationId = locationId ∧ sameRule action expr r = true := by
  rw [RuleModel.logicalKey, Prod.mk.injEq, Prod.mk.injEq, sameRule, decide_eq_true_eq]

theorem existingRule_some {store : Store R}
    (h : LocationService.existingRule store locationId action expr = some existing) :
    existing ∈ store.rules ∧ existing.locationId = locationId ∧
      sameRule action expr existing = true := by
  have hm := List.mem_of_find?_eq_some h
  rw [mem_sortBy, List.mem_filter, Bool.and_eq_true, beq_iff_eq, beq_iff_eq] at hm
  obtain ⟨hm, hl, ha⟩ := hm
  have hp := List.find?_some h
  rw [StoredExprs.polish_beq_iff] at hp
  exact ⟨hm, hl, decide_eq_true ⟨ha, hp⟩⟩

theorem existingRule_none {store : Store R}
    (h : LocationService.existingRule store locationId action expr = none) :
    ∀ r ∈ store.rules, r.logicalKey ≠ (locationId, action, expr.polishText) := by
  intro r hr hk
  obtain ⟨hl, hs⟩ := logicalKey_eq_iff.1 hk
  obtain ⟨ha, hp⟩ := of_decide_eq_true hs
  have hm : r ∈ sortBy RuleModel.cmp (store.rules.filter fun r =>
      r.locationId == locationId && r.action == action) := by
    rw [mem_sortBy, List.mem_filter, Bool.and_eq_true, beq_iff_eq, beq_iff_eq]
    exact ⟨hr, hl, ha⟩
  exact List.find?_eq_none.1 h r hm (StoredExprs.polish_beq_iff.2 hp)

section Order

variable {rules : List (RuleModel R)}

theorem orderedRules_append_last (row : RuleModel R) (hi : (rules.map RuleModel.id).Nodup)
    (ht : ∀ r ∈ rules, r.createdAt < row.createdAt) :
    orderedRules (rules ++ [row]) row.locationId = orderedRules rules row.locationId ++ [row] := by
  have hrow : [row].filter (·.locationId == row.locationId) = [row] :=
    List.filter_cons_of_pos (beq_self_eq_true row.locationId)
  rw [orderedRules, List.filter_append, hrow]
  apply sortBy_last (List.perm_append_singleton ..)
  · intro r hr
    exact RuleModel.cmp_lt (ht r (List.mem_of_mem_filter hr))
  · intro r hr r' hr'
    exact cmp_eq_imp hi r (List.mem_of_mem_filter hr) r' (List.mem_of_mem_filter hr')

theorem orderedRules_append_other (row : RuleModel R) (hne : row.locationId ≠ locationId) :
    orderedRules (rules ++ [row]) locationId = orderedRules rules locationId := by
  rw [orderedRules, List.filter_append, List.filter_cons_of_neg (by simpa using hne),
    List.filter_nil, List.append_nil, orderedRules]

variable {row : RuleModel R}
  (hl : ∀ r ∈ rules, r.id = row.id → r.locationId = row.locationId)
include hl

theorem filter_replaceRow (locationId : Int) :
    (rules.map (Store.replaceRow row)).filter (·.locationId == locationId) =
      (rules.filter (·.locationId == locationId)).map (Store.replaceRow row) := by
  rw [List.filter_map]
  congr 1
  apply List.filter_congr
  intro r hr
  by_cases hid : r.id = row.id
  · rw [Function.comp_apply, replaceRow_self row hid, hl r hr hid]
  · rw [Function.comp_apply, replaceRow_other row hid]

theorem orderedRules_replace_other (hne : row.locationId ≠ locationId) :
    orderedRules (rules.map (Store.replaceRow row)) locationId =
      orderedRules rules locationId := by
  rw [orderedRules, filter_replaceRow hl, orderedRules]
  congr 1
  conv_rhs => rw [← List.map_id (rules.filter _)]
  apply List.map_congr_left
  intro r hr
  obtain ⟨hr, he⟩ := List.mem_filter.1 hr
  apply replaceRow_other
  intro hid
  rw [beq_iff_eq, hl r hr hid] at he
  exact hne he

/-- A row that becomes the newest moves to the end. -/
theorem orderedRules_refresh (hi : (rules.map RuleModel.id).Nodup) (hold : old ∈ rules)
    (hid : old.id = row.id) (ht : ∀ r ∈ rules, r.createdAt < row.createdAt) :
    orderedRules (rules.map (Store.replaceRow row)) row.locationId =
      (orderedRules rules row.locationId).filter (fun r => r.id != row.id) ++ [row] := by
  have hcmp : ∀ r ∈ rules.filter (·.locationId == row.locationId),
      ∀ r' ∈ rules.filter (·.locationId == row.locationId), r.cmp r' = .eq → r = r' := by
    intro r hr r' hr'
    exact cmp_eq_imp hi r (List.mem_of_mem_filter hr) r' (List.mem_of_mem_filter hr')
  have hmem : old ∈ rules.filter (·.locationId == row.locationId) :=
    List.mem_filter.2 ⟨hold, beq_iff_eq.2 (hl old hold hid)⟩
  have hp := map_replaceRow_perm (hi.sublist (List.filter_sublist.map _)) hmem hid
  rw [orderedRules, filter_replaceRow hl, orderedRules, ← sortBy_filter hcmp]
  apply sortBy_last hp
  · intro r hr
    exact RuleModel.cmp_lt (ht r (List.mem_of_mem_filter (List.mem_of_mem_filter hr)))
  · intro r hr r' hr'
    exact hcmp r (List.mem_of_mem_filter hr) r' (List.mem_of_mem_filter hr')

/-- A row that keeps its creation time keeps its place. -/
theorem orderedRules_replace (ht : ∀ r ∈ rules, r.id = row.id → r.createdAt = row.createdAt)
    (locationId : Int) : orderedRules (rules.map (Store.replaceRow row)) locationId =
      (orderedRules rules locationId).map (Store.replaceRow row) := by
  have hc {r : RuleModel R} (hr : r ∈ rules) :
      (Store.replaceRow row r).createdAt = r.createdAt := by
    by_cases hid : r.id = row.id
    · rw [replaceRow_self row hid, ht r hr hid]
    · rw [replaceRow_other row hid]
  rw [orderedRules, filter_replaceRow hl]
  apply sortBy_map
  intro r hr r' hr'
  rw [RuleModel.cmp, RuleModel.cmp, replaceRow_id, replaceRow_id,
    hc (List.mem_of_mem_filter hr), hc (List.mem_of_mem_filter hr')]

end Order

/-- Rules consulted at a location of a valid store that are the same rule have the same id. -/
theorem Store.Valid.sameRule_id {store : Store R} (hv : store.Valid) (hr : r ∈ store.rules)
    (hr' : r' ∈ store.rules) (hl : r.locationId = r'.locationId)
    (hs : sameRule action expr r = true) (hs' : sameRule action expr r' = true) : r = r' := by
  apply List.inj_on_of_nodup_map hv.logical_rules hr hr'
  rw [logicalKey_eq_iff.2 ⟨hl, hs⟩, logicalKey_eq_iff.2 ⟨rfl, hs'⟩]

/-- The four ways through `append_rule_internal`; a conflict is never met. -/
theorem appendRuleInternal_cases {store : Store R}
    (h : LocationService.appendRuleInternal clock location action expr store = .ok (r, after)) :
    ∃ locationId middle,
      LocationService.matchOrCreateLocation clock.location location store =
        .ok (locationId, middle) ∧
      ((∃ existing,
          LocationService.existingRule middle locationId action expr = some existing ∧
          middle.updateRule { existing with createdAt := clock.rule, updatedAt := clock.rule } =
            .ok (r, after)) ∨
        (LocationService.existingRule middle locationId action expr = none ∧
          (∃ l ∈ middle.locations, l.id = locationId) ∧
          after = { middle with
            rules := middle.rules ++ [middle.newRule locationId action expr clock.rule]
            nextRule := middle.nextRule + 1 } ∧
          after.findRule middle.nextRule = some r)) := by
  rw [LocationService.appendRuleInternal] at h
  obtain ⟨⟨locationId, middle⟩, hm, h⟩ := ok_of_bind h
  refine ⟨locationId, middle, ok_of_mapError hm, ?_⟩
  cases he : LocationService.existingRule middle locationId action expr with
  | some existing =>
    simp only [he] at h
    exact .inl ⟨existing, rfl, ok_of_mapError h⟩
  | none =>
    simp only [he] at h
    obtain ⟨⟨result, middle'⟩, hi, h⟩ := ok_of_bind h
    have hi' := ok_of_mapError hi
    rw [Store.tryInsertRule] at hi'
    split at hi'
    · rename_i hc
      obtain ⟨x, hx, hk⟩ := List.any_eq_true.1 hc
      exact absurd (of_decide_eq_true hk) (existingRule_none he x hx)
    · split at hi'
      · cases hi'
      · rename_i hl
        split at hi'
        · cases hi'
        · cases hi'
          right
          rw [Bool.not_eq_true, Bool.not_eq_false', List.any_eq_true] at hl
          obtain ⟨l, hl, hid⟩ := hl
          refine ⟨rfl, ⟨l, hl, eq_of_beq hid⟩, ?_⟩
          dsimp only at h
          split at h
          · rename_i hf
            cases h
            exact ⟨rfl, hf⟩
          · cases h

end Dhttp.Access
