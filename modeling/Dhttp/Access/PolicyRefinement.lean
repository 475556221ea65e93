import Mathlib.Data.List.Find
import Dhttp.Lib.Refinement
import Dhttp.Access.Policy

namespace Dhttp.Access
open Dhttp.Lib
set_option autoImplicit true

variable {R : RegexLib} {store : Store R}

/-- A row and the store after it was written, as the rule and the policy they stand for. -/
def StandsFor (out : RuleModel R × Store R) (q : PolicyRule R × Policy R) : Prop :=
  out.1.policyRule = q.1 ∧ out.2.policy = q.2

section Append

theorem Appends.rulesAt_eq {before after : Store R}
    (h : Appends before after location action expr r) :
    after.rulesAt location =
      r :: (before.rulesAt location).filter (!sameRule action expr ·) := by
  have hfirst := h.first
  have honce := h.once
  have hothers := h.others
  generalize after.rulesAt location = rules at hfirst honce hothers
  cases rules with
  | nil => cases hfirst
  | cons x rules =>
    cases hfirst
    rw [List.filter_cons_of_pos h.same, List.cons.injEq] at honce
    have hn : ∀ x ∈ rules, ¬ sameRule action expr x = true := List.filter_eq_nil_iff.1 honce.2
    have hall : rules.filter (!sameRule action expr ·) = rules := by
      apply List.filter_eq_self.2
      intro x hx
      simp [hn x hx]
    rw [← hothers, List.filter_cons_of_neg (by simp [h.same]), hall]

theorem create_agrees (hv : store.Valid) (now : DateTimeUtc) (location : StoredPattern R) :
    Agrees (fun out p => out.2.policy = p ∧ out.2.Valid ∧ out.2.rules = store.rules ∧
        ∃ l, out.2.findLocation location = some l ∧ l.id = out.1)
      (LocationService.matchOrCreateLocation now location store)
      (store.policy.create now location) := by
  cases hf : store.findLocation location with
  | some l =>
    have hm : LocationService.matchOrCreateLocation now location store = .ok (l.id, store) := by
      rw [LocationService.matchOrCreateLocation, LocationService.matchLocation, hf]
      rfl
    rw [Policy.create, if_pos (findLocation_isSome_iff.1 ⟨l, hf⟩), hm]
    exact .done ⟨rfl, hv, rfl, l, hf, rfl⟩
  | none =>
    have hnew : ¬ (store.locations.any fun l => decide (l.pattern = location)) = true := by
      intro ha
      obtain ⟨l, hl, hp⟩ := List.any_eq_true.1 ha
      exact findLocation_none hf l hl (of_decide_eq_true hp)
    have hm : LocationService.matchLocation store location = none := by
      rw [LocationService.matchLocation, hf]
      rfl
    rw [Policy.create, if_neg (not_has_of_findLocation hf)]
    by_cases hmax : maxId < store.nextLocation
    · have he : LocationService.matchOrCreateLocation now location store =
          .error (.insertLocation .idOverflow) := by
        rw [LocationService.matchOrCreateLocation, hm, Store.tryInsertLocation, if_neg hnew,
          if_pos hmax]
      rw [he]
      exact if_pos hmax ▸ .fail
    · let after : Store R := { store with
        locations := store.locations ++ [⟨store.nextLocation, location, now, now⟩]
        nextLocation := store.nextLocation + 1 }
      have he : LocationService.matchOrCreateLocation now location store =
          .ok (store.nextLocation, after) := by
        rw [LocationService.matchOrCreateLocation, hm, Store.tryInsertLocation, if_neg hnew,
          if_neg hmax]
      obtain ⟨hav, hr, hl, hat⟩ := matchOrCreateLocation_ok hv he
      rw [he]
      have hp : after.policy = { store.policy with
          locations := store.policy.locations ++ [⟨timestampMicros now, location⟩]
          nextLocation := store.policy.nextLocation + 1 } := by
        apply Policy.ext
        · exact List.map_append
        · funext p
          exact congrArg _ (hat p)
        · rfl
        · rfl
      have hpn : ¬ maxId < store.policy.nextLocation := hmax
      rw [if_neg hpn]
      exact .done ⟨hp, hav, hr, hl⟩

theorem find_repeats (hv : store.Valid) (hf : store.findLocation location = some l) :
    (store.policy.rules location).find? (PolicyRule.repeats action expr) =
      (LocationService.existingRule store l.id action expr).map RuleModel.policyRule := by
  have hview : PolicyRule.repeats action expr ∘ RuleModel.policyRule =
      sameRule (R := R) action expr := rfl
  rw [policy_rules hf, List.find?_map, hview]
  congr 1
  cases he : LocationService.existingRule store l.id action expr with
  | none =>
    rw [List.find?_eq_none]
    intro r hr hs
    rw [List.mem_reverse, mem_orderedRules] at hr
    exact existingRule_none he r hr.1 (logicalKey_eq_iff.2 ⟨hr.2, hs⟩)
  | some existing =>
    obtain ⟨hx, hl, hs⟩ := existingRule_some he
    cases hfind : (orderedRules store.rules l.id).reverse.find? (sameRule action expr) with
    | none =>
      have hmem := List.mem_reverse.2 (mem_orderedRules.2 ⟨hx, hl⟩)
      exact absurd hs (List.find?_eq_none.1 hfind existing hmem)
    | some r =>
      have hr := List.mem_reverse.1 (List.mem_of_find?_eq_some hfind)
      obtain ⟨hr, hrl⟩ := mem_orderedRules.1 hr
      have hrs := List.find?_some hfind
      rw [hv.sameRule_id hr hx (hrl.trans hl.symm) hrs hs]

theorem updateRule_done {row : RuleModel R} (hold : ∃ old ∈ store.rules, old.id = row.id)
    (hk : ∀ x ∈ store.rules, x.logicalKey = row.logicalKey → x.id = row.id) :
    store.updateRule row =
      .ok (row, { store with rules := store.rules.map (Store.replaceRow row) }) := by
  have hany : ¬ (!store.rules.any (·.id == row.id)) = true := by
    obtain ⟨old, ho, hid⟩ := hold
    have ha : store.rules.any (·.id == row.id) = true :=
      List.any_eq_true.2 ⟨old, ho, beq_iff_eq.2 hid⟩
    simp [ha]
  have hu : ¬ (store.rules.any fun r => r.id != row.id && decide (r.logicalKey = row.logicalKey)) =
      true := by
    intro ha
    obtain ⟨x, hx, hp⟩ := List.any_eq_true.1 ha
    rw [Bool.and_eq_true, bne_iff_ne, decide_eq_true_eq] at hp
    exact hp.1 (hk x hx hp.2)
  rw [Store.updateRule, if_neg hany, if_neg hu]

theorem updateRule_refused {row : RuleModel R} (hold : ∃ old ∈ store.rules, old.id = row.id)
    (hk : ¬ ∀ x ∈ store.rules, x.logicalKey = row.logicalKey → x.id = row.id) :
    store.updateRule row = .error .uniqueViolation := by
  have hany : ¬ (!store.rules.any (·.id == row.id)) = true := by
    obtain ⟨old, ho, hid⟩ := hold
    have ha : store.rules.any (·.id == row.id) = true :=
      List.any_eq_true.2 ⟨old, ho, beq_iff_eq.2 hid⟩
    simp [ha]
  push Not at hk
  obtain ⟨x, hx, hkey, hne⟩ := hk
  have hu : (store.rules.any fun r => r.id != row.id && decide (r.logicalKey = row.logicalKey)) =
      true :=
    List.any_eq_true.2 ⟨x, hx, by simp [hne, hkey]⟩
  rw [Store.updateRule, if_neg hany, if_pos hu]

theorem findRule_mem (hv : store.Valid) {row : RuleModel R} (hm : row ∈ store.rules) :
    store.findRule row.id = some row := by
  cases hc : store.findRule row.id with
  | none => exact absurd (beq_self_eq_true row.id) (List.find?_eq_none.1 hc row hm)
  | some found =>
    have hid := List.find?_some hc
    rw [List.inj_on_of_nodup_map hv.rule_ids (List.mem_of_find?_eq_some hc) hm (eq_of_beq hid)]

theorem appends_policy {before after : Store R} (h : Appends before after location action expr r)
    (hl : after.locations = before.locations) (hn : after.nextLocation = before.nextLocation) :
    after.policy = { before.policy.setRules location
      (r.policyRule :: (before.policy.rules location).filter fun r => !r.repeats action expr) with
      nextRule := after.nextRule } := by
  apply policy_written hl hn _ h.elsewhere
  have hrules : before.policy.rules location =
      (before.rulesAt location).map RuleModel.policyRule := rfl
  rw [h.rulesAt_eq, List.map_cons, hrules, List.filter_map]
  rfl

theorem promote_agrees {clock : Clock} (hv : store.Valid)
    (hf : store.findLocation location = some l)
    (ht : ∀ r ∈ store.rules, r.createdAt < clock.rule) :
    Agrees StandsFor
      (match LocationService.existingRule store l.id action expr with
        | some existing => LocationService.refreshRulePriority clock.rule existing store
        | none => do
          let (result, store) ← (store.tryInsertRule l.id action expr clock.rule).mapError
            AppendRuleError.insertRule
          match result with
          | .inserted id =>
            match store.findRule id with
            | some inserted => .ok (inserted, store)
            | none => .error (.insertedRuleMissing id)
          | .conflicted =>
            match LocationService.existingRule store l.id action expr with
            | some existing => LocationService.refreshRulePriority clock.conflict existing store
            | none => .error .conflictingRuleMissing)
      (store.policy.promote location action expr) := by
  rw [Policy.promote, find_repeats hv hf]
  cases he : LocationService.existingRule store l.id action expr with
  | some existing =>
    obtain ⟨hx, hl, hs⟩ := existingRule_some he
    let row : RuleModel R := { existing with createdAt := clock.rule, updatedAt := clock.rule }
    have hk : ∀ x ∈ store.rules, x.logicalKey = row.logicalKey → x.id = row.id := by
      intro x hmem hkey
      rw [List.inj_on_of_nodup_map hv.logical_rules hmem hx hkey]
    have hid : existing.id = row.id := rfl
    have hrl : row.locationId = l.id := hl
    have hrs : sameRule action expr row = true := hs
    have hu := updateRule_done ⟨existing, hx, hid⟩ hk
    obtain ⟨-, happ⟩ := refresh_appends hv hf hx hid hl hrl hs hrs ht hu
    have hr : LocationService.refreshRulePriority clock.rule existing store =
        .ok (row, { store with rules := store.rules.map (Store.replaceRow row) }) := by
      rw [LocationService.refreshRulePriority, hu]
      rfl
    have hp := appends_policy happ rfl rfl
    simp only [Option.map_some, hr]
    exact .done ⟨rfl, hp⟩
  | none =>
    have hn := existingRule_none he
    have hnew : ¬ (store.rules.any fun r => decide (r.logicalKey =
        (store.newRule l.id action expr clock.rule).logicalKey)) = true := by
      intro ha
      obtain ⟨x, hx, hk⟩ := List.any_eq_true.1 ha
      exact hn x hx (of_decide_eq_true hk)
    have hloc : ¬ (!store.locations.any (·.id == l.id)) = true := by
      have ha : store.locations.any (·.id == l.id) = true :=
        List.any_eq_true.2 ⟨l, (findLocation_some hf).1, beq_self_eq_true _⟩
      simp [ha]
    by_cases hmax : maxId < store.nextRule
    · have hi : store.tryInsertRule l.id action expr clock.rule = .error .idOverflow := by
        rw [Store.tryInsertRule, if_neg hnew, if_neg hloc, if_pos hmax]
      simp only [hi, Option.map_none]
      exact if_pos hmax ▸ .fail
    · let row := store.newRule l.id action expr clock.rule
      let after : Store R := { store with rules := store.rules ++ [row]
                                          nextRule := store.nextRule + 1 }
      have hi : store.tryInsertRule l.id action expr clock.rule =
          .ok (.inserted store.nextRule, after) := by
        rw [Store.tryInsertRule, if_neg hnew, if_neg hloc, if_neg hmax]
      have hfind : after.findRule store.nextRule = some row := by
        have hnone : store.rules.find? (·.id == store.nextRule) = none := by
          rw [List.find?_eq_none]
          intro r hr hid
          have hlt := hv.rule_bound r hr
          rw [beq_iff_eq] at hid
          omega
        change (store.rules ++ [row]).find? _ = _
        rw [List.find?_append, hnone, Option.none_or]
        exact List.find?_cons_of_pos (beq_self_eq_true store.nextRule)
      obtain ⟨-, happ⟩ := insert_appends hv hf hn ht rfl hfind
      have hall : ((store.policy.rules location).filter fun r => !r.repeats action expr) =
          store.policy.rules location := by
        apply List.filter_eq_self.2
        intro r hr
        obtain ⟨x, hx, hxl, rfl⟩ := (mem_policy_rules hf).1 hr
        have hns : ¬ sameRule action expr x = true := by
          intro hs
          exact hn x hx (logicalKey_eq_iff.2 ⟨hxl, hs⟩)
        rw [repeats_policyRule]
        simp [hns]
      have hp := appends_policy happ rfl rfl
      rw [hall] at hp
      have hpn : ¬ maxId < store.policy.nextRule := hmax
      simp only [hi, Option.map_none, if_neg hpn]
      change Agrees StandsFor (match after.findRule store.nextRule with
        | some inserted => .ok (inserted, after)
        | none => .error (AppendRuleError.insertedRuleMissing store.nextRule)) _
      rw [hfind]
      exact .done ⟨rfl, hp⟩

theorem append_agrees (hv : store.Valid) (ht : ∀ r ∈ store.rules, r.createdAt < clock.rule)
    (location : StoredPattern R) (action : RequestAction) (expr : StoredExprs R) :
    Agrees StandsFor (LocationService.appendRuleInternal clock location action expr store)
      (store.policy.append clock location action expr) := by
  rw [LocationService.appendRuleInternal, Policy.append]
  apply ((create_agrees hv clock.location location).mapError _).bind
  intro out p h
  obtain ⟨locationId, middle⟩ := out
  obtain ⟨rfl, hmv, hmr, l, hf, rfl⟩ := h
  dsimp only at hmr
  rw [← hmr] at ht
  exact promote_agrees hmv hf ht

end Append

section Replace

theorem replaceRow_policyRule (row r : RuleModel R) :
    (Store.replaceRow row r).policyRule =
      if r.policyRule.id = row.id then row.policyRule else r.policyRule := by
  change (if r.id = row.id then row else r).policyRule = if r.id = row.id then _ else _
  split <;> rfl

theorem replace_agrees (hv : store.Valid) (clock : Clock) (location : StoredPattern R) (id : Int)
    (action : RequestAction) (expr : StoredExprs R) :
    Agrees StandsFor (LocationService.replaceRuleById clock location id action expr store)
      (store.policy.replace location id action expr) := by
  rw [Policy.replace]
  cases hf : store.findLocation location with
  | none =>
    have he : LocationService.locate store location = .error (.locationNotExist location) := by
      rw [LocationService.locate, LocationService.matchLocation, hf]
      rfl
    have hn : ¬ ∃ r ∈ store.policy.rules location, r.id = id := by
      rw [policy_rules_none hf]
      simp
    rw [LocationService.replaceRuleById, he, if_neg fun h => hn h.1]
    exact .fail
  | some l =>
    by_cases hid : ∃ row ∈ store.rules, row.id = id ∧ row.locationId = l.id
    · obtain ⟨current, hm, rfl, hl⟩ := hid
      let row : RuleModel R :=
        { current with action := action, exprs := expr, updatedAt := clock.rule }
      have hfind := findRule_mem hv hm
      have hkey (x : RuleModel R) : x.logicalKey = row.logicalKey ↔
          x.locationId = l.id ∧ sameRule action expr x = true := by
        have hrow : row.logicalKey = (l.id, action, expr.polishText) := by
          rw [← hl]
          rfl
        rw [hrow, logicalKey_eq_iff]
      have hunique : (∀ x ∈ store.rules, x.logicalKey = row.logicalKey → x.id = row.id) ↔
          ∀ r ∈ store.policy.rules location, r.repeats action expr = true → r.id = current.id := by
        constructor
        · intro h r hr hs
          obtain ⟨x, hx, hxl, rfl⟩ := (mem_policy_rules hf).1 hr
          exact h x hx ((hkey x).2 ⟨hxl, hs⟩)
        · intro h x hx hk
          obtain ⟨hxl, hs⟩ := (hkey x).1 hk
          exact h x.policyRule ((mem_policy_rules hf).2 ⟨x, hx, hxl, rfl⟩) hs
      have hthere : ∃ r ∈ store.policy.rules location, r.id = current.id :=
        ⟨current.policyRule, (mem_policy_rules hf).2 ⟨current, hm, hl, rfl⟩, rfl⟩
      have hstep : LocationService.replaceRuleById clock location current.id action expr store =
          (store.updateRule row).mapError .updateRule := by
        rw [LocationService.replaceRuleById, locate_found hf]
        simp only [Except.mapError, bind, Except.bind, hfind]
        rw [if_neg (not_not.2 hl)]
      have hold : ∃ old ∈ store.rules, old.id = row.id := ⟨current, hm, rfl⟩
      by_cases hu : ∀ x ∈ store.rules, x.logicalKey = row.logicalKey → x.id = row.id
      · have hdone := updateRule_done hold hu
        have hok : LocationService.replaceRuleById clock location current.id action expr store =
            .ok (row, { store with rules := store.rules.map (Store.replaceRow row) }) := by
          rw [hstep, hdone]
          rfl
        obtain ⟨-, hrep⟩ := replace_step hv hok
        have hat : (Store.rulesAt { store with rules := store.rules.map (Store.replaceRow row) }
            location).map RuleModel.policyRule = (store.policy.rules location).map fun r =>
              if r.id = current.id then ⟨current.id, action, expr⟩ else r := by
          have hrules : store.policy.rules location =
              (store.rulesAt location).map RuleModel.policyRule := rfl
          rw [hrep.place, hrules, List.map_map, List.map_map]
          apply List.map_congr_left
          intro r _
          exact replaceRow_policyRule row r
        rw [hok, if_pos ⟨hthere, hunique.1 hu⟩]
        exact .done ⟨rfl, policy_written rfl rfl hat hrep.elsewhere⟩
      · rw [hstep, updateRule_refused hold hu, if_neg fun h => hu (hunique.2 h.2)]
        exact .fail
    · have hn : ¬ ∃ r ∈ store.policy.rules location, r.id = id := by
        intro h
        obtain ⟨r, hr, he⟩ := h
        obtain ⟨x, hx, hxl, rfl⟩ := (mem_policy_rules hf).1 hr
        exact hid ⟨x, hx, he, hxl⟩
      have he : LocationService.replaceRuleById clock location id action expr store =
          .error (.rule (.replaceRuleIdNotExist id)) := by
        rw [LocationService.replaceRuleById, locate_found hf]
        simp only [Except.mapError, bind, Except.bind]
        cases hc : store.findRule id with
        | none => rfl
        | some current =>
          have hcid := List.find?_some hc
          have hne : current.locationId ≠ l.id := by
            intro hl
            exact hid ⟨current, List.mem_of_find?_eq_some hc, eq_of_beq hcid, hl⟩
          exact if_pos hne
      rw [he, if_neg fun h => hn h.1]
      exact .fail

end Replace

section Remove

/-- The unique index leaves nothing to hide. -/
theorem deduplicateRules_ordered (hv : store.Valid) (locationId : Int) :
    deduplicateRules (orderedRules store.rules locationId) =
      orderedRules store.rules locationId := by
  apply deduplicateRules_of_pairwise
  have hp := pairwise_distinct hv.logical_rules locationId
  apply (List.Perm.pairwise_iff _ (sortBy_perm _)).2 hp
  intro r r' h
  rw [Bool.eq_false_iff] at h ⊢
  intro hs
  obtain ⟨ha, ht⟩ := sameLogicalRule_iff.1 hs
  exact h (sameLogicalRule_iff.2 ⟨ha.symm, ht.symm⟩)

theorem removed_policy (hf : store.findLocation location = some l) {ids : List Int}
    (hat : (orderedRules (store.deleteRules ids).rules l.id).reverse.map RuleModel.policyRule =
      rules)
    (helse : ∀ other, other ≠ l.id →
      orderedRules (store.deleteRules ids).rules other = orderedRules store.rules other)
    (hv : store.Valid) :
    (store.deleteRules ids).policy = store.policy.setRules location rules := by
  have hfa : (store.deleteRules ids).findLocation location = some l := hf
  have hr : ((store.deleteRules ids).rulesAt location).map RuleModel.policyRule = rules := by
    rw [rulesAt_some hfa, hat]
  have he : ∀ p, p ≠ location → (store.deleteRules ids).rulesAt p = store.rulesAt p :=
    rulesAt_elsewhere hv.toSchema hf helse
  exact policy_written rfl rfl hr he

theorem removeAt_agrees (hv : store.Valid) (location : StoredPattern R) (sequence : List Nat) :
    Agrees (fun after p => after.policy = p)
      (LocationService.removeRules location sequence store)
      (store.policy.removeAt location sequence) := by
  rw [Policy.removeAt]
  cases hf : store.findLocation location with
  | none =>
    have he : LocationService.locate store location = .error (.locationNotExist location) := by
      rw [LocationService.locate, LocationService.matchLocation, hf]
      rfl
    rw [LocationService.removeRules, he, if_neg fun h => not_has_of_findLocation hf h.1]
    exact .fail
  | some l =>
    have hhas := findLocation_isSome_iff.1 ⟨l, hf⟩
    have hlen : (store.policy.rules location).length =
        (deduplicateRules (orderedRules store.rules l.id)).length := by
      rw [policy_rules hf, List.length_map, List.length_reverse, deduplicateRules_ordered hv]
    by_cases hin : ∀ seq ∈ sequence, seq < (store.policy.rules location).length
    · rw [if_pos ⟨hhas, hin⟩]
      rw [hlen] at hin
      obtain ⟨selected, hs, hmem⟩ := selectRules_ok hin
      rw [removeRules_found hf hs]
      apply Agrees.done
      apply removed_policy hf _ _ hv
      · have hd := deduplicateRules_deleted hv.rule_ids l.id hmem
        rw [deduplicateRules_ordered (deleteRules_valid hv _), deduplicateRules_ordered hv] at hd
        rw [hd, policy_rules hf, ← List.map_reverse, List.reverse_reverse, withoutPositions_map,
          List.map_reverse]
      · intro other hne
        exact orderedRules_kept hv.rule_ids (fun r hr => mem_orderedRules.1 hr) hne selected
    · rw [if_neg fun h => hin h.2]
      rw [hlen] at hin
      push Not at hin
      obtain ⟨seq, -, -, hs⟩ := selectRules_error hin
      rw [removeRules_missing hf hs]
      exact .fail

theorem removeIds_agrees (hv : store.Valid) (location : StoredPattern R) (ids : List Int) :
    Agrees (fun after p => after.policy = p)
      (LocationService.removeRulesByIds location ids store)
      (store.policy.removeIds location ids) := by
  rw [Policy.removeIds]
  cases hf : store.findLocation location with
  | none =>
    have he : LocationService.locate store location = .error (.locationNotExist location) := by
      rw [LocationService.locate, LocationService.matchLocation, hf]
      rfl
    rw [LocationService.removeRulesByIds, he, if_neg fun h => not_has_of_findLocation hf h.1]
    exact .fail
  | some l =>
    have hhas := findLocation_isSome_iff.1 ⟨l, hf⟩
    have hiff : (∀ id ∈ ids, ∃ r ∈ store.policy.rules location, r.id = id) ↔
        ∀ id ∈ ids, ∃ r ∈ store.rules, r.id = id ∧ r.locationId = l.id := by
      apply forall₂_congr
      intro id _
      constructor
      · intro h
        obtain ⟨r, hr, he⟩ := h
        obtain ⟨x, hx, hxl, rfl⟩ := (mem_policy_rules hf).1 hr
        exact ⟨x, hx, he, hxl⟩
      · intro h
        obtain ⟨x, hx, he, hxl⟩ := h
        exact ⟨x.policyRule, (mem_policy_rules hf).2 ⟨x, hx, hxl, rfl⟩, he⟩
    by_cases hin : ∀ id ∈ ids, ∃ r ∈ store.rules, r.id = id ∧ r.locationId = l.id
    · obtain ⟨selected, hs, hmem⟩ := removeRulesByIds_found hv.rule_ids hf hin
      have hcand (r : RuleModel R) (hr : r ∈ store.rules.filter (·.locationId == l.id)) :
          r ∈ store.rules ∧ r.locationId = l.id := by
        obtain ⟨hr, hl⟩ := List.mem_filter.1 hr
        exact ⟨hr, eq_of_beq hl⟩
      rw [if_pos ⟨hhas, hiff.2 hin⟩, hs]
      apply Agrees.done
      apply removed_policy hf _ _ hv
      · rw [orderedRules_deleteRules hv.rule_ids, policy_rules hf, List.filter_map,
          ← List.filter_reverse]
        congr 1
        apply List.filter_congr
        intro r hr
        obtain ⟨hr, hl⟩ := mem_orderedRules.1 (List.mem_reverse.1 hr)
        apply decide_eq_decide.2
        apply not_congr
        rw [mem_idsToDelete hv.rule_ids (fun r hr => (hcand r hr).1) hr]
        constructor
        · intro h
          obtain ⟨-, s, hs, hsame⟩ := h
          obtain ⟨hs, hsid⟩ := (hmem s).1 hs
          obtain ⟨x, hx, hxid, hxl⟩ := hin s.id hsid
          rw [List.inj_on_of_nodup_map hv.rule_ids hx hs hxid] at hxl
          obtain ⟨ha, ht⟩ := sameLogicalRule_iff.1 hsame
          have he : r = s := by
            apply List.inj_on_of_nodup_map hv.logical_rules hr hs
            rw [RuleModel.logicalKey, RuleModel.logicalKey, hl, hxl, ha, ht]
          exact he ▸ hsid
        · intro h
          refine ⟨List.mem_filter.2 ⟨hr, beq_iff_eq.2 hl⟩, r, (hmem r).2 ⟨hr, h⟩, ?_⟩
          exact sameLogicalRule_iff.2 ⟨rfl, rfl⟩
      · intro other hne
        exact orderedRules_kept hv.rule_ids hcand hne selected
    · have hmissing : ∃ id ∈ ids, ∀ r ∈ store.rules, r.id = id → r.locationId ≠ l.id := by
        push Not at hin
        exact hin
      obtain ⟨e, he⟩ := removeRulesByIds_missing hv.rule_ids hf hmissing
      rw [if_neg fun h => hin (hiff.1 h.2), he]
      exact .fail

theorem removeLocation_agrees (hv : store.Valid) (location : StoredPattern R) :
    Agrees (fun after p => after.policy = p) (LocationService.removeRuleSet location store)
      (store.policy.removeLocation location) := by
  rw [Policy.removeLocation, LocationService.removeRuleSet]
  cases hf : store.findLocation location with
  | none =>
    have he : LocationService.locate store location = .error (.locationNotExist location) := by
      rw [LocationService.locate, LocationService.matchLocation, hf]
      rfl
    rw [he, if_neg (not_has_of_findLocation hf)]
    exact .fail
  | some l =>
    obtain ⟨hl, hpat⟩ := findLocation_some hf
    have hloc : ∀ x ∈ store.locations, (x.id != l.id) = decide (x.pattern ≠ location) := by
      intro x hx
      rw [Bool.eq_iff_iff, bne_iff_ne, decide_eq_true_iff]
      apply not_congr
      constructor
      · intro he
        rw [List.inj_on_of_nodup_map hv.location_ids hx hl he, hpat]
      · intro he
        rw [List.inj_on_of_nodup_map hv.patterns hx hl (he.trans hpat.symm)]
    rw [locate_found hf, if_pos (findLocation_isSome_iff.1 ⟨l, hf⟩)]
    apply Agrees.done
    apply Policy.ext
    · change (store.locations.filter (·.id != l.id)).map _ =
        (store.locations.map LocationModel.patternWithTime).filter _
      rw [List.filter_map, List.filter_congr hloc]
      rfl
    · funext p
      change ((store.deleteLocation l.id).rulesAt p).map _ =
        Function.update store.policy.rules location [] p
      by_cases hp : p = location
      · have hgone : (store.deleteLocation l.id).findLocation location = none := by
          apply List.find?_eq_none.2
          intro x hx hxp
          obtain ⟨hx, hne⟩ := List.mem_filter.1 hx
          rw [hloc x hx] at hne
          exact of_decide_eq_true hne (of_decide_eq_true hxp)
        rw [hp, Function.update_self, Store.rulesAt, hgone]
        rfl
      · have hkept : (store.deleteLocation l.id).findLocation p = store.findLocation p := by
          change (store.locations.filter (·.id != l.id)).find? _ = store.locations.find? _
          rw [List.filter_congr hloc, List.find?_filter]
          apply List.find?_congr
          intro x _
          by_cases hx : x.pattern = p
          · have hxl : x.pattern ≠ location := hx ▸ hp
            simp [hx, hp]
          · simp [hx]
        rw [Function.update_of_ne hp]
        change _ = (store.rulesAt p).map _
        rw [Store.rulesAt, hkept, Store.rulesAt]
        cases hfp : store.findLocation p with
        | none => rfl
        | some l' =>
          obtain ⟨hl', hpat'⟩ := findLocation_some hfp
          have hne : l'.id ≠ l.id := by
            intro he
            have hll := List.inj_on_of_nodup_map hv.location_ids hl' hl he
            exact hp (by rw [← hpat', hll, hpat])
          have ho : orderedRules (store.deleteLocation l.id).rules l'.id =
              orderedRules store.rules l'.id := by
            rw [orderedRules, orderedRules, Store.deleteLocation, List.filter_filter]
            congr 1
            apply List.filter_congr
            intro r _
            by_cases hr : r.locationId = l'.id
            · simp [hr, hne]
            · simp [hr]
          dsimp only
          rw [ho]
    · rfl
    · rfl

end Remove

section Runs

/-- The reply of a call, as the policy gives it. -/
def Reply.policyRule (reply : Option (RuleModel R)) : Option (PolicyRule R) :=
  reply.map RuleModel.policyRule

/-- A call does to the policy of the tables what it is meant to do, or fails where that is
refused. -/
theorem body_agrees (hv : store.Valid) (ht : ∀ r ∈ store.rules, r.createdAt < clock.rule)
    (call : Call R) :
    Agrees (fun out q => Reply.policyRule out.1 = q.1 ∧ out.2.policy = q.2)
      (call.body clock store) (store.policy.apply clock call) := by
  cases call with
  | appendRule location action expr =>
    apply Agrees.mapError
    apply (append_agrees hv ht location action expr).map
    intro out q h
    exact ⟨rfl, h.2⟩
  | appendRuleWithId location action expr =>
    apply Agrees.mapError
    apply (append_agrees hv ht location action expr).map
    intro out q h
    exact ⟨congrArg some h.1, h.2⟩
  | replaceRuleById location id action expr =>
    apply Agrees.mapError
    apply (replace_agrees hv clock location id action expr).map
    intro out q h
    exact ⟨congrArg some h.1, h.2⟩
  | removeRules location sequence =>
    apply Agrees.mapError
    apply (removeAt_agrees hv location sequence).map
    intro out q h
    exact ⟨rfl, h⟩
  | removeRulesByIds location ids =>
    apply Agrees.mapError
    apply (removeIds_agrees hv location ids).map
    intro out q h
    exact ⟨rfl, h⟩
  | removeRuleSet location =>
    apply Agrees.mapError
    apply (removeLocation_agrees hv location).map
    intro out q h
    exact ⟨rfl, h⟩

/-- The transaction of a call, by what it returns and by what it leaves. -/
theorem commit_agrees (hv : store.Valid) (ht : ∀ r ∈ store.rules, r.createdAt < clock.rule)
    (call : Call R) :
    Agrees (fun reply q => Reply.policyRule reply = q.1) (call.commit clock store).1
        (store.policy.apply clock call) ∧
      (call.commit clock store).2.policy =
        ((store.policy.apply clock call).map Prod.snd).getD store.policy := by
  have h := body_agrees hv ht call
  rw [Call.commit]
  cases hb : call.body clock store with
  | error e =>
    rw [hb] at h
    rw [h.of_error]
    exact ⟨.fail, rfl⟩
  | ok out =>
    rw [hb] at h
    obtain ⟨q, hq, hreply, hp⟩ := h.of_ok
    rw [hq]
    exact ⟨.done hreply, hp⟩

/-- The clock of a call is later than every rule of the calls before it. -/
theorem run_earlier {calls : List (Clock × Call R)} {c : Clock × Call R}
    (h : (calls ++ [c]).Pairwise fun c c' => c.1.Before c'.1) :
    (run calls .empty).Valid ∧ ∀ r ∈ (run calls .empty).rules, r.createdAt < c.1.rule := by
  obtain ⟨hp, -, hb⟩ := List.pairwise_append.1 h
  obtain ⟨hv, ht⟩ := run_invariant calls hp
  refine ⟨hv, ?_⟩
  intro r hr
  obtain ⟨c', hc', he⟩ := ht r hr
  rw [he]
  exact hb c' hc' c (List.mem_singleton_self _) _ (by simp) _ (by simp)

theorem run_policy (calls : List (Clock × Call R))
    (h : calls.Pairwise fun c c' => c.1.Before c'.1) :
    (run calls .empty).policy = Policy.run calls .empty := by
  induction calls using List.reverseRecOn with
  | nil => exact Store.empty_policy
  | append_singleton calls c ih =>
    obtain ⟨hv, ht⟩ := run_earlier h
    rw [run_append, (commit_agrees hv ht c.2).2, Policy.run_append,
      ih (List.pairwise_append.1 h).1]

theorem list_policy (find : R.Regex → Bytes → Option (Nat × Nat)) (hv : store.Valid)
    (location : StoredPattern R) :
    Agrees (fun listed rules => listed.location = location ∧
        listed.rules.map RuleModel.policyRule = rules)
      (LocationService.listRulesByPattern find store location)
      (if store.policy.Has location then some (store.policy.rules location).reverse else none) := by
  cases hf : store.findLocation location with
  | none =>
    have he : LocationService.listRulesByPattern find store location =
        .error (.locationNotExist location) := by
      rw [LocationService.listRulesByPattern, LocationService.matchLocationInternal_strict,
        LocationService.matchLocation, hf]
      rfl
    rw [he, if_neg (not_has_of_findLocation hf)]
    exact .fail
  | some l =>
    rw [listRulesByPattern_found find hf, if_pos (findLocation_isSome_iff.1 ⟨l, hf⟩)]
    apply Agrees.done
    refine ⟨rfl, ?_⟩
    rw [deduplicateRules_ordered hv, policy_rules hf, ← List.map_reverse, List.reverse_reverse]

/-- The matcher built from all rows decides as the policy. -/
theorem matcher_policy (h : store.Schema) {rows : List (RuleModel R)}
    (hp : rows.Perm store.rules) (path : Bytes) (request : LocationRuleRequest R) :
    (LocationRulesMatcher.ofAllLocationRules (listAllRules store.locations rows)).evaluate
      path request = store.policy.decide path request := by
  have hm := matcher_matchRules h.patterns rows path
  rw [← evaluate_policy h, LocationRulesDatabase.evaluate, selectLocation_eq]
  cases hf : firstMatch store.locations path with
  | none =>
    rw [hf] at hm
    exact LocationRulesMatcher.evaluate_noMatchedPath hm request
  | some e =>
    simp only [hf, loaded_orderedRules hp h.rule_ids h.logical_rules] at hm
    exact LocationRulesMatcher.evaluate_matched hm request

/-- Over every run the tables, with their rows in the order of creation times, are the policy that
the calls describe: each call succeeds exactly where the policy allows it and returns its rule, the
rules listed at a location are the rules of the policy, and the database and the matcher built from
all rows decide every request as the policy. -/
theorem run_refines_policy (calls : List (Clock × Call R))
    (find : R.Regex → Bytes → Option (Nat × Nat))
    (h : calls.Pairwise fun c c' => c.1.Before c'.1) :
    (∀ before c after, calls = before ++ c :: after →
      Agrees (fun reply q => Reply.policyRule reply = q.1)
        (c.2.commit c.1 (run before .empty)).1 ((Policy.run before .empty).apply c.1 c.2)) ∧
    (∀ location, Agrees (fun listed rules => listed.location = location ∧
        listed.rules.map RuleModel.policyRule = rules)
      (LocationService.listRulesByPattern find (run calls .empty) location)
      (if (Policy.run calls .empty).Has location then
        some ((Policy.run calls .empty).rules location).reverse else none)) ∧
    ∀ path request,
      LocationRulesDatabase.evaluate (run calls .empty) path request =
        (Policy.run calls .empty).decide path request ∧
      ∀ rows : List (RuleModel R), rows.Perm (run calls .empty).rules →
        (LocationRulesMatcher.ofAllLocationRules
          (listAllRules (run calls .empty).locations rows)).evaluate path request =
            (Policy.run calls .empty).decide path request := by
  obtain ⟨hv, -⟩ := run_invariant calls h
  have hp := run_policy calls h
  refine ⟨?_, ?_, ?_⟩
  · intro before c after he
    rw [he, List.append_cons] at h
    obtain ⟨hb, -, -⟩ := List.pairwise_append.1 h
    obtain ⟨hbv, ht⟩ := run_earlier hb
    rw [← run_policy before (List.pairwise_append.1 hb).1]
    exact (commit_agrees hbv ht c.2).1
  · intro location
    rw [← hp]
    exact list_policy find hv location
  · intro path request
    rw [← hp]
    refine ⟨evaluate_policy hv.toSchema path request, ?_⟩
    intro rows hrows
    exact matcher_policy hv.toSchema hrows path request

/-- A refused call between two that are not. -/
def policyCalls : List (Clock × Call literalLib) :=
  [(⟨10, 11, 12⟩, .appendRule locationA .allow anyExprs),
    (⟨20, 21, 22⟩, .removeRules locationA [1]),
    (⟨30, 31, 32⟩, .appendRuleWithId locationA .deny anyExprs)]

theorem run_refines_policy_sample :
    LocationRulesDatabase.evaluate (run policyCalls .empty) (asciiBytes "/a")
      (fun _ => .ok true) = (Policy.run policyCalls .empty).decide (asciiBytes "/a")
        fun _ => .ok true :=
  ((run_refines_policy policyCalls literalFind (by decide)).2.2 _ _).1

end Runs

end Dhttp.Access
