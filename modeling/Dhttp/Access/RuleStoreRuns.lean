import Dhttp.Access.RulePriority

namespace Dhttp.Access
open Dhttp.Lib
set_option autoImplicit true

variable {R : RegexLib}

/-- After an append the rule comes first and once, before the other rules in their order. -/
structure Appends (before after : Store R) (location : StoredPattern R) (action : RequestAction)
    (expr : StoredExprs R) (r : RuleModel R) : Prop where
  same : sameRule action expr r = true
  first : (after.rulesAt location).head? = some r
  once : (after.rulesAt location).filter (sameRule action expr) = [r]
  others : (after.rulesAt location).filter (!sameRule action expr ·) =
    (before.rulesAt location).filter (!sameRule action expr ·)
  elsewhere : ∀ p, p ≠ location → after.rulesAt p = before.rulesAt p

/-- After a replacement the rule stands where the rule with its id stood. -/
structure Replaces (before after : Store R) (location : StoredPattern R) (id : Int)
    (action : RequestAction) (expr : StoredExprs R) (r : RuleModel R) : Prop where
  written : r.id = id ∧ r.action = action ∧ r.exprs = expr
  found : ∃ old ∈ before.rulesAt location, old.id = id ∧ old.createdAt = r.createdAt
  place : after.rulesAt location = (before.rulesAt location).map (Store.replaceRow r)
  elsewhere : ∀ p, p ≠ location → after.rulesAt p = before.rulesAt p

/-- What a call does to the rules. -/
def Call.Effect (before after : Store R) : Call R → Reply R → Prop
  | _, .error _ => after = before
  | .appendRule location action expr, .ok _ => ∃ r, Appends before after location action expr r
  | .appendRuleWithId location action expr, .ok reply =>
    ∃ r, reply = some r ∧ Appends before after location action expr r
  | .replaceRuleById location id action expr, .ok reply =>
    ∃ r, reply = some r ∧ Replaces before after location id action expr r
  | _, .ok _ => ∀ p, (after.rulesAt p).Sublist (before.rulesAt p)

theorem appends_of_rulesAt {before after : Store R} (hs : sameRule action expr r = true)
    (h : after.rulesAt location =
      r :: (before.rulesAt location).filter (!sameRule action expr ·))
    (he : ∀ p, p ≠ location → after.rulesAt p = before.rulesAt p) :
    Appends before after location action expr r where
  same := hs
  first := by rw [h, List.head?_cons]
  once := by
    rw [h, List.filter_cons_of_pos hs, List.filter_filter]
    congr 1
    apply List.filter_eq_nil_iff.2
    intro x _
    simp
  others := by
    rw [h, List.filter_cons_of_neg (by simp [hs]), List.filter_filter]
    apply List.filter_congr
    intro x _
    rw [Bool.and_self]
  elsewhere := he

/-- Rows change at one location only. -/
theorem rulesAt_elsewhere {store : Store R} (hs : store.Schema)
    (hf : store.findLocation location = some l) {rules : List (RuleModel R)} {next : Int}
    (h : ∀ locationId, locationId ≠ l.id →
      orderedRules rules locationId = orderedRules store.rules locationId) :
    ∀ p, p ≠ location →
      Store.rulesAt { store with rules := rules, nextRule := next } p = store.rulesAt p := by
  intro p hp
  have hkept : Store.findLocation { store with rules := rules, nextRule := next } p =
      store.findLocation p := rfl
  rw [Store.rulesAt, Store.rulesAt, hkept]
  cases hfp : store.findLocation p with
  | none => rfl
  | some l' =>
    apply congrArg List.reverse
    apply h
    intro hid
    obtain ⟨hl, hpl⟩ := findLocation_some hf
    obtain ⟨hl', hpl'⟩ := findLocation_some hfp
    have he := List.inj_on_of_nodup_map hs.location_ids hl' hl hid
    rw [he, hpl] at hpl'
    exact hp hpl'.symm

theorem rulesAt_written {store : Store R} (hf : store.findLocation location = some l)
    (rules : List (RuleModel R)) (next : Int) :
    Store.rulesAt { store with rules := rules, nextRule := next } location =
      (orderedRules rules l.id).reverse := by
  have hw : Store.findLocation { store with rules := rules, nextRule := next } location =
      some l := hf
  exact rulesAt_some hw

theorem refresh_appends {store : Store R} (hv : store.Valid)
    (hf : store.findLocation location = some l) (hx : existing ∈ store.rules)
    (hid : existing.id = row.id) (hxl : existing.locationId = l.id) (hl : row.locationId = l.id)
    (hs : sameRule action expr existing = true) (hsr : sameRule action expr row = true)
    (ht : ∀ r ∈ store.rules, r.createdAt < row.createdAt)
    (h : store.updateRule row = .ok (r, after)) :
    after.Valid ∧ Appends store after location action expr r := by
  obtain ⟨rfl, -, hk, rfl⟩ := updateRule_ok h
  have hloc : ∀ x ∈ store.rules, x.id = r.id → x.locationId = r.locationId := by
    intro x hmem hxid
    rw [List.inj_on_of_nodup_map hv.rule_ids hmem hx (hxid.trans hid.symm), hxl, hl]
  have hord := orderedRules_refresh hloc hv.rule_ids hx hid ht
  rw [hl] at hord
  have hsame : ∀ x ∈ (orderedRules store.rules l.id).reverse,
      (x.id != r.id) = !sameRule action expr x := by
    intro x hxm
    rw [List.mem_reverse, mem_orderedRules] at hxm
    by_cases he : x.id = r.id
    · rw [List.inj_on_of_nodup_map hv.rule_ids hxm.1 hx (he.trans hid.symm), hs, hid]
      simp
    · have hn : ¬ sameRule action expr x = true := by
        intro hsx
        have hxe := hv.sameRule_id hxm.1 hx (hxm.2.trans hxl.symm) hsx hs
        exact he (hxe ▸ hid)
      simp [he, hn]
  refine ⟨updateRule_valid hv hx hid (hxl.trans hl.symm) hk, ?_⟩
  apply appends_of_rulesAt hsr
  · rw [rulesAt_written hf, rulesAt_some hf, hord, List.reverse_append, ← List.filter_reverse,
      List.filter_congr hsame]
    rfl
  · apply rulesAt_elsewhere hv.toSchema hf
    intro locationId hne
    rw [← hl] at hne
    exact orderedRules_replace_other hloc hne.symm

theorem insert_appends {store : Store R} (hv : store.Valid)
    (hf : store.findLocation location = some l)
    (hn : ∀ r ∈ store.rules, r.logicalKey ≠ (l.id, action, expr.polishText))
    (ht : ∀ r ∈ store.rules, r.createdAt < now)
    (ha : after = { store with
      rules := store.rules ++ [store.newRule l.id action expr now]
      nextRule := store.nextRule + 1 })
    (hr : after.findRule store.nextRule = some r) :
    after.Valid ∧ Appends store after location action expr r := by
  subst ha
  have hnew : r = store.newRule l.id action expr now := by
    have hid := List.find?_some hr
    rcases List.mem_append.1 (List.mem_of_find?_eq_some hr) with hm | hm
    · have hlt := hv.rule_bound r hm
      rw [beq_iff_eq] at hid
      omega
    · exact List.mem_singleton.1 hm
  subst hnew
  have hs : sameRule action expr (store.newRule l.id action expr now) = true :=
    decide_eq_true ⟨rfl, rfl⟩
  have hord : orderedRules (store.rules ++ [store.newRule l.id action expr now]) l.id =
      orderedRules store.rules l.id ++ [store.newRule l.id action expr now] :=
    orderedRules_append_last (store.newRule l.id action expr now) hv.rule_ids ht
  have hall : (orderedRules store.rules l.id).reverse.filter (!sameRule action expr ·) =
      (orderedRules store.rules l.id).reverse := by
    apply List.filter_eq_self.2
    intro x hx
    rw [List.mem_reverse, mem_orderedRules] at hx
    have hnx : ¬ sameRule action expr x = true := by
      intro hsx
      exact hn x hx.1 (logicalKey_eq_iff.2 ⟨hx.2, hsx⟩)
    simp [hnx]
  refine ⟨insertRule_valid hv _ rfl ⟨l, (findLocation_some hf).1, rfl⟩ hn, ?_⟩
  apply appends_of_rulesAt hs
  · rw [rulesAt_written hf, rulesAt_some hf, hall, hord, List.reverse_append]
    rfl
  · apply rulesAt_elsewhere hv.toSchema hf
    intro locationId hne
    exact orderedRules_append_other _ hne.symm

/-- A successful append, on whichever of its ways. -/
theorem append_step {store : Store R} (hv : store.Valid)
    (ht : ∀ r ∈ store.rules, r.createdAt < clock.rule)
    (h : LocationService.appendRuleInternal clock location action expr store = .ok (r, after)) :
    after.Valid ∧ Appends store after location action expr r := by
  obtain ⟨locationId, middle, hm, h⟩ := appendRuleInternal_cases h
  obtain ⟨hmv, hmr, ⟨l, hf, rfl⟩, hat⟩ := matchOrCreateLocation_ok hv hm
  rw [← hmr] at ht
  have ha : after.Valid ∧ Appends middle after location action expr r := by
    rcases h with ⟨existing, he, hu⟩ | ⟨he, -, ha, hr⟩
    · obtain ⟨hx, hl, hs⟩ := existingRule_some he
      refine refresh_appends hmv hf hx ?_ hl ?_ hs ?_ ?_ hu
      · rfl
      · exact hl
      · exact hs
      · exact ht
    · exact insert_appends hmv hf (existingRule_none he) ht ha hr
  refine ⟨ha.1, ha.2.same, ha.2.first, ha.2.once, ?_, ?_⟩
  · rw [ha.2.others, hat]
  · intro p hp
    rw [ha.2.elsewhere p hp, hat]

theorem locate_ok {store : Store R}
    (h : LocationService.locate store location = .ok locationId) :
    ∃ l, store.findLocation location = some l ∧ l.id = locationId := by
  rw [LocationService.locate, LocationService.matchLocation] at h
  cases hf : store.findLocation location with
  | none =>
    rw [hf] at h
    cases h
  | some l =>
    rw [hf] at h
    cases h
    exact ⟨l, rfl, rfl⟩

theorem replace_step {store : Store R} {id : Int} (hv : store.Valid)
    (h : LocationService.replaceRuleById clock location id action expr store = .ok (r, after)) :
    after.Valid ∧ Replaces store after location id action expr r := by
  rw [LocationService.replaceRuleById] at h
  obtain ⟨locationId, hl, h⟩ := ok_of_bind h
  obtain ⟨l, hf, rfl⟩ := locate_ok (ok_of_mapError hl)
  cases hc : store.findRule id with
  | none =>
    rw [hc] at h
    cases h
  | some current =>
    simp only [hc] at h
    split at h
    · cases h
    · rename_i hloc
      rw [not_not] at hloc
      have hm := List.mem_of_find?_eq_some hc
      have hid : current.id = id := by
        have hp := List.find?_some hc
        exact eq_of_beq hp
      obtain ⟨hr, -, hk, ha⟩ := updateRule_ok (ok_of_mapError h)
      have hrid : current.id = r.id := by rw [hr]
      have hrl : current.locationId = r.locationId := by rw [hr]
      have hrt : current.createdAt = r.createdAt := by rw [hr]
      have hw : r.action = action ∧ r.exprs = expr := by
        rw [hr]
        exact ⟨rfl, rfl⟩
      rw [← hr] at hk ha
      clear h hr
      subst ha
      have hcur : ∀ x ∈ store.rules, x.id = r.id → x = current := by
        intro x hx hxid
        exact List.inj_on_of_nodup_map hv.rule_ids hx hm (hxid.trans hrid.symm)
      have hxl : ∀ x ∈ store.rules, x.id = r.id → x.locationId = r.locationId := by
        intro x hx hxid
        rw [hcur x hx hxid, hrl]
      have hxt : ∀ x ∈ store.rules, x.id = r.id → x.createdAt = r.createdAt := by
        intro x hx hxid
        rw [hcur x hx hxid, hrt]
      refine ⟨updateRule_valid hv hm hrid hrl hk, ⟨?_, hw⟩, ⟨current, ?_, hid, hrt⟩, ?_, ?_⟩
      · rw [← hrid, hid]
      · rw [rulesAt_some hf, List.mem_reverse, mem_orderedRules]
        exact ⟨hm, hloc⟩
      · rw [rulesAt_written hf, rulesAt_some hf, orderedRules_replace hxl hxt, List.map_reverse]
      · apply rulesAt_elsewhere hv.toSchema hf
        intro locationId hne
        apply orderedRules_replace_other hxl
        rw [← hrl, hloc]
        exact hne.symm

theorem deleteRules_rulesAt {store : Store R} (hv : store.Valid) (ids : List Int)
    (p : StoredPattern R) : ((store.deleteRules ids).rulesAt p).Sublist (store.rulesAt p) := by
  have hkept : (store.deleteRules ids).findLocation p = store.findLocation p := rfl
  rw [Store.rulesAt, Store.rulesAt, hkept]
  cases store.findLocation p with
  | none => exact List.Sublist.refl _
  | some l =>
    dsimp only
    rw [orderedRules_deleteRules hv.rule_ids]
    exact List.filter_sublist.reverse

theorem deleteLocation_rulesAt {store : Store R} (hv : store.Valid) (locationId : Int)
    (p : StoredPattern R) :
    ((store.deleteLocation locationId).rulesAt p).Sublist (store.rulesAt p) := by
  rw [Store.rulesAt]
  cases hf : (store.deleteLocation locationId).findLocation p with
  | none => exact List.nil_sublist _
  | some l =>
    obtain ⟨hl, rfl⟩ := findLocation_some hf
    have ho : orderedRules (store.deleteLocation locationId).rules l.id =
        (orderedRules store.rules l.id).filter (·.locationId != locationId) := by
      rw [orderedRules, Store.deleteLocation, List.filter_comm, sortBy_filter, orderedRules]
      intro r hr r' hr'
      exact cmp_eq_imp hv.rule_ids r (List.mem_of_mem_filter hr) r' (List.mem_of_mem_filter hr')
    dsimp only
    rw [rulesAt_some (hv.toSchema.findLocation_eq (List.mem_of_mem_filter hl)), ho]
    exact List.filter_sublist.reverse

theorem removeRules_ok {store : Store R} {sequence : List Nat}
    (h : LocationService.removeRules location sequence store = .ok after) :
    ∃ ids, after = store.deleteRules ids := by
  rw [LocationService.removeRules] at h
  obtain ⟨locationId, -, h⟩ := ok_of_bind h
  obtain ⟨selected, -, h⟩ := ok_of_bind h
  cases h
  exact ⟨_, rfl⟩

theorem removeRulesByIds_ok {store : Store R}
    (h : LocationService.removeRulesByIds location requested store = .ok after) :
    ∃ ids, after = store.deleteRules ids := by
  rw [LocationService.removeRulesByIds] at h
  obtain ⟨locationId, -, h⟩ := ok_of_bind h
  dsimp only at h
  split at h
  · cases h
  · split at h
    · cases h
    · cases h
      exact ⟨_, rfl⟩

theorem removeRuleSet_ok {store : Store R}
    (h : LocationService.removeRuleSet location store = .ok after) :
    ∃ l, store.findLocation location = some l ∧ after = store.deleteLocation l.id := by
  rw [LocationService.removeRuleSet] at h
  obtain ⟨locationId, hl, h⟩ := ok_of_bind h
  obtain ⟨l, hf, rfl⟩ := locate_ok (ok_of_mapError hl)
  cases h
  exact ⟨l, hf, rfl⟩

theorem ok_of_reply {x : Except ε α} {f : α → β} {g : ε → ε'} {b : β}
    (h : (x.map f).mapError g = .ok b) : ∃ a, x = .ok a ∧ f a = b :=
  ok_of_map (ok_of_mapError h)

/-- What the transaction of a call has done when it commits. -/
inductive Call.Done (clock : Clock) (store : Store R) :
    Call R → Option (RuleModel R) → Store R → Prop
  | append (h : LocationService.appendRuleInternal clock location action expr store =
      .ok (r, after)) : Done clock store (.appendRule location action expr) none after
  | appendWithId (h : LocationService.appendRuleInternal clock location action expr store =
      .ok (r, after)) : Done clock store (.appendRuleWithId location action expr) (some r) after
  | replace {id : Int} (h : LocationService.replaceRuleById clock location id action expr store =
      .ok (r, after)) : Done clock store (.replaceRuleById location id action expr) (some r) after
  | removeRules {sequence : List Nat} (ids : List Int) :
      Done clock store (.removeRules location sequence) none (store.deleteRules ids)
  | removeRulesByIds {named : List Int} (ids : List Int) :
      Done clock store (.removeRulesByIds location named) none (store.deleteRules ids)
  | removeRuleSet (id : Int) :
      Done clock store (.removeRuleSet location) none (store.deleteLocation id)

theorem Call.body_done {store : Store R} {call : Call R}
    (h : call.body clock store = .ok (reply, after)) : Call.Done clock store call reply after := by
  cases call with
  | appendRule =>
    obtain ⟨_, ha, he⟩ := ok_of_reply h
    cases he
    exact .append ha
  | appendRuleWithId =>
    obtain ⟨_, ha, he⟩ := ok_of_reply h
    cases he
    exact .appendWithId ha
  | replaceRuleById =>
    obtain ⟨_, ha, he⟩ := ok_of_reply h
    cases he
    exact .replace ha
  | removeRules =>
    obtain ⟨_, ha, he⟩ := ok_of_reply h
    cases he
    obtain ⟨ids, rfl⟩ := removeRules_ok ha
    exact .removeRules ids
  | removeRulesByIds =>
    obtain ⟨_, ha, he⟩ := ok_of_reply h
    cases he
    obtain ⟨ids, rfl⟩ := removeRulesByIds_ok ha
    exact .removeRulesByIds ids
  | removeRuleSet =>
    obtain ⟨_, ha, he⟩ := ok_of_reply h
    cases he
    obtain ⟨l, -, rfl⟩ := removeRuleSet_ok ha
    exact .removeRuleSet l.id

/-- What one call leaves, if its clock is later than every rule. -/
theorem commit_step {store : Store R} (hv : store.Valid) (clock : Clock)
    (ht : ∀ r ∈ store.rules, r.createdAt < clock.rule) (call : Call R) :
    (call.commit clock store).2.Valid ∧
      call.Effect store (call.commit clock store).2 (call.commit clock store).1 := by
  rw [Call.commit]
  cases hb : call.body clock store with
  | error e => cases call <;> exact ⟨hv, rfl⟩
  | ok p =>
    obtain ⟨reply, after⟩ := p
    cases Call.body_done hb with
    | append ha =>
      obtain ⟨hav, happ⟩ := append_step hv ht ha
      exact ⟨hav, _, happ⟩
    | appendWithId ha =>
      obtain ⟨hav, happ⟩ := append_step hv ht ha
      exact ⟨hav, _, rfl, happ⟩
    | replace hr =>
      obtain ⟨hav, hrep⟩ := replace_step hv hr
      exact ⟨hav, _, rfl, hrep⟩
    | removeRules ids | removeRulesByIds ids =>
      exact ⟨deleteRules_valid hv ids, deleteRules_rulesAt hv ids⟩
    | removeRuleSet id => exact ⟨deleteLocation_valid hv id, deleteLocation_rulesAt hv id⟩

theorem updateRule_createdAt {store : Store R} (h : store.updateRule row = .ok (r, after))
    (hx : x ∈ after.rules) : x.createdAt = row.createdAt ∨ x ∈ store.rules := by
  obtain ⟨rfl, -, -, rfl⟩ := updateRule_ok h
  rcases mem_map_replaceRow hx with rfl | hx
  · exact .inl rfl
  · exact .inr hx.1

theorem append_createdAt {store : Store R} (hv : store.Valid)
    (h : LocationService.appendRuleInternal clock location action expr store = .ok (r, after))
    (hx : x ∈ after.rules) : x.createdAt = clock.rule ∨ x ∈ store.rules := by
  obtain ⟨locationId, middle, hm, h⟩ := appendRuleInternal_cases h
  obtain ⟨-, hmr, -, -⟩ := matchOrCreateLocation_ok hv hm
  rw [← hmr]
  rcases h with ⟨existing, -, hu⟩ | ⟨-, -, ha, -⟩
  · exact updateRule_createdAt hu hx
  · rw [ha] at hx
    rcases List.mem_append.1 hx with hx | hx
    · exact .inr hx
    · rw [List.mem_singleton.1 hx]
      exact .inl rfl

theorem replace_createdAt {store : Store R} {id : Int}
    (h : LocationService.replaceRuleById clock location id action expr store = .ok (r, after))
    (hx : x ∈ after.rules) : ∃ y ∈ store.rules, y.createdAt = x.createdAt := by
  rw [LocationService.replaceRuleById] at h
  obtain ⟨locationId, -, h⟩ := ok_of_bind h
  cases hc : store.findRule id with
  | none =>
    rw [hc] at h
    cases h
  | some current =>
    simp only [hc] at h
    split at h
    · cases h
    · rcases updateRule_createdAt (ok_of_mapError h) hx with he | hx
      · exact ⟨current, List.mem_of_find?_eq_some hc, he.symm⟩
      · exact ⟨x, hx, rfl⟩

/-- A call writes creation times of its own clock only. -/
theorem commit_createdAt {store : Store R} (hv : store.Valid) (clock : Clock) (call : Call R)
    (hx : x ∈ (call.commit clock store).2.rules) :
    x.createdAt = clock.rule ∨ ∃ y ∈ store.rules, y.createdAt = x.createdAt := by
  rw [Call.commit] at hx
  cases hb : call.body clock store with
  | error e =>
    rw [hb] at hx
    exact .inr ⟨x, hx, rfl⟩
  | ok p =>
    obtain ⟨reply, after⟩ := p
    rw [hb] at hx
    cases Call.body_done hb with
    | append ha | appendWithId ha =>
      exact (append_createdAt hv ha hx).imp_right fun hm => ⟨x, hm, rfl⟩
    | replace hr => exact .inr (replace_createdAt hr hx)
    | removeRules | removeRulesByIds | removeRuleSet =>
      exact .inr ⟨x, List.mem_of_mem_filter hx, rfl⟩

/-- Every time the later clock reads is after every time the earlier one reads. -/
def Clock.Before (earlier later : Clock) : Prop :=
  ∀ t ∈ [earlier.location, earlier.rule, earlier.conflict],
    ∀ t' ∈ [later.location, later.rule, later.conflict], t < t'

instance (earlier later : Clock) : Decidable (earlier.Before later) :=
  inferInstanceAs (Decidable (∀ t ∈ _, ∀ t' ∈ _, t < t'))

/-- A run of calls, each with the times it reads. -/
def run (calls : List (Clock × Call R)) (store : Store R) : Store R :=
  calls.foldl (fun store c => (c.2.commit c.1 store).2) store

theorem run_append (calls : List (Clock × Call R)) (c : Clock × Call R) (store : Store R) :
    run (calls ++ [c]) store = (c.2.commit c.1 (run calls store)).2 := by
  rw [run, List.foldl_append]
  rfl

/-- The invariant of runs: the store is valid and its rules were created by its calls. -/
theorem run_invariant (calls : List (Clock × Call R))
    (h : calls.Pairwise fun c c' => c.1.Before c'.1) :
    (run calls .empty).Valid ∧
      ∀ r ∈ (run calls .empty).rules, ∃ c ∈ calls, r.createdAt = c.1.rule := by
  induction calls using List.reverseRecOn with
  | nil => exact ⟨Store.empty_valid, fun r hr => absurd hr List.not_mem_nil⟩
  | append_singleton calls c ih =>
    obtain ⟨hp, -, hb⟩ := List.pairwise_append.1 h
    obtain ⟨hv, ht⟩ := ih hp
    have hlt : ∀ r ∈ (run calls .empty).rules, r.createdAt < c.1.rule := by
      intro r hr
      obtain ⟨c', hc', he⟩ := ht r hr
      rw [he]
      exact hb c' hc' c (List.mem_singleton_self _) _ (by simp) _ (by simp)
    rw [run_append]
    refine ⟨(commit_step hv c.1 hlt c.2).1, ?_⟩
    intro x hx
    rcases commit_createdAt hv c.1 c.2 hx with he | ⟨y, hy, he⟩
    · exact ⟨c, List.mem_append_right _ (List.mem_singleton_self _), he⟩
    · obtain ⟨c', hc', he'⟩ := ht y hy
      exact ⟨c', List.mem_append_left _ hc', he.symm.trans he'⟩

/-- After every call of every run the tables meet their constraints, and the call did to the order
of the rules what it is for, or nothing if it failed. -/
theorem run_commit (calls : List (Clock × Call R)) (clock : Clock) (call : Call R)
    (h : (calls ++ [(clock, call)]).Pairwise fun c c' => c.1.Before c'.1) :
    (call.commit clock (run calls .empty)).2.Schema ∧
      call.Effect (run calls .empty) (call.commit clock (run calls .empty)).2
        (call.commit clock (run calls .empty)).1 := by
  obtain ⟨hp, -, hb⟩ := List.pairwise_append.1 h
  obtain ⟨hv, ht⟩ := run_invariant calls hp
  have hlt : ∀ r ∈ (run calls .empty).rules, r.createdAt < clock.rule := by
    intro r hr
    obtain ⟨c, hc, he⟩ := ht r hr
    rw [he]
    exact hb c hc (clock, call) (List.mem_singleton_self _) _ (by simp) _ (by simp)
  obtain ⟨hav, heff⟩ := commit_step hv clock hlt call
  exact ⟨hav.toSchema, heff⟩

/-- Allowing at a location and then denying there. -/
def sampleCalls : List (Clock × Call literalLib) :=
  [(⟨10, 11, 12⟩, .appendRule locationA .allow anyExprs),
    (⟨20, 21, 22⟩, .appendRule locationA .deny anyExprs)]

theorem run_commit_sample : Call.Effect (run sampleCalls .empty)
    (run (sampleCalls ++ [(⟨30, 31, 32⟩, .appendRule locationA .allow anyExprs)]) .empty)
    (.appendRule locationA .allow anyExprs) (.ok none) := by
  have h := run_commit sampleCalls ⟨30, 31, 32⟩ (.appendRule locationA .allow anyExprs)
    (by decide)
  rw [run_append]
  exact h.2

end Dhttp.Access
