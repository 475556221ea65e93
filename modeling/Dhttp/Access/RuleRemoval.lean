import Dhttp.Access.RuleListing
import Dhttp.Access.RuleStoreSteps

namespace Dhttp.Access
open Dhttp.Lib
set_option autoImplicit true

variable {R : RegexLib}

section Positions

variable {visible : List (RuleModel R)}

theorem selectRules_ok {sequence : List Nat} (h : ∀ seq ∈ sequence, seq < visible.length) :
    ∃ selected, LocationService.selectRules visible sequence = .ok selected ∧
      ∀ r, r ∈ selected ↔ ∃ seq ∈ sequence, visible[seq]? = some r := by
  induction sequence with
  | nil => exact ⟨[], rfl, by simp⟩
  | cons seq rest ih =>
    obtain ⟨selected, he, hs⟩ := ih fun i hi => h i (List.mem_cons_of_mem _ hi)
    have hlt := h seq List.mem_cons_self
    have hseq := List.getElem?_eq_getElem hlt
    refine ⟨visible[seq] :: selected, ?_, ?_⟩
    · rw [LocationService.selectRules, hseq, he]
      rfl
    · intro r
      simp only [List.mem_cons, hs, exists_eq_or_imp, hseq, Option.some.injEq, eq_comm (a := r)]

theorem selectRules_error {sequence : List Nat} (h : ∃ seq ∈ sequence, visible.length ≤ seq) :
    ∃ seq ∈ sequence, visible.length ≤ seq ∧
      LocationService.selectRules visible sequence = .error (.ruleNotExist seq) := by
  induction sequence with
  | nil =>
    obtain ⟨seq, hs, -⟩ := h
    exact absurd hs List.not_mem_nil
  | cons seq rest ih =>
    by_cases hlt : seq < visible.length
    · obtain ⟨seq', hs, hle⟩ := h
      have hrest : ∃ i ∈ rest, visible.length ≤ i := by
        rcases List.mem_cons.1 hs with rfl | hs
        · omega
        · exact ⟨seq', hs, hle⟩
      obtain ⟨i, hi, hle', he⟩ := ih hrest
      refine ⟨i, List.mem_cons_of_mem _ hi, hle', ?_⟩
      rw [LocationService.selectRules, List.getElem?_eq_getElem hlt, he]
      rfl
    · have hle := Nat.le_of_not_lt hlt
      refine ⟨seq, List.mem_cons_self, hle, ?_⟩
      rw [LocationService.selectRules, List.getElem?_eq_none hle]

end Positions

/-- The rows deleted are the candidates equal to a selected rule. -/
theorem mem_idsToDelete {rules candidates selected : List (RuleModel R)}
    (h : (rules.map RuleModel.id).Nodup) (hc : ∀ r ∈ candidates, r ∈ rules) (hr : r ∈ rules) :
    r.id ∈ LocationService.idsToDelete candidates selected ↔
      r ∈ candidates ∧ ∃ s ∈ selected, sameLogicalRule r s = true := by
  rw [LocationService.idsToDelete, List.mem_map]
  constructor
  · intro ⟨r', hr', he⟩
    obtain ⟨hr', hany⟩ := List.mem_filter.1 hr'
    rw [← List.inj_on_of_nodup_map h (hc r' hr') hr he]
    exact ⟨hr', List.any_eq_true.1 hany⟩
  · intro ⟨hr', hany⟩
    exact ⟨r, List.mem_filter.2 ⟨hr', List.any_eq_true.2 hany⟩, rfl⟩

theorem locate_found {store : Store R} (hl : store.findLocation location = some l) :
    LocationService.locate store location = .ok l.id := by
  rw [LocationService.locate, LocationService.matchLocation, hl]
  rfl

theorem listRulesByPattern_found (find : R.Regex → Bytes → Option (Nat × Nat)) {store : Store R}
    (hl : store.findLocation location = some l) :
    LocationService.listRulesByPattern find store location =
      .ok ⟨location, deduplicateRules (orderedRules store.rules l.id)⟩ := by
  rw [LocationService.listRulesByPattern, LocationService.matchLocationInternal_strict,
    LocationService.matchLocation, hl, ← (findLocation_some hl).2]
  rfl

/-- The rules of a location without those equal to a selected one. -/
theorem orderedRules_deleted {store : Store R} (h : (store.rules.map RuleModel.id).Nodup)
    (locationId : Int) (selected : List (RuleModel R)) :
    orderedRules (store.deleteRules (LocationService.idsToDelete
      (orderedRules store.rules locationId) selected)).rules locationId =
        (orderedRules store.rules locationId).filter fun r =>
          r.decisive ∉ selected.map RuleModel.decisive := by
  rw [orderedRules_deleteRules h]
  apply List.filter_congr
  intro r hr
  have hmem (r : RuleModel R) (hr : r ∈ orderedRules store.rules locationId) : r ∈ store.rules :=
    (mem_orderedRules.1 hr).1
  apply decide_eq_decide.2
  rw [mem_idsToDelete h hmem (hmem r hr), and_iff_right hr, List.mem_map]
  simp only [sameLogicalRule_eq, decide_eq_true_iff, eq_comm (a := r.decisive)]

theorem orderedRules_kept {store : Store R} (h : (store.rules.map RuleModel.id).Nodup)
    {candidates : List (RuleModel R)}
    (hc : ∀ r ∈ candidates, r ∈ store.rules ∧ r.locationId = locationId)
    (hne : other ≠ locationId) (selected : List (RuleModel R)) :
    orderedRules (store.deleteRules (LocationService.idsToDelete candidates selected)).rules other =
      orderedRules store.rules other := by
  rw [orderedRules_deleteRules h, List.filter_eq_self]
  intro r hr
  obtain ⟨hr, ho⟩ := mem_orderedRules.1 hr
  apply decide_eq_true
  intro hid
  obtain ⟨hr', -⟩ := (mem_idsToDelete h (fun r hr => (hc r hr).1) hr).1 hid
  exact hne (ho.symm.trans (hc r hr').2)

/-- What is shown after some shown rules are removed: their hidden copies went with them. -/
theorem deduplicateRules_deleted {store : Store R} (h : (store.rules.map RuleModel.id).Nodup)
    (locationId : Int) {selected : List (RuleModel R)} {sequence : List Nat}
    (hs : ∀ r, r ∈ selected ↔ ∃ seq ∈ sequence,
      (deduplicateRules (orderedRules store.rules locationId))[seq]? = some r) :
    deduplicateRules (orderedRules (store.deleteRules (LocationService.idsToDelete
      (orderedRules store.rules locationId) selected)).rules locationId) =
        withoutPositions sequence (deduplicateRules (orderedRules store.rules locationId)) := by
  rw [orderedRules_deleted h, deduplicateRules_eq, deduplicateRules_eq,
    firstCopies_filter RuleModel.decisive fun k => decide (k ∉ selected.map RuleModel.decisive)]
  rw [deduplicateRules_eq] at hs
  exact filter_keys_eq RuleModel.decisive (firstCopies_nodup _ _) hs fun k => decide_eq_true_iff

section Ids

/-- Every id is found when as many rows are found as ids were asked for. -/
theorem matched_length_iff {rules : List (RuleModel R)} (h : (rules.map RuleModel.id).Nodup)
    {requested : List Int} (hn : requested.Nodup) :
    (rules.filter fun r => decide (r.id ∈ requested)).length = requested.length ↔
      ∀ id ∈ requested, ∃ r ∈ rules, r.id = id := by
  let found := (rules.filter fun r => decide (r.id ∈ requested)).map RuleModel.id
  have hfound : found.Nodup := h.sublist (List.filter_sublist.map _)
  have hmem (id : Int) : id ∈ found ↔ id ∈ requested ∧ ∃ r ∈ rules, r.id = id := by
    rw [List.mem_map]
    constructor
    · intro ⟨r, hr, he⟩
      obtain ⟨hr, hid⟩ := List.mem_filter.1 hr
      exact ⟨he ▸ of_decide_eq_true hid, r, hr, he⟩
    · intro ⟨hid, r, hr, he⟩
      exact ⟨r, List.mem_filter.2 ⟨hr, by rw [he]; exact decide_eq_true hid⟩, he⟩
  have hsub : found.Subperm requested := hfound.subperm fun id hid => ((hmem id).1 hid).1
  have hlen : found.length = (rules.filter fun r => decide (r.id ∈ requested)).length :=
    List.length_map _
  rw [← hlen]
  constructor
  · intro he id hid
    have hperm := hsub.perm_of_length_le he.ge
    exact ((hmem id).1 (hperm.mem_iff.2 hid)).2
  · intro hall
    have hsup : requested.Subperm found := hn.subperm fun id hid => (hmem id).2 ⟨hid, hall id hid⟩
    exact Nat.le_antisymm hsub.length_le hsup.length_le

theorem removeRulesByIds_missing {store : Store R} (h : (store.rules.map RuleModel.id).Nodup)
    (hl : store.findLocation location = some l) {ids : List Int}
    (hid : ∃ id ∈ ids, ∀ r ∈ store.rules, r.id = id → r.locationId ≠ l.id) :
    ∃ e, LocationService.removeRulesByIds location ids store = .error e := by
  have hn : (sortBy compare ids.dedup).Nodup :=
    (sortBy_perm _).nodup_iff.2 (List.nodup_dedup ids)
  rw [LocationService.removeRulesByIds, locate_found hl]
  simp only [Except.mapError, bind, Except.bind]
  split
  · exact ⟨_, rfl⟩
  · rename_i hlen
    obtain ⟨id, hid, hforeign⟩ := hid
    have hreq : id ∈ sortBy compare ids.dedup := mem_sortBy.2 (List.mem_dedup.2 hid)
    obtain ⟨r, hr, rfl⟩ := (matched_length_iff h hn).1 (not_not.1 hlen) id hreq
    split
    · exact ⟨_, rfl⟩
    · rename_i hnone
      have hmatched : r ∈ store.rules.filter fun r =>
          decide (r.id ∈ sortBy compare ids.dedup) :=
        List.mem_filter.2 ⟨hr, decide_eq_true hreq⟩
      have hloc := List.find?_eq_none.1 hnone r hmatched
      exact absurd (bne_iff_ne.2 (hforeign r hr rfl)) hloc

theorem removeRulesByIds_found {store : Store R} (h : (store.rules.map RuleModel.id).Nodup)
    (hl : store.findLocation location = some l) {ids : List Int}
    (hid : ∀ id ∈ ids, ∃ r ∈ store.rules, r.id = id ∧ r.locationId = l.id) :
    ∃ selected, LocationService.removeRulesByIds location ids store =
        .ok (store.deleteRules (LocationService.idsToDelete
          (store.rules.filter (·.locationId == l.id)) selected)) ∧
      ∀ r, r ∈ selected ↔ r ∈ store.rules ∧ r.id ∈ ids := by
  have hn : (sortBy compare ids.dedup).Nodup :=
    (sortBy_perm _).nodup_iff.2 (List.nodup_dedup ids)
  have hreq (id : Int) : id ∈ sortBy compare ids.dedup ↔ id ∈ ids :=
    mem_sortBy.trans List.mem_dedup
  have hlen := (matched_length_iff h hn).2 fun id hi => by
    obtain ⟨r, hr, he, -⟩ := hid id ((hreq id).1 hi)
    exact ⟨r, hr, he⟩
  have hnone : (store.rules.filter fun r => decide (r.id ∈ sortBy compare ids.dedup)).find?
      (·.locationId != l.id) = none := by
    rw [List.find?_eq_none]
    intro r hr
    obtain ⟨hr, hi⟩ := List.mem_filter.1 hr
    obtain ⟨r', hr', he, hloc⟩ := hid r.id ((hreq _).1 (of_decide_eq_true hi))
    rw [List.inj_on_of_nodup_map h hr hr' he.symm, hloc]
    simp
  refine ⟨store.rules.filter fun r => decide (r.id ∈ sortBy compare ids.dedup), ?_, ?_⟩
  · rw [LocationService.removeRulesByIds, locate_found hl]
    simp only [Except.mapError, bind, Except.bind]
    rw [if_neg (not_not.2 hlen), hnone]
  · intro r
    rw [List.mem_filter, decide_eq_true_iff, hreq]

end Ids

theorem removeRules_found {store : Store R} {sequence : List Nat}
    (hl : store.findLocation location = some l)
    (hs : LocationService.selectRules (deduplicateRules (orderedRules store.rules l.id)) sequence =
      .ok selected) :
    LocationService.removeRules location sequence store = .ok (store.deleteRules
      (LocationService.idsToDelete (orderedRules store.rules l.id) selected)) := by
  rw [LocationService.removeRules, locate_found hl]
  simp only [Except.mapError, bind, Except.bind, hs]
  rfl

theorem removeRules_missing {store : Store R} {sequence : List Nat}
    (hl : store.findLocation location = some l)
    (hs : LocationService.selectRules (deduplicateRules (orderedRules store.rules l.id)) sequence =
      .error e) :
    LocationService.removeRules location sequence store = .error (.rule e) := by
  rw [LocationService.removeRules, locate_found hl]
  simp only [Except.mapError, bind, Except.bind, hs]

/-- Rules go by what they say: with a rule shown or named, every copy of it at its location. -/
theorem removals_exact (find : R.Regex → Bytes → Option (Nat × Nat)) (clock : Clock)
    {store : Store R} (h : (store.rules.map RuleModel.id).Nodup)
    (hl : store.findLocation location = some l) :
    ∃ visible, LocationService.listRulesByPattern find store location = .ok ⟨location, visible⟩ ∧
      (∀ sequence,
        ((∃ seq ∈ sequence, visible.length ≤ seq) → ∃ e,
          (Call.removeRules location sequence).commit clock store = (.error e, store)) ∧
        ((∀ seq ∈ sequence, seq < visible.length) → ∃ after,
          (Call.removeRules location sequence).commit clock store = (.ok none, after) ∧
          LocationService.listRulesByPattern find after location =
            .ok ⟨location, withoutPositions sequence visible⟩ ∧
          after.locations = store.locations ∧
          ∀ other, other ≠ l.id →
            orderedRules after.rules other = orderedRules store.rules other)) ∧
      ∀ ids,
        ((∃ id ∈ ids, ∀ r ∈ store.rules, r.id = id → r.locationId ≠ l.id) → ∃ e,
          (Call.removeRulesByIds location ids).commit clock store = (.error e, store)) ∧
        ((∀ id ∈ ids, ∃ r ∈ store.rules, r.id = id ∧ r.locationId = l.id) → ∃ after,
          (Call.removeRulesByIds location ids).commit clock store = (.ok none, after) ∧
          after.locations = store.locations ∧ after.rules.Sublist store.rules ∧
          ∀ r ∈ store.rules, r ∈ after.rules ↔ ¬(r.locationId = l.id ∧
            ∃ named ∈ store.rules, named.id ∈ ids ∧ sameLogicalRule r named = true)) := by
  have hcandidates (r : RuleModel R) (hr : r ∈ orderedRules store.rules l.id) :
      r ∈ store.rules ∧ r.locationId = l.id := mem_orderedRules.1 hr
  refine ⟨_, listRulesByPattern_found find hl, ?_, ?_⟩
  · intro sequence
    constructor
    · intro hout
      obtain ⟨seq, -, -, hs⟩ := selectRules_error hout
      refine ⟨.removeRules (.rule (.ruleNotExist seq)), ?_⟩
      rw [Call.commit, Call.body, removeRules_missing hl hs]
      rfl
    · intro hin
      obtain ⟨selected, hs, hmem⟩ := selectRules_ok hin
      refine ⟨store.deleteRules (LocationService.idsToDelete (orderedRules store.rules l.id)
        selected), ?_, ?_, rfl, ?_⟩
      · rw [Call.commit, Call.body, removeRules_found hl hs]
        rfl
      · rw [← deduplicateRules_deleted h l.id hmem]
        exact listRulesByPattern_found find hl
      · intro other hne
        exact orderedRules_kept h hcandidates hne selected
  · intro ids
    constructor
    · intro hout
      obtain ⟨e, he⟩ := removeRulesByIds_missing h hl hout
      refine ⟨.removeRulesByIds e, ?_⟩
      rw [Call.commit, Call.body, he]
      rfl
    · intro hin
      obtain ⟨selected, he, hmem⟩ := removeRulesByIds_found h hl hin
      refine ⟨store.deleteRules (LocationService.idsToDelete
        (store.rules.filter (·.locationId == l.id)) selected), ?_, rfl, List.filter_sublist, ?_⟩
      · rw [Call.commit, Call.body, he]
        rfl
      · intro r hr
        have hfilter (r : RuleModel R) (hr : r ∈ store.rules.filter (·.locationId == l.id)) :
            r ∈ store.rules := List.mem_of_mem_filter hr
        rw [Store.deleteRules, List.mem_filter, and_iff_right hr, decide_eq_true_iff,
          mem_idsToDelete h hfilter hr, List.mem_filter, and_iff_right hr, beq_iff_eq]
        simp only [hmem, and_assoc]

theorem removals_exact_duplicate : ∃ after : Store literalLib,
    (Call.removeRules locationA [0, 0]).commit ⟨0, 0, 0⟩ duplicateStore = (.ok none, after) ∧
      LocationService.listRulesByPattern literalFind after locationA =
        .ok ⟨locationA, [⟨2, 1, .deny, anyExprs, 1000, 1000⟩]⟩ := by
  have hl : duplicateStore.findLocation locationA = some ⟨1, locationA, 1000, 1000⟩ := rfl
  obtain ⟨visible, hv, hpositions, -⟩ := removals_exact literalFind ⟨0, 0, 0⟩ (by decide) hl
  cases hv
  obtain ⟨after, hc, hlist, -, -⟩ := (hpositions [0, 0]).2 (by decide)
  exact ⟨after, hc, hlist⟩

end Dhttp.Access
