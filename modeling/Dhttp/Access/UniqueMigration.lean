import Dhttp.Lib.Survivors
import Dhttp.Access.RuleEvaluation

namespace Dhttp.Access
open Dhttp.Lib
set_option autoImplicit true

variable {R : RegexLib}

namespace UniqueLocationRules

/-- The `WHERE` of the subquery. -/
def outdates (newer older : RuleModel R) : Bool :=
  newer.locationId == older.locationId && newer.action == older.action &&
    newer.exprs.polishText == older.exprs.polishText &&
    (decide (older.createdAt < newer.createdAt) ||
      (newer.createdAt == older.createdAt && decide (older.id < newer.id)))

def deleteDuplicates (rules : List (RuleModel R)) : List (RuleModel R) :=
  survivors outdates rules

def createUniqueIndex (rules : List (RuleModel R)) : Except DbErr Unit :=
  if (rules.map RuleModel.logicalKey).Nodup then .ok () else .error .uniqueViolation

def up (store : Store R) : Except DbErr (Store R) := do
  let rules := deleteDuplicates store.rules
  createUniqueIndex rules
  return { store with rules := rules }

end UniqueLocationRules

open UniqueLocationRules

theorem outdates_iff {newer older : RuleModel R} : outdates newer older = true ↔
    newer.logicalKey = older.logicalKey ∧ older.cmp newer = .lt := by
  rw [outdates, RuleModel.cmp, Ordering.then_eq_lt, Std.compare_eq_lt, Std.compare_eq_lt,
    Std.LawfulEqOrd.compare_eq_iff_eq]
  simp only [Bool.and_eq_true, Bool.or_eq_true, beq_iff_eq, decide_eq_true_eq,
    RuleModel.logicalKey, Prod.mk.injEq, and_assoc, eq_comm (a := newer.createdAt)]

theorem outdates_trans (r r' r'' : RuleModel R) (h : outdates r r' = true)
    (h' : outdates r' r'' = true) : outdates r r'' = true := by
  rw [outdates_iff] at h h' ⊢
  exact ⟨h.1.trans h'.1, Std.TransCmp.lt_trans h'.2 h.2⟩

theorem outdates_irrefl (r : RuleModel R) : outdates r r = false := by
  rw [← Bool.not_eq_true, outdates_iff]
  intro h
  rw [RuleModel.cmp_self] at h
  cases h.2

/-- The rows left do not depend on the order in which the rows are tested and deleted. -/
theorem sweep_duplicates [DecidableEq (RuleModel R)] {rules pending : List (RuleModel R)}
    (h : ∀ r ∈ rules, r ∈ pending) : sweep outdates pending rules = deleteDuplicates rules :=
  sweep_eq outdates_trans outdates_irrefl h

theorem deleteDuplicates_keys {rules : List (RuleModel R)}
    (h : (rules.map RuleModel.id).Nodup) :
    ((deleteDuplicates rules).map RuleModel.logicalKey).Nodup := by
  apply survivors_keys_nodup RuleModel.logicalKey h.of_map
  intro r hr r' hr' hk hne
  cases hc : r.cmp r' with
  | lt => exact .inr (outdates_iff.2 ⟨hk.symm, hc⟩)
  | eq => exact absurd (cmp_eq_imp h r hr r' hr' hc) hne
  | gt =>
    have hlt : r'.cmp r = .lt := Std.OrientedCmp.gt_iff_lt.1 hc
    exact .inl (outdates_iff.2 ⟨hk, hlt⟩)

theorem deleteDuplicates_kept {rules : List (RuleModel R)} (hr : r ∈ rules) :
    ∃ r' ∈ deleteDuplicates rules, r'.logicalKey = r.logicalKey := by
  rcases exists_survivor outdates_trans outdates_irrefl hr with h | h
  · exact ⟨r, h, rfl⟩
  · obtain ⟨r', h', ho⟩ := h
    exact ⟨r', h', (outdates_iff.1 ho).1⟩

/-- A row that is deleted repeats one that is evaluated before it. -/
theorem deleted_repeats {rules : List (RuleModel R)} {id : Int}
    (he : (orderedRules rules id).reverse = before ++ r :: after)
    (hr : (!rules.any (outdates · r)) = false) :
    ∃ r' ∈ before, r'.logicalKey = r.logicalKey := by
  rw [Bool.not_eq_false', List.any_eq_true] at hr
  obtain ⟨r', hr', ho⟩ := hr
  obtain ⟨hk, hlt⟩ := outdates_iff.1 ho
  have hmem {x : RuleModel R} : x ∈ before ++ r :: after ↔ x ∈ rules ∧ x.locationId = id := by
    rw [← he, List.mem_reverse, orderedRules, mem_sortBy, List.mem_filter, beq_iff_eq]
  have hl : r'.locationId = id :=
    (congrArg Prod.fst hk).trans (hmem.1 (List.mem_append_right _ (List.mem_cons_self ..))).2
  have hs : (before ++ r :: after).Pairwise fun x y => (RuleModel.cmp y x).isLE = true := by
    rw [← he, List.pairwise_reverse]
    exact sortBy_pairwise _
  refine ⟨r', ?_, hk⟩
  rcases List.mem_append.1 (hmem.2 ⟨hr', hl⟩) with hb | ha
  · exact hb
  · exfalso
    rcases List.mem_cons.1 ha with rfl | ha
    · rw [RuleModel.cmp_self] at hlt
      cases hlt
    · have hle := List.rel_of_pairwise_cons (List.pairwise_append.1 hs).2.1 ha
      rw [Std.OrientedCmp.gt_of_lt hlt] at hle
      cases hle

theorem decideIn_deleteDuplicates {rules : List (RuleModel R)}
    (hi : (rules.map RuleModel.id).Nodup) (location : StoredPattern R)
    (request : LocationRuleRequest R) (id : Int) :
    LocationRulesDatabase.decideIn location request (orderedRules (deleteDuplicates rules) id) =
      LocationRulesDatabase.decideIn location request (orderedRules rules id) := by
  have hf : orderedRules (deleteDuplicates rules) id =
      (orderedRules rules id).filter fun r => !rules.any (outdates · r) := by
    rw [orderedRules, deleteDuplicates, survivors, List.filter_comm, sortBy_filter, orderedRules]
    intro r hr r' hr'
    exact cmp_eq_imp hi r (List.mem_of_mem_filter hr) r' (List.mem_of_mem_filter hr')
  rw [LocationRulesDatabase.decideIn, hf, ← List.filter_reverse, findSome?_filter,
    LocationRulesDatabase.decideIn]
  intro before r after he hr
  obtain ⟨r', hr', hk⟩ := deleted_repeats he hr
  simp only [RuleModel.logicalKey, Prod.mk.injEq] at hk
  refine ⟨r', hr', ?_⟩
  rw [StoredExprs.polish_eq_iff.2 hk.2.2, hk.2.1]

/-- The migration succeeds, keeps every decision, and deletes only rows that repeat a row left. -/
theorem unique_migration (store : Store R) (h : (store.rules.map RuleModel.id).Nodup) :
    ∃ after, up store = .ok after ∧
      (∀ path request, LocationRulesDatabase.evaluate after path request =
        LocationRulesDatabase.evaluate store path request) ∧
      (after.rules.map RuleModel.logicalKey).Nodup ∧
      after.locations = store.locations ∧ after.rules.Sublist store.rules ∧
      ∀ r ∈ store.rules, ∃ r' ∈ after.rules, r'.logicalKey = r.logicalKey := by
  have hk := deleteDuplicates_keys h
  have hu : up store = .ok { store with rules := deleteDuplicates store.rules } := by
    rw [up, createUniqueIndex, if_pos hk]
    rfl
  refine ⟨_, hu, ?_, hk, rfl, List.filter_sublist, fun r hr => deleteDuplicates_kept hr⟩
  intro path request
  rw [LocationRulesDatabase.evaluate, LocationRulesDatabase.evaluate]
  cases LocationRulesDatabase.selectLocation store.locations path with
  | none => rfl
  | some e => exact decideIn_deleteDuplicates h e.1 request e.2

/-- The sample with a third rule that repeats the first. -/
def duplicateStore : Store literalLib :=
  { sampleStore with rules := sampleStore.rules ++ [⟨3, 1, .allow, anyExprs, 1000, 1000⟩] }

theorem unique_migration_duplicate : ∃ after, up duplicateStore = .ok after ∧
    LocationRulesDatabase.evaluate after (asciiBytes "/a") (fun _ => .ok true) =
      LocationRulesDatabase.evaluate duplicateStore (asciiBytes "/a") fun _ => .ok true := by
  obtain ⟨after, hu, he, -⟩ := unique_migration duplicateStore (by decide)
  exact ⟨after, hu, he _ _⟩

end Dhttp.Access
