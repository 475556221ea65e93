import Dhttp.Access.Deduplication
import Dhttp.Access.RuleStore

namespace Dhttp.Access
open Dhttp.Lib
set_option autoImplicit true

/-- The bytes of a text. -/
def utf8 (s : Text) : Bytes := s.flatMap String.utf8EncodeChar

section Types

variable (R : RegexLib)

structure MatchedLocationRules where
  location : StoredPattern R
  rules : List (RuleModel R)

/-- The map of a matcher as its entries in order. -/
structure PatternMatcher (Item : Type) where
  map : List (StoredPattern R × Item)

end Types

variable {R : RegexLib}

/-- By kind, then by text. -/
def StoredPattern.cmp (p q : StoredPattern R) : Ordering :=
  (compare p.priority q.priority).then (compare p.asStr q.asStr)

instance : Std.TransCmp (StoredPattern.cmp (R := R)) :=
  inferInstanceAs (Std.TransCmp (compareLex (compareOn StoredPattern.priority)
    (compareOn StoredPattern.asStr)))

def PatternMatcher.fromIter (items : List (StoredPattern R × Item)) : PatternMatcher R Item :=
  ⟨collect StoredPattern.cmp items⟩

section Search

-- `Regex::find`, as the range it finds.
variable (find : R.Regex → Bytes → Option (Nat × Nat))

/-- `Pattern::match`. -/
def StoredPattern.match (p : StoredPattern R) (s : Bytes) : Option Bytes :=
  (find p.pattern.regex s).map fun range => (s.take range.2).drop range.1

def PatternMatcher.match (m : PatternMatcher R Item) (s : Bytes) :
    Option (Item × StoredPattern R × Bytes) :=
  m.map.findSome? fun e => (e.1.match find s).map fun found => (e.2, e.1, found)

namespace LocationService

def matchLocationInternal (store : Store R) (location : StoredPattern R) (strict : Bool) :
    Option (Int × StoredPattern R) :=
  match store.findLocation location with
  | some l => some (l.id, l.pattern)
  | none =>
    if strict then none
    else
      let patternSet := PatternMatcher.fromIter (store.locations.map fun l => (l.pattern, l.id))
      match patternSet.match find (utf8 location.asStr) with
      | none => none
      | some (id, pattern, _) => some (id, pattern)

def listRules (store : Store R) (location : StoredPattern R) :
    Except (MatchLocationFailed R) (MatchedLocationRules R) :=
  match matchLocationInternal find store location false with
  | none => .error (.noMatchedLocation location)
  | some (id, pattern) => .ok ⟨pattern, deduplicateRules (orderedRules store.rules id)⟩

def listRulesByPattern (store : Store R) (location : StoredPattern R) :
    Except (LocateLocationFailed R) (MatchedLocationRules R) :=
  match matchLocationInternal find store location true with
  | none => .error (.locationNotExist location)
  | some (id, pattern) => .ok ⟨pattern, deduplicateRules (orderedRules store.rules id)⟩

theorem matchLocationInternal_strict (store : Store R) (location : StoredPattern R) :
    matchLocationInternal find store location true = matchLocation store location := by
  rw [matchLocationInternal, matchLocation]
  cases store.findLocation location <;> rfl

end LocationService

end Search

section Selection

/-- The stored location a listing falls back to. -/
def firstByText (locations : List (LocationModel R)) (path : Bytes) : Option (LocationModel R) :=
  (sortBy (fun l l' => l.pattern.cmp l'.pattern) locations).find? fun l => l.pattern.isMatch path

/-- The stored location a request is evaluated at. -/
def firstByTime (locations : List (LocationModel R)) (path : Bytes) : Option (LocationModel R) :=
  (sortBy (fun l l' => l.patternWithTime.cmp l'.patternWithTime) locations).find? fun l =>
    l.pattern.isMatch path

theorem matcher_match {find : R.Regex → Bytes → Option (Nat × Nat)}
    (hfind : ∀ r s, (find r s).isSome = R.isMatch r s) (entries : List (StoredPattern R × Item))
    (s : Bytes) : ((PatternMatcher.mk entries).match find s).map (fun m => (m.1, m.2.1)) =
      (entries.find? fun e => e.1.isMatch s).map fun e => (e.2, e.1) := by
  rw [PatternMatcher.match]
  induction entries with
  | nil => rfl
  | cons e entries ih =>
    rw [List.findSome?_cons, List.find?_cons]
    have he : (e.1.match find s).isSome = e.1.isMatch s := by
      rw [StoredPattern.match, Option.isSome_map]
      exact hfind _ _
    cases hm : e.1.match find s with
    | none =>
      rw [hm] at he
      rw [← he]
      exact ih
    | some found =>
      rw [hm] at he
      rw [← he]
      rfl

theorem fromIter_match {find : R.Regex → Bytes → Option (Nat × Nat)}
    (hfind : ∀ r s, (find r s).isSome = R.isMatch r s) {locations : List (LocationModel R)}
    (hn : (locations.map LocationModel.pattern).Nodup) (s : Bytes) :
    ((PatternMatcher.fromIter (locations.map fun l => (l.pattern, l.id))).match find s).map
        (fun m => (m.1, m.2.1)) = (firstByText locations s).map fun l => (l.id, l.pattern) := by
  have hentries : (locations.map fun l => (l.pattern, l.id)) =
      (locations.map fun l => (l.pattern, l)).map (Prod.map id LocationModel.id) := by
    rw [List.map_map]
    rfl
  have hcollect := @find?_collect _ _ _ _ StoredPattern.cmp LocationModel.pattern _ hn
    fun q => q.isMatch s
  rw [PatternMatcher.fromIter, matcher_match hfind, hentries, collect_map, List.find?_map]
  have hkey : (fun e : StoredPattern R × Int => e.1.isMatch s) ∘ Prod.map id LocationModel.id =
      fun e : StoredPattern R × LocationModel R => e.1.isMatch s := rfl
  rw [hkey, hcollect, Option.map_map, Option.map_map]
  rfl

theorem matchLocationInternal_loose {find : R.Regex → Bytes → Option (Nat × Nat)}
    (hfind : ∀ r s, (find r s).isSome = R.isMatch r s) {store : Store R}
    (hn : (store.locations.map LocationModel.pattern).Nodup) {p : StoredPattern R}
    (hp : store.findLocation p = none) :
    LocationService.matchLocationInternal find store p false =
      (firstByText store.locations (utf8 p.asStr)).map fun l => (l.id, l.pattern) := by
  rw [← fromIter_match hfind hn, LocationService.matchLocationInternal, hp]
  simp only [Bool.false_eq_true, if_false]
  cases (PatternMatcher.fromIter (store.locations.map fun l => (l.pattern, l.id))).match find
    (utf8 p.asStr) <;> rfl

theorem selectLocation_firstByTime {locations : List (LocationModel R)}
    (hn : (locations.map LocationModel.pattern).Nodup) (path : Bytes) :
    LocationRulesDatabase.selectLocation locations path =
      (firstByTime locations path).map fun l => (l.pattern, l.id) := by
  have hk : (locations.map LocationModel.patternWithTime).Nodup := by
    apply List.Nodup.of_map PatternWithTime.pattern
    rw [List.map_map]
    exact hn
  have hcollect := @find?_collect _ _ _ _ PatternWithTime.cmp LocationModel.patternWithTime _ hk
    fun q => q.pattern.isMatch path
  rw [selectLocation_eq, firstMatch, locationMap, hcollect, Option.map_map]
  rfl

/-- The location is one of the first kind among those that match. -/
def Contends (locations : List (LocationModel R)) (path : Bytes) (l : LocationModel R) : Prop :=
  l ∈ locations ∧ l.pattern.isMatch path = true ∧
    ∀ l' ∈ locations, l'.pattern.isMatch path = true → l.pattern.priority ≤ l'.pattern.priority

/-- To the microsecond; of two equally old locations the earlier row is newer. -/
def Newer (locations : List (LocationModel R)) (l l' : LocationModel R) : Prop :=
  timestampMicros l'.createdAt < timestampMicros l.createdAt ∨
    timestampMicros l'.createdAt = timestampMicros l.createdAt ∧ [l, l'].Sublist locations

/-- Of the locations that contend for a path, the one with the least text is the newest. -/
def FirstTextNewest (locations : List (LocationModel R)) (path : Bytes) : Prop :=
  ∀ l, Contends locations path l →
    (∀ l', Contends locations path l' → l' ≠ l →
      compare l.pattern.asStr l'.pattern.asStr = .lt) →
    ∀ l', Contends locations path l' → l' ≠ l → Newer locations l l'

/-- The kinds are compared first, so only the locations of the first kind are in the running. -/
theorem contends_iff {locations : List (LocationModel R)} {path : Bytes} {l : LocationModel R}
    (hl : l ∈ locations) (hm : l.pattern.isMatch path = true)
    (later : LocationModel R → Ordering) (tied : LocationModel R → Prop) :
    (∀ l' ∈ locations, l'.pattern.isMatch path = true → l' ≠ l →
      (compare l.pattern.priority l'.pattern.priority).then (later l') = .lt ∨
        (compare l.pattern.priority l'.pattern.priority).then (later l') = .eq ∧ tied l') ↔
      Contends locations path l ∧ ∀ l', Contends locations path l' → l' ≠ l →
        later l' = .lt ∨ later l' = .eq ∧ tied l' := by
  constructor
  · intro h
    have hle : ∀ l' ∈ locations, l'.pattern.isMatch path = true →
        l.pattern.priority ≤ l'.pattern.priority := by
      intro l' hl' hm'
      by_cases he : l' = l
      · rw [he]
      · by_contra hlt
        have hgt : compare l.pattern.priority l'.pattern.priority = .gt :=
          Nat.compare_eq_gt.2 (Nat.lt_of_not_le hlt)
        have hc := h l' hl' hm' he
        rw [hgt] at hc
        rcases hc with hc | hc
        · cases hc
        · cases hc.1
    constructor
    · exact ⟨hl, hm, hle⟩
    · intro l' ⟨hl', hm', hle'⟩ hne
      have heq : compare l.pattern.priority l'.pattern.priority = .eq :=
        Nat.compare_eq_eq.2 (Nat.le_antisymm (hle l' hl' hm') (hle' l hl hm))
      have hc := h l' hl' hm' hne
      rw [heq] at hc
      exact hc
  · intro ⟨⟨_, _, hle⟩, h⟩ l' hl' hm' hne
    rcases Nat.lt_or_eq_of_le (hle l' hl' hm') with hlt | heq
    · rw [Nat.compare_eq_lt.2 hlt]
      exact .inl rfl
    · rw [Nat.compare_eq_eq.2 heq]
      exact h l' ⟨hl', hm', fun x hx hmx => heq ▸ hle x hx hmx⟩ hne

theorem firstByText_iff {locations : List (LocationModel R)}
    (hn : (locations.map LocationModel.pattern).Nodup) {path : Bytes} {l : LocationModel R} :
    firstByText locations path = some l ↔ Contends locations path l ∧
      ∀ l', Contends locations path l' → l' ≠ l →
        compare l.pattern.asStr l'.pattern.asStr = .lt := by
  have ht : Std.TransCmp fun l l' : LocationModel R => l.pattern.cmp l'.pattern :=
    transCmp_on LocationModel.pattern
  rw [firstByText, find?_sortBy_iff hn.of_map]
  constructor
  · intro ⟨hl, hm, h⟩
    obtain ⟨hc, h⟩ := (contends_iff hl hm _ _).1 h
    refine ⟨hc, ?_⟩
    intro l' hc' hne
    rcases h l' hc' hne with hlt | heq
    · exact hlt
    · have hp : l.pattern = l'.pattern :=
        StoredPattern.ext_asStr (Std.LawfulEqOrd.eq_of_compare heq.1)
      exact absurd (List.inj_on_of_nodup_map hn hc'.1 hl hp.symm) hne
  · intro ⟨hc, h⟩
    exact ⟨hc.1, hc.2.1, (contends_iff hc.1 hc.2.1 _ _).2
      ⟨hc, fun l' hc' hne => .inl (h l' hc' hne)⟩⟩

theorem firstByTime_iff {locations : List (LocationModel R)}
    (hn : (locations.map LocationModel.pattern).Nodup) {path : Bytes} {l : LocationModel R} :
    firstByTime locations path = some l ↔ Contends locations path l ∧
      ∀ l', Contends locations path l' → l' ≠ l → Newer locations l l' := by
  have ht : Std.TransCmp fun l l' : LocationModel R => l.patternWithTime.cmp l'.patternWithTime :=
    transCmp_on LocationModel.patternWithTime
  have hnewer (l' : LocationModel R) : (compare l.patternWithTime.timestamp
      l'.patternWithTime.timestamp).swap = .lt ∨ (compare l.patternWithTime.timestamp
        l'.patternWithTime.timestamp).swap = .eq ∧ [l, l'].Sublist locations ↔
      Newer locations l l' := by
    rw [Newer, Ordering.swap_eq_lt, Ordering.swap_eq_eq, Std.compare_eq_gt,
      Std.LawfulEqOrd.compare_eq_iff_eq, eq_comm (a := l.patternWithTime.timestamp)]
    rfl
  rw [firstByTime, find?_sortBy_iff hn.of_map]
  constructor
  · intro ⟨hl, hm, h⟩
    obtain ⟨hc, h⟩ := (contends_iff hl hm _ _).1 h
    exact ⟨hc, fun l' hc' hne => (hnewer l').1 (h l' hc' hne)⟩
  · intro ⟨hc, h⟩
    exact ⟨hc.1, hc.2.1, (contends_iff hc.1 hc.2.1 _ _).2
      ⟨hc, fun l' hc' hne => (hnewer l').2 (h l' hc' hne)⟩⟩

theorem firstByText_none {locations : List (LocationModel R)} {path : Bytes} :
    firstByText locations path = none ↔ firstByTime locations path = none := by
  rw [firstByText, firstByTime, List.find?_eq_none, List.find?_eq_none]
  simp only [mem_sortBy]

/-- A listing finds a location when evaluation does, and finds the same one exactly when the
order by text and the order by time agree on the first. -/
theorem listRules_location_iff {find : R.Regex → Bytes → Option (Nat × Nat)}
    (hfind : ∀ r s, (find r s).isSome = R.isMatch r s) {store : Store R}
    (hn : (store.locations.map LocationModel.pattern).Nodup) {p : StoredPattern R}
    (hp : store.findLocation p = none) :
    (∀ request, LocationService.listRules find store p = .error (.noMatchedLocation p) ↔
      LocationRulesDatabase.evaluate store (utf8 p.asStr) request =
        .error (.noRuleSet (utf8 p.asStr))) ∧
    ((LocationService.listRules find store p).toOption.map MatchedLocationRules.location =
        (LocationRulesDatabase.selectLocation store.locations (utf8 p.asStr)).map Prod.fst ↔
      FirstTextNewest store.locations (utf8 p.asStr)) := by
  rw [LocationService.listRules, matchLocationInternal_loose hfind hn hp,
    selectLocation_firstByTime hn]
  simp only [LocationRulesDatabase.evaluate, selectLocation_firstByTime hn]
  cases htext : firstByText store.locations (utf8 p.asStr) with
  | none =>
    rw [firstByText_none.1 htext]
    constructor
    · intro request
      exact ⟨fun _ => rfl, fun _ => rfl⟩
    · constructor
      · intro _ l hl hfirst
        rw [(firstByText_iff hn).2 ⟨hl, hfirst⟩] at htext
        cases htext
      · intro _
        rfl
  | some l =>
    cases htime : firstByTime store.locations (utf8 p.asStr) with
    | none =>
      rw [firstByText_none.2 htime] at htext
      cases htext
    | some l' =>
      obtain ⟨hl, hfirst⟩ := (firstByText_iff hn).1 htext
      obtain ⟨hl', hnewest⟩ := (firstByTime_iff hn).1 htime
      constructor
      · intro request
        constructor
        · intro h
          cases h
        · intro h
          simp only [Option.map_some, LocationRulesDatabase.decideIn] at h
          split at h <;> cases h
      · simp only [Option.map_some, Except.toOption, Option.some.injEq]
        constructor
        · intro he k hk hkfirst
          have hlk : l = k := by
            have hsome := (firstByText_iff hn).2 ⟨hk, hkfirst⟩
            rw [htext] at hsome
            exact Option.some.inj hsome
          rw [← hlk, List.inj_on_of_nodup_map hn hl.1 hl'.1 he]
          exact hnewest
        · intro h
          have hsome := (firstByTime_iff hn).2 ⟨hl, h l hl hfirst⟩
          rw [htime] at hsome
          rw [Option.some.inj hsome]

end Selection

/-- What an anchored word finds. -/
def literalFind (r : literalLib.Regex) (s : Bytes) : Option (Nat × Nat) :=
  if literalLib.isMatch r s then some (0, r.word.length) else none

theorem literalFind_isSome (r : literalLib.Regex) (s : Bytes) :
    (literalFind r s).isSome = literalLib.isMatch r s := by
  rw [literalFind]
  cases literalLib.isMatch r s <;> rfl

/-- Two overlapping locations, the longer one made later. -/
def overlappingStore : Store literalLib where
  locations := [⟨1, locationA, 1000000, 1000000⟩, ⟨2, locationAb, 2000000, 2000000⟩]
  rules := []
  nextLocation := 3
  nextRule := 1

/-- The same locations, the shorter one made later. -/
def nestedStore : Store literalLib where
  locations := [⟨1, locationAb, 1000000, 1000000⟩, ⟨2, locationA, 2000000, 2000000⟩]
  rules := []
  nextLocation := 3
  nextRule := 1

/-- A path under both. -/
def locationAbc : StoredPattern literalLib :=
  literalLocation (text "/abc") rfl (by decide) rfl (by decide)

/-- The order by text comes to the one of them first, the order by time to the other. -/
theorem overlapping_differ :
    (LocationService.listRules literalFind overlappingStore locationAbc).toOption.map
        MatchedLocationRules.location ≠
      (LocationRulesDatabase.selectLocation overlappingStore.locations
        (utf8 locationAbc.asStr)).map Prod.fst := by
  have hlisted : (LocationService.listRules literalFind overlappingStore locationAbc).toOption.map
      MatchedLocationRules.location = some locationA := rfl
  have hselected : (LocationRulesDatabase.selectLocation overlappingStore.locations
      (utf8 locationAbc.asStr)).map Prod.fst = some locationAb := rfl
  rw [hlisted, hselected]
  intro hsame
  exact absurd (Option.some.inj hsame) (by decide)

theorem listRules_location_iff_overlapping :
    FirstTextNewest nestedStore.locations (utf8 locationAbc.asStr) ∧
      ¬ FirstTextNewest overlappingStore.locations (utf8 locationAbc.asStr) := by
  have hnested : (nestedStore.locations.map LocationModel.pattern).Nodup := by decide
  have hoverlapping : (overlappingStore.locations.map LocationModel.pattern).Nodup := by decide
  constructor
  · exact (listRules_location_iff literalFind_isSome hnested rfl).2.1 rfl
  · intro h
    exact overlapping_differ ((listRules_location_iff literalFind_isSome hoverlapping rfl).2.2 h)

theorem listRules_overlapping : ¬∀ (store : Store literalLib) (p : StoredPattern literalLib),
    store.Schema → p.pattern.kind = .normalPrefix → store.findLocation p = none →
      (LocationService.listRules literalFind store p).toOption.map MatchedLocationRules.location =
        (LocationRulesDatabase.selectLocation store.locations (utf8 p.asStr)).map Prod.fst := by
  intro h
  have hschema : overlappingStore.Schema :=
    ⟨by decide, by decide, List.nodup_nil, List.nodup_nil, fun r hr => absurd hr List.not_mem_nil⟩
  exact overlapping_differ (h overlappingStore locationAbc hschema rfl rfl)

end Dhttp.Access
