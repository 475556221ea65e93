import Dhttp.Access.LiteralLib

namespace Dhttp.Access
open Dhttp.Lib
set_option autoImplicit true

variable {R : RegexLib}

/-- A separator outside the escapes splits a well-escaped string into two. -/
theorem wellEscaped_append {sep : UInt8} (hp : sep ≠ '%'.toUInt8)
    (hx : isAsciiHexdigit sep = false) (s rest : Bytes) :
    wellEscaped plain (s ++ sep :: rest) =
      (wellEscaped plain s && (plain sep && wellEscaped plain rest)) := by
  induction s using wellEscaped.induct with
  | case1 => exact wellEscaped_plain hp
  | case2 h l s ih =>
    simp only [List.cons_append, wellEscaped_escape, ih, Bool.and_assoc]
  | case3 s hs =>
    rw [wellEscaped_broken hs, List.cons_append, Bool.false_and]
    rcases s with _ | ⟨a, _ | ⟨b, s⟩⟩
    · cases rest with
      | nil => exact wellEscaped_broken (by rintro h l rest' ⟨⟩)
      | cons c rest => rw [List.nil_append, wellEscaped_escape, hx]; rfl
    · rw [List.singleton_append, wellEscaped_escape, hx, Bool.and_false]
      rfl
    · exact absurd rfl (hs a b s)
  | case4 b s hb ih =>
    rw [List.cons_append, wellEscaped_plain hb, wellEscaped_plain hb, ih, Bool.and_assoc]

/-- Excluding bytes that no escape can hold excludes them from the string. -/
theorem wellEscaped_excluding (bad : Bytes)
    (hb : ∀ b ∈ bad, b ≠ '%'.toUInt8 ∧ isAsciiHexdigit b = false) (s : Bytes) :
    wellEscaped (fun b => plain b && !bad.contains b) s = true ↔
      wellEscaped plain s = true ∧ ∀ b ∈ bad, b ∉ s := by
  induction s using wellEscaped.induct with
  | case1 => exact ⟨fun _ => ⟨rfl, fun b _ => List.not_mem_nil⟩, fun _ => rfl⟩
  | case2 h l s ih =>
    simp only [wellEscaped_escape, Bool.and_eq_true, ih]
    constructor
    · rintro ⟨hx, hs, hn⟩
      refine ⟨⟨hx, hs⟩, fun b hm hmem => ?_⟩
      rcases List.mem_cons.1 hmem with rfl | hmem
      · exact (hb _ hm).1 rfl
      · rcases List.mem_cons.1 hmem with rfl | hmem
        · exact absurd hx.1 (by simp [(hb _ hm).2])
        · rcases List.mem_cons.1 hmem with rfl | hmem
          · exact absurd hx.2 (by simp [(hb _ hm).2])
          · exact hn b hm hmem
    · rintro ⟨⟨hx, hs⟩, hn⟩
      exact ⟨hx, hs, fun b hm hmem => hn b hm
        (List.mem_cons_of_mem _ (List.mem_cons_of_mem _ (List.mem_cons_of_mem _ hmem)))⟩
  | case3 s hs => simp [wellEscaped_broken hs]
  | case4 b s hne ih =>
    rw [wellEscaped_plain hne, wellEscaped_plain hne, Bool.and_eq_true, Bool.and_eq_true, ih,
      Bool.and_eq_true, Bool.not_eq_true', List.contains_eq_mem, decide_eq_false_iff_not]
    simp only [List.mem_cons, not_or]
    constructor
    · rintro ⟨⟨hp, hbad⟩, hs, hn⟩
      exact ⟨⟨hp, hs⟩, fun c hc => ⟨fun he => hbad (he ▸ hc), hn c hc⟩⟩
    · rintro ⟨⟨hp, hs⟩, hn⟩
      exact ⟨⟨hp, fun hc => (hn b hc).1 rfl⟩, hs, fun c hc => (hn c hc).2⟩

theorem wellEscaped_queryKey (s : Bytes) : wellEscaped isUriQueryKeyPlainChar s = true ↔
    wellEscaped isUriQueryPlainChar s = true ∧ '&'.toUInt8 ∉ s ∧ '='.toUInt8 ∉ s :=
  (wellEscaped_excluding ['&'.toUInt8, '='.toUInt8] (by
    intro b hb
    rcases List.mem_pair.1 hb with rfl | rfl <;> decide) s).trans
    (and_congr_right fun _ => by simp)

theorem wellEscaped_queryValue (s : Bytes) : wellEscaped isUriQueryValuePlainChar s = true ↔
    wellEscaped isUriQueryPlainChar s = true ∧ '&'.toUInt8 ∉ s := by
  have hp : isUriQueryValuePlainChar = fun b =>
      isUriQueryPlainChar b && !List.contains ['&'.toUInt8] b := by
    funext b
    simp only [isUriQueryValuePlainChar, bne, List.contains_cons, List.contains_nil, Bool.or_false]
  rw [hp]
  exact (wellEscaped_excluding ['&'.toUInt8] (List.forall_mem_singleton.2 (by decide)) s).trans
    (and_congr_right fun _ => by simp)

/-- A pair is in the languages of the validator exactly when the piece it comes from is well
escaped. -/
theorem accepts_splitPair (hn : '&'.toUInt8 ∉ piece) :
    (queryKeyLanguage.accepts (splitPair piece).1 = true ∧
        queryValueLanguage.accepts (splitPair piece).2 = true) ↔
      wellEscaped isUriQueryPlainChar piece = true := by
  rw [queryKeyLanguage, queryValueLanguage, PatternInputLanguage.accepts_query,
    PatternInputLanguage.accepts_query, wellEscaped_queryKey, wellEscaped_queryValue, splitPair]
  cases hs : splitOnce '='.toUInt8 piece with
  | none =>
    rw [splitOnce_eq_none] at hs
    exact ⟨fun h => h.1.1, fun h => ⟨⟨h, hn, hs⟩, rfl, List.not_mem_nil⟩⟩
  | some kv =>
    obtain ⟨k, v⟩ := kv
    obtain ⟨hk, rfl⟩ := splitOnce_eq_some.1 hs
    rw [List.mem_append, List.mem_cons, not_or, not_or] at hn
    rw [wellEscaped_append (by decide) (by decide), Bool.and_eq_true, Bool.and_eq_true]
    exact ⟨fun h => ⟨h.1.1, rfl, h.2.1⟩, fun h => ⟨⟨h.1, hn.1, hk⟩, h.2.2, hn.2.2⟩⟩

theorem wellEscaped_splitAll (q : Bytes) : wellEscaped isUriQueryPlainChar q = true ↔
    ∀ piece ∈ splitAll '&'.toUInt8 q, wellEscaped isUriQueryPlainChar piece = true := by
  cases hs : splitOnce '&'.toUInt8 q with
  | none =>
    rw [splitOnce_eq_none] at hs
    rw [splitAll_of_not_mem hs, List.forall_mem_singleton]
  | some p =>
    obtain ⟨piece, rest⟩ := p
    obtain ⟨hn, rfl⟩ := splitOnce_eq_some.1 hs
    have ih := wellEscaped_splitAll rest
    rw [splitAll_append hn, List.forall_mem_cons, ← ih,
      wellEscaped_append (by decide) (by decide), Bool.and_eq_true, Bool.and_eq_true]
    exact ⟨fun h => ⟨h.1, h.2.2⟩, fun h => ⟨h.1, rfl, h.2⟩⟩
termination_by q.length
decreasing_by
  subst_vars
  simp only [List.length_append, List.length_cons]
  omega

/-- The validator's languages hold the pairs of exactly the queries of RFC 3986. -/
theorem accepts_splitQuery (q : Bytes) :
    (∀ pair ∈ splitQuery q, queryKeyLanguage.accepts pair.1 = true ∧
        queryValueLanguage.accepts pair.2 = true) ↔
      wellEscaped isUriQueryPlainChar q = true := by
  rw [wellEscaped_splitAll, splitQuery, List.forall_mem_map]
  exact forall₂_congr fun piece hp => accepts_splitPair (mem_splitAll hp).1

theorem accepts_locationPath (path : Bytes) : locationPathLanguage.accepts path = true ↔
    path.head? = some '/'.toUInt8 ∧ wellEscaped isUriPathPlainChar path = true := by
  rw [PatternInputLanguage.accepts_path]
  constructor
  · rintro ⟨rest, rfl, h⟩
    refine ⟨rfl, ?_⟩
    rw [wellEscaped_plain (by decide), h]
    rfl
  · cases path with
    | nil => rintro ⟨⟨⟩, -⟩
    | cons b rest =>
      rintro ⟨hb, h⟩
      cases Option.some.inj hb
      rw [wellEscaped_plain (by decide), Bool.and_eq_true] at h
      exact ⟨rest, rfl, h.2⟩

/-- Without the case flag an unreachable pattern matches no string of its language. -/
theorem unreachable_isMatch (hR : R.Faithful) {p : Pattern R Kind} (hp : p.Compiled)
    (hf : caseFlagged p.pattern = false) {L : PatternInputLanguage} (hL : L.Searchable)
    (h : validateReachable L p = .error (.emptyIntersection domain pattern))
    (hw : L.accepts w = true) : p.isMatch w = false := by
  rw [validateReachable] at h
  split at h
  · cases h
  · rename_i d hd
    split at h
    · cases h
    · rename_i hi
      rw [Bool.eq_false_iff]
      intro hm
      have hr := (hp.reaches_iff hR hd hL).2 ⟨w, hw, hm⟩
      rw [Pattern.reaches, Pattern.flaggedRegex, hf] at hr
      simp only [Bool.false_eq_true, if_false, hd] at hr
      exact hi hr

theorem queries_new (clientName : Option Bytes) (request : Request) (hq : q ∈ request.query) :
    (HttpRequest.new clientName request).queries = splitQuery q := by
  rw [HttpRequest.new, Option.mem_def.1 hq]

/-- Of the strings a request can hold the validator's languages are the ones of RFC 3986, and an
unreachable pattern without the case flag matches none of them. -/
theorem unreachable_matches_nothing (hR : R.Faithful) :
    (∀ clientName request q, q ∈ request.query →
      ((∀ pair ∈ (HttpRequest.new clientName request).queries,
        queryKeyLanguage.accepts pair.1 = true ∧ queryValueLanguage.accepts pair.2 = true) ↔
          wellEscaped isUriQueryPlainChar q = true)) ∧
    (∀ request : Request, locationPathLanguage.accepts request.path = true ↔
      wellEscaped isUriPathPlainChar request.path = true) ∧
    (∀ s p domain t, NormalPattern.fromStr R s = .ok p → caseFlagged s = false →
      ∀ clientName request q, q ∈ request.query → wellEscaped isUriQueryPlainChar q = true →
        ∀ pair ∈ (HttpRequest.new clientName request).queries,
          (validateReachable queryKeyLanguage p = .error (.emptyIntersection domain t) →
            p.isMatch pair.1 = false) ∧
          (validateReachable queryValueLanguage p = .error (.emptyIntersection domain t) →
            p.isMatch pair.2 = false)) ∧
    (∀ s p domain t, LocationPattern.compile R s = .ok p → caseFlagged s = false →
      validateReachable locationPathLanguage p = .error (.emptyIntersection domain t) →
        ∀ request : Request, wellEscaped isUriPathPlainChar request.path = true →
          p.isMatch request.path = false) := by
  have hpath (request : Request) : locationPathLanguage.accepts request.path = true ↔
      wellEscaped isUriPathPlainChar request.path = true := by
    rw [accepts_locationPath]
    exact and_iff_right request.path_bytes.1
  refine ⟨fun clientName request q hq => ?_, hpath, ?_, ?_⟩
  · rw [queries_new clientName request hq]
    exact accepts_splitQuery q
  · intro s p domain t hs hf clientName request q hq hw pair hmem
    rw [queries_new clientName request hq] at hmem
    obtain ⟨hk, hv⟩ := (accepts_splitQuery q).2 hw pair hmem
    have hc := NormalPattern.fromStr_compiled hR hs
    rw [← NormalPattern.fromStr_pattern hs] at hf
    exact ⟨fun h => unreachable_isMatch hR hc hf PatternInputLanguage.searchable_queryKey h hk,
      fun h => unreachable_isMatch hR hc hf PatternInputLanguage.searchable_queryValue h hv⟩
  · intro s p domain t hs hf h request hw
    have hc := LocationPattern.compile_compiled hR hs
    rw [← LocationPattern.compile_pattern hs] at hf
    exact unreachable_isMatch hR hc hf PatternInputLanguage.searchable_locationPath h
      ((hpath request).2 hw)

/-- The location `= a` is rejected: no path starts with `a`. -/
theorem unreachable_location_matches_nothing : ∃ p : LocationPattern literalLib,
    LocationPattern.compile literalLib (text "= a") = .ok p ∧
      p.isMatch (asciiBytes "/") = false := by
  have ha : (text "a").all isWordChar = true := by decide
  have hc : LocationPattern.compile literalLib (text "= a") =
      .ok ⟨.exact, ⟨text "a", true⟩, text "= a"⟩ := by
    have hs : splitOnce ' ' (text "= a") = some (['='], text "a") := by decide
    simp only [LocationPattern.compile, hs, exactRegex_literal _ ha]
    rfl
  refine ⟨_, hc, ?_⟩
  refine (unreachable_matches_nothing literalLib_faithful).2.2.2 _ _ "location path"
    (text "= a") hc (by decide) ?_
    (.sample (asciiBytes "GET") none [] PatternInputLanguage.isToken_get (by rintro q ⟨⟩) (by rintro h ⟨⟩))
    (by decide)
  have hd : literalLib.dense (literalLib.asStr ⟨text "a", true⟩) =
      .ok (literalDfa (asciiBytes "a") true) :=
    literalLib_dense_text ⟨text "a", true⟩ ha
  rw [validateReachable, hd]
  apply if_neg
  rw [literalDfa_intersects _ PatternInputLanguage.searchable_locationPath]
  intro h
  obtain ⟨w, hw, hm⟩ := h
  have he : w = asciiBytes "a" := eq_of_beq hm
  rw [he] at hw
  exact absurd hw (by decide)

/-- The query `a[]=1` is a query of the `http` crate whose key the validator excludes. -/
theorem queries_not_accepted : ¬ ∀ clientName (request : Request),
    ∀ pair ∈ (HttpRequest.new clientName request).queries,
      queryKeyLanguage.accepts pair.1 = true ∧ queryValueLanguage.accepts pair.2 = true := by
  intro h
  have hp := h none (.sample (asciiBytes "GET") (some (asciiBytes "a[]=1")) [] PatternInputLanguage.isToken_get
    (by rintro q ⟨⟩; decide) (by rintro h ⟨⟩)) (asciiBytes "a[]", asciiBytes "1")
    (by decide)
  exact absurd hp.1 (by decide)

end Dhttp.Access
