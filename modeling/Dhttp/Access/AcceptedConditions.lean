import Dhttp.Access.LiteralLib

namespace Dhttp.Access
open Dhttp.Lib
set_option autoImplicit true

variable {R : RegexLib}

def bytesWith (p : UInt8 → Bool) : Bytes := ((List.range 256).map UInt8.ofNat).filter p

theorem mem_bytesWith {p : UInt8 → Bool} : b ∈ bytesWith p ↔ p b = true := by
  rw [bytesWith, List.mem_filter]
  refine and_iff_right (List.mem_map.2 ⟨b.toNat, List.mem_range.2 b.toNat_lt, ?_⟩)
  exact UInt8.ofNat_toNat

/-- The header names of a request. -/
def requestHeaderNameLanguage : PatternInputLanguage := tokenLanguage "header name" lowercaseTchars

/-- The query keys and values of a request: `HttpRequest::new` splits at `&` and `=`. -/
def requestKeyLanguage : PatternInputLanguage :=
  stringLanguage "query key" (bytesWith fun b =>
    isHttpQueryByte b && b != '&'.toUInt8 && b != '='.toUInt8)

def requestValueLanguage : PatternInputLanguage :=
  stringLanguage "query value" (bytesWith fun b => isHttpQueryByte b && b != '&'.toUInt8)

theorem toStr_eq_some : toStr value = some s ↔
    s = value ∧ value.all fieldValueChars.contains = true := by
  have hc : (fieldValueChars.contains ·) = fun b => (0x20 ≤ b && b < 0x7F) || b == 0x09 :=
    funext fieldValueChars_contains
  rw [toStr, Option.ite_none_right_eq_some, Option.some.injEq, and_comm, eq_comm]
  exact and_congr_right fun _ => by rw [← hc]

/-- An atom some request satisfies. -/
def Satisfiable (a : AtomicLocationRuleExpr R) : Prop :=
  ∃ clientName request, a.eval (HttpRequest.new clientName request) = .ok true

theorem satisfiable_method (m : Method R) : Satisfiable (.method m) ↔
    ∃ w, httpMethodLanguage.accepts w = true ∧ m.pattern.isMatch w = true := by
  constructor
  · rintro ⟨clientName, request, h⟩
    refine ⟨request.method, ?_, Except.ok.inj h⟩
    rw [httpMethodLanguage, PatternInputLanguage.accepts_token]
    exact request.method_token
  · rintro ⟨w, hw, hm⟩
    rw [httpMethodLanguage, PatternInputLanguage.accepts_token] at hw
    refine ⟨none, .sample w none [] hw (by rintro q ⟨⟩) (by rintro h ⟨⟩), ?_⟩
    exact congrArg Except.ok hm

theorem satisfiable_header (h : Header R) : Satisfiable (.header h) ↔
    (∃ n, requestHeaderNameLanguage.accepts n = true ∧ h.pattern.key.isMatch n = true) ∧
      ∃ v, headerValueLanguage.accepts v = true ∧ h.pattern.value.isMatch v = true := by
  rw [requestHeaderNameLanguage, headerValueLanguage]
  simp only [PatternInputLanguage.accepts_token, PatternInputLanguage.accepts_string]
  constructor
  · rintro ⟨clientName, request, he⟩
    obtain ⟨⟨n, v⟩, hmem, hev⟩ := List.any_eq_true.1 (Except.ok.inj he)
    rw [Header.eval] at hev
    split at hev
    · cases hev
    · rename_i s hs
      obtain ⟨rfl, hv⟩ := toStr_eq_some.1 hs
      rw [KVPattern.eval, Bool.and_eq_true] at hev
      exact ⟨⟨n, (request.header_bytes _ hmem).1, hev.1⟩, ⟨s, hv, hev.2⟩⟩
  · rintro ⟨⟨n, hn, hkey⟩, v, hv, hvalue⟩
    have hb : v.all isHeaderValueByte = true := by
      refine List.all_eq_true.2 fun b hb => ?_
      have hc := List.all_eq_true.1 hv b hb
      rw [fieldValueChars_contains] at hc
      rw [isHeaderValueByte]
      grind
    refine ⟨none, .sample (asciiBytes "GET") none [(n, v)] PatternInputLanguage.isToken_get (by rintro q ⟨⟩)
      (List.forall_mem_singleton.2 ⟨hn, hb⟩), ?_⟩
    refine congrArg Except.ok (List.any_eq_true.2 ⟨(n, v), List.mem_singleton_self _, ?_⟩)
    rw [Header.eval, toStr_eq_some.2 ⟨rfl, hv⟩]
    simp only [KVPattern.eval, hkey, hvalue, Bool.and_self]

theorem splitPair_join (hk : '='.toUInt8 ∉ k) (v : Bytes) :
    splitPair (k ++ '='.toUInt8 :: v) = (k, v) := by
  rw [splitPair, splitOnce_eq_some.2 ⟨hk, rfl⟩]
  rfl

/-- What `HttpRequest::new` hands to a query condition. -/
theorem splitQuery_bytes (hq : q.all isHttpQueryByte = true) (h : pair ∈ splitQuery q) :
    requestKeyLanguage.accepts pair.1 = true ∧ requestValueLanguage.accepts pair.2 = true := by
  obtain ⟨piece, hp, rfl⟩ := List.mem_map.1 h
  obtain ⟨hn, hsub⟩ := mem_splitAll hp
  have hb {b : UInt8} (hb : b ∈ piece) : isHttpQueryByte b = true ∧ b ≠ '&'.toUInt8 :=
    ⟨List.all_eq_true.1 hq b (hsub hb), fun he => hn (he ▸ hb)⟩
  rw [requestKeyLanguage, requestValueLanguage, PatternInputLanguage.accepts_string,
    PatternInputLanguage.accepts_string, List.all_eq_true, List.all_eq_true]
  simp only [List.contains_iff_mem, mem_bytesWith, Bool.and_eq_true, bne_iff_ne, ne_eq]
  rw [splitPair]
  cases hs : splitOnce '='.toUInt8 piece with
  | none =>
    rw [splitOnce_eq_none] at hs
    exact ⟨fun b hm => ⟨hb hm, fun he => hs (he ▸ hm)⟩, by rintro b ⟨⟩⟩
  | some kv =>
    obtain ⟨k, v⟩ := kv
    obtain ⟨hk, rfl⟩ := splitOnce_eq_some.1 hs
    refine ⟨fun b hm => ⟨hb (List.mem_append_left _ hm), fun he => hk (he ▸ hm)⟩, fun b hm => ?_⟩
    exact hb (List.mem_append_right _ (List.mem_cons_of_mem _ hm))

theorem satisfiable_query (q : Query R) : Satisfiable (.query q) ↔
    (∃ k, requestKeyLanguage.accepts k = true ∧ q.pattern.key.isMatch k = true) ∧
      ∃ v, requestValueLanguage.accepts v = true ∧ q.pattern.value.isMatch v = true := by
  constructor
  · rintro ⟨clientName, request, he⟩
    obtain ⟨pair, hmem, hev⟩ := List.any_eq_true.1 (Except.ok.inj he)
    rw [HttpRequest.new] at hmem
    cases hq : request.query with
    | none =>
      rw [hq] at hmem
      cases hmem
    | some s =>
      rw [hq] at hmem
      obtain ⟨hk, hv⟩ := splitQuery_bytes (request.query_bytes s hq) hmem
      rw [Query.eval, KVPattern.eval, Bool.and_eq_true] at hev
      exact ⟨⟨pair.1, hk, hev.1⟩, ⟨pair.2, hv, hev.2⟩⟩
  · rintro ⟨⟨k, hk, hkey⟩, v, hv, hvalue⟩
    rw [requestKeyLanguage, PatternInputLanguage.accepts_string, List.all_eq_true] at hk
    rw [requestValueLanguage, PatternInputLanguage.accepts_string, List.all_eq_true] at hv
    simp only [List.contains_iff_mem, mem_bytesWith, Bool.and_eq_true, bne_iff_ne, ne_eq] at hk hv
    have hq : (k ++ '='.toUInt8 :: v).all isHttpQueryByte = true := by
      refine List.all_eq_true.2 fun b hb => ?_
      rcases List.mem_append.1 hb with hb | hb
      · exact (hk b hb).1.1
      · rcases List.mem_cons.1 hb with rfl | hb
        · rfl
        · exact (hv b hb).1
    have hn : '&'.toUInt8 ∉ k ++ '='.toUInt8 :: v := by
      intro hm
      rcases List.mem_append.1 hm with hm | hm
      · exact (hk _ hm).1.2 rfl
      · rcases List.mem_cons.1 hm with hm | hm
        · cases hm
        · exact (hv _ hm).2 rfl
    refine ⟨none, .sample (asciiBytes "GET") (some (k ++ '='.toUInt8 :: v)) [] PatternInputLanguage.isToken_get
      (by rintro q ⟨⟩; exact hq) (by rintro h ⟨⟩), ?_⟩
    refine congrArg Except.ok (List.any_eq_true.2 ⟨(k, v), ?_, ?_⟩)
    · change (k, v) ∈ splitQuery (k ++ '='.toUInt8 :: v)
      rw [splitQuery, splitAll_of_not_mem hn, List.map_singleton,
        splitPair_join fun hm => (hk _ hm).2 rfl]
      exact List.mem_singleton_self _
    · rw [Query.eval, KVPattern.eval, hkey, hvalue]
      rfl

theorem searchable_requestHeaderName : requestHeaderNameLanguage.Searchable :=
  PatternInputLanguage.searchable_token _
    (List.mem_filter.2 ⟨PatternInputLanguage.mem_tchars, rfl⟩) (by
      rw [lowercaseTchars, tchars, asciiBytes_ofList]
      decide)

theorem isAscii_bytesWith {p : UInt8 → Bool} (hp : ∀ b, p b = true → isHttpQueryByte b = true) :
    isAscii (bytesWith p) = true := by
  refine List.all_eq_true.2 fun b hb => ?_
  have hq := hp b (mem_bytesWith.1 hb)
  rw [isHttpQueryByte] at hq
  grind

theorem searchable_requestKey : requestKeyLanguage.Searchable :=
  PatternInputLanguage.searchable_string _ (isAscii_bytesWith fun b hb => by
    rw [Bool.and_eq_true, Bool.and_eq_true] at hb
    exact hb.1.1)

theorem searchable_requestValue : requestValueLanguage.Searchable :=
  PatternInputLanguage.searchable_string _ (isAscii_bytesWith fun b hb => by
    rw [Bool.and_eq_true] at hb
    exact hb.1)

/-- A language whose alphabet has only such bytes accepts only strings of them. -/
theorem accepts_bytesWith {L : PatternInputLanguage} {p : UInt8 → Bool} (hL : L.Searchable)
    (hp : L.alphabet.all p = true) (h : L.accepts w = true) :
    (stringLanguage label (bytesWith p)).accepts w = true := by
  rw [PatternInputLanguage.accepts_string, List.all_eq_true]
  intro b hm
  rw [List.contains_iff_mem, mem_bytesWith]
  exact List.all_eq_true.1 hp b (hL.recovers.mem_alphabet h b hm)

theorem accepts_requestKey (h : queryKeyLanguage.accepts w = true) :
    requestKeyLanguage.accepts w = true := by
  apply accepts_bytesWith PatternInputLanguage.searchable_queryKey _ h
  change uriQueryKeyAlphabet.all _ = true
  rw [uriQueryKeyAlphabet, asciiBytes_ofList]
  decide

theorem accepts_requestValue (h : queryValueLanguage.accepts w = true) :
    requestValueLanguage.accepts w = true := by
  apply accepts_bytesWith PatternInputLanguage.searchable_queryValue _ h
  change uriQueryValueAlphabet.all _ = true
  rw [uriQueryValueAlphabet, asciiBytes_ofList]
  decide

/-- An accepted condition can hold of a request exactly when the case flags of its patterns leave
them something to match and a header name is matched in lower case. -/
theorem accepted_satisfiable_iff (hR : R.Faithful) :
    (∀ s p m, NormalPattern.fromStr R s = .ok p → Method.new p = .ok m →
      (Satisfiable (.method m) ↔ p.FlagKeeps httpMethodLanguage)) ∧
    (∀ ks k vs v p, NormalPattern.fromStr R ks = .ok k → NormalPattern.fromStr R vs = .ok v →
      KVPattern.newHeader k v = .ok p →
      (Satisfiable (.header ⟨p⟩) ↔
        k.reaches requestHeaderNameLanguage = true ∧ v.FlagKeeps headerValueLanguage)) ∧
    (∀ ks k vs v p, NormalPattern.fromStr R ks = .ok k → NormalPattern.fromStr R vs = .ok v →
      KVPattern.newQuery k v = .ok p →
      (Satisfiable (.query ⟨p⟩) ↔
        k.FlagKeeps requestKeyLanguage ∧ v.FlagKeeps requestValueLanguage)) := by
  refine ⟨fun s p m hp hm => ?_, fun ks k vs v p hk hv hn => ?_, fun ks k vs v p hk hv hn => ?_⟩
  · rw [Method.new] at hm
    obtain ⟨hr, hm⟩ := validated_of_mapError hm
    cases hm
    rw [satisfiable_method]
    exact ((NormalPattern.fromStr_compiled hR hp).flagKeeps_iff hR hr
      PatternInputLanguage.searchable_httpMethod PatternInputLanguage.searchable_httpMethod
      fun _ => id).symm
  · obtain ⟨hrk, hrv, rfl⟩ := KVPattern.new_validated hn
    obtain ⟨d, hd, -⟩ := validateReachable_ok hrk
    rw [satisfiable_header, (NormalPattern.fromStr_compiled hR hk).reaches_iff hR hd
      searchable_requestHeaderName, (NormalPattern.fromStr_compiled hR hv).flagKeeps_iff hR hrv
      PatternInputLanguage.searchable_headerValue PatternInputLanguage.searchable_headerValue
      fun _ => id]
  · obtain ⟨hrk, hrv, rfl⟩ := KVPattern.new_validated hn
    rw [satisfiable_query, (NormalPattern.fromStr_compiled hR hk).flagKeeps_iff hR hrk
      PatternInputLanguage.searchable_queryKey searchable_requestKey
      fun _ => accepts_requestKey, (NormalPattern.fromStr_compiled hR hv).flagKeeps_iff hR hrv
      PatternInputLanguage.searchable_queryValue searchable_requestValue
      fun _ => accepts_requestValue]

theorem accepted_satisfiable_get : ∃ m,
    Method.new (literalPattern (text "GET")) = .ok m ∧ Satisfiable (.method m) := by
  have hr := literal_validate PatternInputLanguage.searchable_httpMethod
    (literalPattern (text "GET")) (by decide) PatternInputLanguage.accepts_get
  have hm : Method.new (literalPattern (text "GET")) = .ok ⟨literalPattern (text "GET")⟩ := by
    rw [Method.new, hr]
    rfl
  refine ⟨_, hm, ?_⟩
  exact ((accepted_satisfiable_iff literalLib_faithful).1 _ _ _
    (literalPattern_fromStr _ (by decide)) hm).2 fun h => by cases h

/-- A header name written in upper case is accepted and matches the header name of no request. -/
theorem accepted_header_unsatisfiable : ∃ p,
    NormalPattern.fromStr literalLib (text "= User") = .ok (literalPattern (text "User")) ∧
      NormalPattern.fromStr literalLib (text "= v") = .ok (literalPattern (text "v")) ∧
      KVPattern.newHeader (literalPattern (text "User")) (literalPattern (text "v")) = .ok p ∧
      ¬ Satisfiable (.header ⟨p⟩) := by
  have hk := literal_validate PatternInputLanguage.searchable_headerName
    (literalPattern (text "User")) (by decide) (by
      rw [headerNameLanguage, PatternInputLanguage.accepts_token, tchars, asciiBytes_ofList]
      decide)
  have hv := literal_validate PatternInputLanguage.searchable_headerValue
    (literalPattern (text "v")) (by decide) (by
      rw [headerValueLanguage, PatternInputLanguage.accepts_string, fieldValueChars,
        asciiBytes_ofList]
      decide)
  refine ⟨⟨literalPattern (text "User"), literalPattern (text "v")⟩,
    literalPattern_fromStr _ (by decide), literalPattern_fromStr _ (by decide), ?_, ?_⟩
  · rw [KVPattern.newHeader, KVPattern.new, hk, hv]
    rfl
  · rw [satisfiable_header]
    rintro ⟨⟨n, hn, hm⟩, -⟩
    have he : n = Literal.bytes ⟨text "User", true⟩ := eq_of_beq hm
    rw [he, requestHeaderNameLanguage, PatternInputLanguage.accepts_token, lowercaseTchars, tchars,
      asciiBytes_ofList] at hn
    exact absurd hn (by decide)

end Dhttp.Access
