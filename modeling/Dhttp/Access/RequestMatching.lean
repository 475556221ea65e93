import Dhttp.Access.InputLanguages
import Dhttp.Access.Atoms

namespace Dhttp.Access
open Dhttp.Lib
set_option autoImplicit true

def isAscii (s : Bytes) : Bool := s.all (· < 0x80)

/-- Documented behaviour of the libraries: a regular expression keeps its source, the DFA of a
source finds what the expression matches, and the builder's case flag is written `(?i)`. -/
structure RegexLib.Faithful (R : RegexLib) : Prop where
  asStr_new : ∀ {s r}, R.new s = .ok r → R.asStr r = s
  asStr_newCaseInsensitive : ∀ {s r}, R.newCaseInsensitive s = .ok r → R.asStr r = s
  dense_new : ∀ {s r d}, R.new s = .ok r → R.dense s = .ok d →
    ∀ w, isAscii w = true → R.isMatch r w = d.finds w
  dense_newCaseInsensitive : ∀ {s r d}, R.newCaseInsensitive s = .ok r → R.dense s = .ok d →
    ∃ d', R.dense (text "(?i)" ++ s) = .ok d' ∧
      ∀ w, isAscii w = true → R.isMatch r w = d'.finds w
  conventions : ∀ {s d}, R.dense s = .ok d → d.Conventions ['%'.toUInt8]

/-- Patterns `~* regex`, whose case flag is not part of their regular expression's text. -/
def caseFlagged (pattern : Text) : Bool :=
  match splitOnce ' ' pattern with
  | some (['~', '*'], _) => true
  | _ => false

variable {R : RegexLib}

/-- The regular expression of a pattern with its case flag written in. -/
def Pattern.flaggedRegex (p : Pattern R Kind) : Text :=
  if caseFlagged p.pattern then text "(?i)" ++ R.asStr p.regex else R.asStr p.regex

/-- The search of `validate_reachable`, with the case flag taken into account. -/
def Pattern.reaches (L : PatternInputLanguage) (p : Pattern R Kind) : Bool :=
  match R.dense p.flaggedRegex with
  | .ok dfa => dfa.intersects L
  | .error _ => false

/-- The case flag, if there is one, leaves something to match. -/
def Pattern.FlagKeeps (L : PatternInputLanguage) (p : Pattern R Kind) : Prop :=
  caseFlagged p.pattern = true → p.reaches L = true

/-- The compiled expression of a pattern comes from its text, by the builder its flag selects. -/
def Pattern.Compiled (p : Pattern R Kind) : Prop :=
  if caseFlagged p.pattern then R.newCaseInsensitive (R.asStr p.regex) = .ok p.regex
  else R.new (R.asStr p.regex) = .ok p.regex

theorem globPattern_compiled (hR : R.Faithful) (h : globPattern R ci s = .ok r) :
    R.new (R.asStr r) = .ok r := by
  rw [globPattern] at h
  split at h
  · cases h
  · have hg := ok_of_mapError h
    rw [globToRegex] at hg
    rw [hR.asStr_new hg, hg]

theorem new_compiled (hR : R.Faithful) (h : R.new s = .ok r) : R.new (R.asStr r) = .ok r := by
  rw [hR.asStr_new h, h]

theorem newCaseInsensitive_compiled (hR : R.Faithful) (h : R.newCaseInsensitive s = .ok r) :
    R.newCaseInsensitive (R.asStr r) = .ok r := by
  rw [hR.asStr_newCaseInsensitive h, h]

theorem NormalPattern.fromStr_compiled (hR : R.Faithful) (h : NormalPattern.fromStr R s = .ok p) :
    p.Compiled := by
  have hp := NormalPattern.fromStr_pattern h
  rw [Pattern.Compiled, hp, caseFlagged]
  rw [fromStr] at h
  split at h <;> rename_i hs
  · obtain ⟨r, hr, rfl⟩ := ok_of_map h
    simp only [hs]
    exact new_compiled hR (ok_of_mapError hr)
  · obtain ⟨r, hr, rfl⟩ := ok_of_map h
    simp only [hs]
    exact globPattern_compiled hR hr
  · obtain ⟨r, hr, rfl⟩ := ok_of_map h
    simp only [hs]
    exact new_compiled hR (ok_of_mapError hr)
  · obtain ⟨r, hr, rfl⟩ := ok_of_map h
    simp only [hs]
    exact newCaseInsensitive_compiled hR (ok_of_mapError hr)
  · obtain ⟨r, hr, rfl⟩ := ok_of_map h
    split
    · rename_i pat he
      exact absurd he (hs pat)
    · exact globPattern_compiled hR hr

theorem LocationPattern.compile_compiled (hR : R.Faithful)
    (h : LocationPattern.compile R s = .ok p) : p.Compiled := by
  have hp := LocationPattern.compile_pattern h
  rw [Pattern.Compiled, hp, caseFlagged]
  rw [compile] at h
  split at h <;> rename_i hs
  · split at h
    · obtain ⟨r, hr, rfl⟩ := ok_of_map h
      simp only [hs]
      exact new_compiled hR (ok_of_mapError hr)
    · split at h
      · obtain ⟨r, hr, rfl⟩ := ok_of_map h
        simp only [hs]
        exact new_compiled hR (ok_of_mapError hr)
      · cases h
  · obtain ⟨r, hr, rfl⟩ := ok_of_map h
    simp only [hs]
    exact new_compiled hR (ok_of_mapError hr)
  · obtain ⟨r, hr, rfl⟩ := ok_of_map h
    simp only [hs]
    exact new_compiled hR (ok_of_mapError hr)
  · obtain ⟨r, hr, rfl⟩ := ok_of_map h
    simp only [hs]
    exact new_compiled hR (ok_of_mapError hr)
  · obtain ⟨r, hr, rfl⟩ := ok_of_map h
    simp only [hs]
    exact newCaseInsensitive_compiled hR (ok_of_mapError hr)
  · cases h

/-- The automaton of the flagged expression decides the matches of a compiled pattern. -/
theorem Pattern.Compiled.dense (hR : R.Faithful) {p : Pattern R Kind} (hp : p.Compiled)
    (hd : R.dense (R.asStr p.regex) = .ok d) :
    ∃ d', R.dense p.flaggedRegex = .ok d' ∧ ∀ w, isAscii w = true → p.isMatch w = d'.finds w := by
  rw [Compiled] at hp
  rw [flaggedRegex]
  split at hp <;> rename_i hf
  · rw [if_pos hf]
    exact hR.dense_newCaseInsensitive hp hd
  · rw [if_neg hf]
    exact ⟨d, hd, hR.dense_new hp hd⟩

/-- A language of ASCII strings on which the search is exact. -/
structure PatternInputLanguage.Searchable (L : PatternInputLanguage) : Prop where
  recovers : L.Recovers ['%'.toUInt8]
  ascii : isAscii L.alphabet = true

theorem PatternInputLanguage.Searchable.isAscii {L : PatternInputLanguage} (h : L.Searchable)
    (hw : L.accepts w = true) : isAscii w = true :=
  List.all_eq_true.2 fun b hb =>
    List.all_eq_true.1 h.ascii b (h.recovers.mem_alphabet hw b hb)

/-- A pattern reaches a language exactly when it matches one of its strings. -/
theorem Pattern.Compiled.reaches_iff (hR : R.Faithful) {p : Pattern R Kind} (hp : p.Compiled)
    (hd : R.dense (R.asStr p.regex) = .ok d) {L : PatternInputLanguage} (hL : L.Searchable) :
    p.reaches L = true ↔ ∃ w, L.accepts w = true ∧ p.isMatch w = true := by
  obtain ⟨d', hd', hm⟩ := hp.dense hR hd
  rw [reaches, hd']
  simp only [Dfa.intersects_iff (hR.conventions hd') hL.recovers]
  refine exists_congr fun w => and_congr_right fun hw => ?_
  rw [hm w (hL.isAscii hw)]

theorem validateReachable_ok {p : Pattern R Kind} (h : validateReachable L p = .ok ()) :
    ∃ d, R.dense (R.asStr p.regex) = .ok d ∧ d.intersects L = true := by
  rw [validateReachable] at h
  split at h
  · cases h
  · rename_i d hd
    split at h
    · rename_i hi
      exact ⟨d, hd, hi⟩
    · cases h

/-- Without the case flag the search of `validate_reachable` is the search of the pattern. -/
theorem validateReachable_reaches {p : Pattern R Kind} (h : validateReachable L p = .ok ())
    (hf : caseFlagged p.pattern = false) : p.reaches L = true := by
  obtain ⟨d, hd, hi⟩ := validateReachable_ok h
  rw [Pattern.reaches, Pattern.flaggedRegex, hf]
  simp only [Bool.false_eq_true, if_false, hd, hi]

/-- A pattern accepted for `L` matches a string of a larger language unless its flag prevents
it. -/
theorem Pattern.Compiled.flagKeeps_iff (hR : R.Faithful) {p : Pattern R Kind} (hp : p.Compiled)
    {L L' : PatternInputLanguage} (hv : validateReachable L p = .ok ()) (hL : L.Searchable)
    (hL' : L'.Searchable) (hsub : ∀ w, L.accepts w = true → L'.accepts w = true) :
    p.FlagKeeps L' ↔ ∃ w, L'.accepts w = true ∧ p.isMatch w = true := by
  obtain ⟨d, hd, -⟩ := validateReachable_ok hv
  constructor
  · intro h
    cases hf : caseFlagged p.pattern with
    | true => exact (hp.reaches_iff hR hd hL').1 (h hf)
    | false =>
      obtain ⟨w, hw, hm⟩ := (hp.reaches_iff hR hd hL).1 (validateReachable_reaches hv hf)
      exact ⟨w, hsub w hw, hm⟩
  · exact fun h _ => (hp.reaches_iff hR hd hL').2 h

namespace PatternInputLanguage

theorem searchable_token (label : String) (hb : b ∈ chars) (hc : Access.isAscii chars = true) :
    (tokenLanguage label chars).Searchable :=
  ⟨recovers_token hb _, hc⟩

theorem searchable_string (label : String) (hc : Access.isAscii chars = true) :
    (stringLanguage label chars).Searchable :=
  ⟨recovers_string _, hc⟩

theorem isAscii_tchars : Access.isAscii tchars = true := by
  rw [tchars, asciiBytes_ofList]
  decide

theorem mem_tchars : '!'.toUInt8 ∈ tchars := by
  rw [tchars, asciiBytes_ofList]
  exact List.mem_cons_self ..

theorem searchable_httpMethod : httpMethodLanguage.Searchable :=
  searchable_token _ mem_tchars isAscii_tchars

theorem searchable_headerName : headerNameLanguage.Searchable :=
  searchable_token _ mem_tchars isAscii_tchars

theorem searchable_headerValue : headerValueLanguage.Searchable :=
  searchable_string _ (by
    rw [fieldValueChars, asciiBytes_ofList]
    decide)

theorem searchable_queryKey : queryKeyLanguage.Searchable :=
  ⟨recovers_queryKey, by
    rw [queryKeyLanguage, queryLanguage, uriQueryKeyAlphabet, asciiBytes_ofList]
    decide⟩

theorem searchable_queryValue : queryValueLanguage.Searchable :=
  ⟨recovers_queryValue, by
    rw [queryValueLanguage, queryLanguage, uriQueryValueAlphabet, asciiBytes_ofList]
    decide⟩

theorem searchable_locationPath : locationPathLanguage.Searchable :=
  ⟨recovers_locationPath, by
    rw [locationPathLanguage, uriPathAlphabet, asciiBytes_ofList]
    decide⟩

theorem searchable_clientName : clientNameLanguage.Searchable :=
  ⟨recovers_host _ _, by
    rw [clientNameLanguage, hostLanguage, hostChars, asciiBytes_ofList]
    decide⟩

theorem isToken_get : isToken tchars (asciiBytes "GET") = true := by
  rw [isToken, tchars, asciiBytes_ofList, asciiBytes_ofList]
  decide

theorem accepts_get : httpMethodLanguage.accepts (asciiBytes "GET") = true :=
  (accepts_token _).trans isToken_get

end PatternInputLanguage
end Dhttp.Access
