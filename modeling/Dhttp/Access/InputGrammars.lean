import Dhttp.Access.RejectedPatterns
import Dhttp.Home.DnsNames

namespace Dhttp.Access
open Dhttp.Lib
set_option autoImplicit true

/-- The languages a rule pattern is searched in. -/
def inputLanguages : List PatternInputLanguage :=
  [clientNameLanguage, domainNameLanguage, httpMethodLanguage, headerNameLanguage,
    headerValueLanguage, locationPathLanguage, queryKeyLanguage, queryValueLanguage]

namespace PatternInputLanguage

theorem searchable_domainName : domainNameLanguage.Searchable :=
  ⟨recovers_host _ _, searchable_clientName.ascii⟩

theorem searchable_inputLanguages : ∀ L ∈ inputLanguages, L.Searchable := by
  simp only [inputLanguages, List.forall_mem_cons]
  exact ⟨searchable_clientName, searchable_domainName, searchable_httpMethod, searchable_headerName,
    searchable_headerValue, searchable_locationPath, searchable_queryKey, searchable_queryValue,
    fun _ h => absurd h List.not_mem_nil⟩

end PatternInputLanguage

/-- The search finds a string of the language and a match in it, or there is none. -/
theorem intersects_exact {d : Dfa} (h : d.Conventions ['%'.toUInt8]) : ∀ L ∈ inputLanguages,
    (d.intersects L = true ↔ ∃ input, L.accepts input = true ∧ d.finds input = true) := by
  intro L hL
  exact d.intersects_iff h (PatternInputLanguage.searchable_inputLanguages L hL).recovers

/-- The pattern `%41` is reached: it is the escape of a query value. -/
theorem intersects_escape :
    (literalDfa (asciiBytes "%41") true).intersects queryValueLanguage = true := by
  apply (intersects_exact (literalDfa_conventions _ _ _) queryValueLanguage (by
    simp [inputLanguages])).2
  refine ⟨asciiBytes "%41", ?_, ?_⟩
  · exact (PatternInputLanguage.accepts_query _).trans (by decide)
  · rw [literalDfa_finds]
    decide

/-- Host names in either case. -/
def hostNames : NameSyntax UInt8 where
  letter := isAsciiAlphanumeric
  hyphen := '-'.toUInt8
  dot := '.'.toUInt8
  maxLabel := 63
  maxName := 253
  hyphen_letter := by decide
  dot_letter := by decide

/-- What the states of the host automaton stand for: the label read so far, and how many bytes. -/
inductive HostReading : DomainState → Option (Nat × Bool) → Nat → Prop
  | dot (h : total.toNat ≤ 253) : HostReading ⟨0, 0, total⟩ none total.toNat
  | letter (hl : len.toNat ≤ 63) (h : total.toNat ≤ 253) :
      HostReading ⟨1, len, total⟩ (some (len.toNat, false)) total.toNat
  | hyphen (hl : len.toNat ≤ 63) (h : total.toNat ≤ 253) :
      HostReading ⟨2, len, total⟩ (some (len.toNat, true)) total.toNat

theorem checkedSucc_eq {n : UInt16} (h : n.toNat ≤ 253) : checkedSucc n = some (n + 1) := by
  apply if_neg
  intro he
  rw [he] at h
  exact absurd h (by decide)

theorem toNat_succ {n : UInt16} (h : n.toNat ≤ 253) : (n + 1).toNat = n.toNat + 1 := by
  rw [UInt16.toNat_add]
  exact Nat.mod_eq_of_lt (by simp only [UInt16.reduceToNat]; omega)

namespace PatternInputLanguage

variable {label : String}

/-- One step of the host automaton, with its counters read as numbers. -/
theorem step_host {len total : UInt16} (kind : UInt16) (b : UInt8) (hl : len.toNat ≤ 63)
    (ht : total.toNat ≤ 253) :
    (hostLanguage label).step ⟨kind, len, total⟩ b =
      if 253 < total.toNat + 1 then none
      else if kind = 0 ∧ isAsciiAlphanumeric b then some ⟨1, 1, total + 1⟩
      else if (kind = 1 ∨ kind = 2) ∧ isAsciiAlphanumeric b then
        if len.toNat + 1 ≤ 63 then some ⟨1, len + 1, total + 1⟩ else none
      else if (kind = 1 ∨ kind = 2) ∧ b = '-'.toUInt8 then
        if len.toNat + 1 ≤ 63 then some ⟨2, len + 1, total + 1⟩ else none
      else if kind = 1 ∧ b = '.'.toUInt8 then some ⟨0, 0, total + 1⟩
      else none := by
  have hlen : len.toNat ≤ 253 := Nat.le_trans hl (by decide)
  have hbound : total + 1 > 253 ↔ 253 < total.toNat + 1 := by
    rw [gt_iff_lt, UInt16.lt_iff_toNat_lt, toNat_succ ht]
    exact Iff.rfl
  have hlabel : len + 1 ≤ 63 ↔ len.toNat + 1 ≤ 63 := by
    rw [UInt16.le_iff_toNat_le, toNat_succ hlen]
    exact Iff.rfl
  simp only [hostLanguage, checkedSucc_eq ht, checkedSucc_eq hlen, hbound, hlabel]

theorem step_host_full (h : HostReading state reading n) (hn : 253 < n + 1) :
    (hostLanguage label).step state b = none := by
  cases h with
  | dot h => rw [step_host 0 b (Nat.zero_le _) h, if_pos hn]
  | letter hl h => rw [step_host 1 b hl h, if_pos hn]
  | hyphen hl h => rw [step_host 2 b hl h, if_pos hn]

/-- Inside a label a letter or a hyphen goes on with it, up to its greatest length. -/
theorem step_host_label {len total : UInt16} (hk : kind = 1 ∨ kind = 2) (hl : len.toNat ≤ 63)
    (ht : total.toNat + 1 ≤ 253) (hb : isAsciiAlphanumeric b = true ∨ b = '-'.toUInt8) :
    (hostLanguage label).step ⟨kind, len, total⟩ b = if len.toNat + 1 ≤ 63 then
      some ⟨if b = '-'.toUInt8 then 2 else 1, len + 1, total + 1⟩ else none := by
  have hk0 : kind ≠ 0 := by
    rcases hk with rfl | rfl <;> decide
  rw [step_host kind b hl (by omega), if_neg (by omega), if_neg fun h => hk0 h.1]
  rcases hb with hb | rfl
  · have hne : b ≠ '-'.toUInt8 := by
      intro he
      rw [he] at hb
      cases hb
    rw [if_pos ⟨hk, hb⟩, if_neg hne]
  · rw [if_neg fun h => absurd h.2 (by decide), if_pos ⟨hk, rfl⟩, if_pos rfl]

theorem step_host_other {len total : UInt16} (hl : len.toNat ≤ 63) (ht : total.toNat ≤ 253)
    (hb : ¬ (isAsciiAlphanumeric b = true ∨ b = '-'.toUInt8)) (hd : kind = 1 → b ≠ '.'.toUInt8) :
    (hostLanguage label).step ⟨kind, len, total⟩ b = none := by
  rw [step_host kind b hl ht]
  split
  · rfl
  · rw [if_neg fun h => hb (.inl h.2), if_neg fun h => hb (.inl h.2), if_neg fun h => hb (.inr h.2),
      if_neg fun h => hd h.1 h.2]

theorem hostReading_label {len total : UInt16} (hl : len.toNat + 1 ≤ 63)
    (ht : total.toNat + 1 ≤ 253) (b : UInt8) :
    HostReading ⟨if b = '-'.toUInt8 then 2 else 1, len + 1, total + 1⟩
      (some (len.toNat + 1, decide (b = hostNames.hyphen))) (total.toNat + 1) := by
  have hlen := toNat_succ (n := len) (by omega)
  have htotal := toNat_succ (n := total) (by omega)
  rw [← hlen] at hl ⊢
  rw [← htotal] at ht ⊢
  by_cases hb : b = hostNames.hyphen
  · rw [decide_eq_true hb, if_pos (show b = '-'.toUInt8 from hb)]
    exact .hyphen hl ht
  · rw [decide_eq_false hb, if_neg (show ¬ b = '-'.toUInt8 from hb)]
    exact .letter hl ht

theorem step_host_dot {len total : UInt16} (hl : len.toNat ≤ 63) (ht : total.toNat + 1 ≤ 253) :
    (hostLanguage label).step ⟨1, len, total⟩ '.'.toUInt8 = some ⟨0, 0, total + 1⟩ := by
  rw [step_host 1 _ hl (by omega), if_neg (by omega)]
  rfl

theorem step_host_first {total : UInt16} (ht : total.toNat + 1 ≤ 253) (b : UInt8) :
    (hostLanguage label).step ⟨0, 0, total⟩ b =
      if isAsciiAlphanumeric b then some ⟨1, 1, total + 1⟩ else none := by
  rw [step_host 0 b (Nat.zero_le _) (by omega), if_neg (by omega)]
  simp

/-- The host automaton reads on exactly when a label may go on. -/
theorem acceptsFrom_host (h : HostReading state reading n) :
    (hostLanguage label).acceptsFrom state input = true ↔
      hostNames.NameRest reading input ∧ n + input.length ≤ 253 := by
  induction input generalizing state reading n with
  | nil =>
    rw [acceptsFrom_nil]
    cases h with
    | dot h =>
      rw [NameSyntax.nameRest_none]
      constructor
      · intro ha
        cases ha
      · intro hn
        exact absurd (hn.1 [] (List.mem_singleton_self _)) NameSyntax.not_isLabel_nil
    | letter hl h =>
      rw [NameSyntax.nameRest_nil]
      exact iff_of_true rfl ⟨⟨hl, rfl⟩, h⟩
    | hyphen hl h =>
      rw [NameSyntax.nameRest_nil]
      constructor
      · intro ha
        cases ha
      · intro hn
        cases hn.1.2
  | cons b input ih =>
    rw [List.length_cons]
    by_cases hfull : 253 < n + 1
    · rw [acceptsFrom_cons, step_host_full h hfull]
      apply iff_of_false Bool.false_ne_true
      intro hn
      omega
    -- the state inside a label, whether its last character is a hyphen or not
    have hin {kind len total : UInt16} {hyphened : Bool} (hk : kind = 1 ∨ kind = 2)
        (hl : len.toNat ≤ 63) (ht : total.toNat + 1 ≤ 253) (hb : b ≠ hostNames.dot) :
        (hostLanguage label).acceptsFrom ⟨kind, len, total⟩ (b :: input) = true ↔
          hostNames.NameRest (some (len.toNat, hyphened)) (b :: input) ∧
            total.toNat + (input.length + 1) ≤ 253 := by
      rw [acceptsFrom_cons, NameSyntax.nameRest_char hb]
      by_cases hc : hostNames.letter b = true ∨ b = hostNames.hyphen
      · rw [step_host_label hk hl ht hc, and_iff_right hc, Nat.add_comm input.length,
          ← Nat.add_assoc]
        by_cases hlong : len.toNat + 1 ≤ 63
        · rw [if_pos hlong]
          exact ih (hostReading_label hlong ht b)
        · rw [if_neg hlong]
          apply iff_of_false Bool.false_ne_true
          intro hn
          exact hlong hn.1.bound
      · rw [step_host_other hl (Nat.le_of_succ_le ht) hc fun _ => hb]
        apply iff_of_false Bool.false_ne_true
        intro hn
        exact hc hn.1.1
    -- one byte more is read than in the state before
    have hnext {next : DomainState} {total : UInt16} {reading : Option (Nat × Bool)}
        (ht : total.toNat + 1 ≤ 253) (h : HostReading next reading (total + 1).toNat) :
        (hostLanguage label).acceptsFrom next input = true ↔
          hostNames.NameRest reading input ∧ total.toNat + (input.length + 1) ≤ 253 := by
      rw [ih h, toNat_succ (Nat.le_of_succ_le ht), Nat.add_comm input.length, ← Nat.add_assoc]
    cases h with
    | dot h =>
      rw [acceptsFrom_cons, NameSyntax.nameRest_first, step_host_first (by omega)]
      by_cases hb : hostNames.letter b = true
      · rw [if_pos (show isAsciiAlphanumeric b = true from hb), and_iff_right hb]
        exact hnext (by omega) (.letter (by decide) (by rw [toNat_succ h]; omega))
      · rw [if_neg (show ¬ isAsciiAlphanumeric b = true from hb)]
        apply iff_of_false Bool.false_ne_true
        intro hn
        exact hb hn.1.1
    | @letter len total hl h =>
      by_cases hb : b = hostNames.dot
      · have hend : len.toNat ≤ hostNames.maxLabel ∧ false = false := ⟨hl, rfl⟩
        rw [hb, NameSyntax.nameRest_dot, and_iff_right hend, acceptsFrom_cons]
        rw [show hostNames.dot = '.'.toUInt8 from rfl, step_host_dot hl (by omega)]
        exact hnext (by omega) (.dot (by rw [toNat_succ h]; omega))
      · exact hin (.inl rfl) hl (by omega) hb
    | hyphen hl h =>
      by_cases hb : b = hostNames.dot
      · rw [hb, NameSyntax.nameRest_dot, acceptsFrom_cons,
          step_host_other hl h (by decide) (by decide)]
        apply iff_of_false Bool.false_ne_true
        intro hn
        cases hn.1.1.2
      · exact hin (.inr rfl) hl (by omega) hb

theorem accepts_host (input : Bytes) :
    (hostLanguage label).accepts input = true ↔ hostNames.IsName input := by
  have h : HostReading ⟨0, 0, 0⟩ none 0 := .dot (Nat.zero_le _)
  refine (acceptsFrom_host h).trans ?_
  rw [NameSyntax.nameRest_none, Nat.zero_add]
  constructor
  · intro hn
    exact ⟨hn.2, hn.1⟩
  · intro hn
    exact ⟨hn.labels, hn.short⟩

end PatternInputLanguage

theorem alphanumeric_toUInt8 {c : Char} (ha : isAsciiChar c = true) (hl : c.toLower = c) :
    isAsciiAlphanumeric c.toUInt8 = Home.isLowerAlphanumeric c := by
  have hlt : c.toNat < 128 := of_decide_eq_true ha
  have hn : c.toUInt8.toNat = c.toNat := by
    rw [Char.toUInt8, UInt32.toNat_toUInt8]
    exact Nat.mod_eq_of_lt (Nat.lt_trans hlt (by decide))
  have hup := Home.not_upper_of_toLower hl
  rw [Bool.eq_iff_iff]
  simp only [isAsciiAlphanumeric, isAsciiDigit, isAsciiUppercase, isAsciiLowercase,
    Home.isLowerAlphanumeric, Bool.or_eq_true, Bool.and_eq_true, decide_eq_true_iff,
    UInt8.le_iff_toNat_le, UInt8.reduceToNat, hn, Char.le_def, UInt32.le_iff_toNat_le]
  change _ ↔ 97 ≤ c.toNat ∧ c.toNat ≤ 122 ∨ 48 ≤ c.toNat ∧ c.toNat ≤ 57
  omega

/-- On lower-case text the bytes spell a host name exactly when the characters do. -/
theorem translates_utf8 {s : Home.Text} (ha : s.all isAsciiChar = true)
    (hl : Home.toAsciiLowercase s = s) :
    Home.dnsNames.Translates hostNames Char.toUInt8 s := by
  have hinj {c d : Char} (hc : c ∈ s) (hd : isAsciiChar d = true) :
      c.toUInt8 = d.toUInt8 ↔ c = d := by
    constructor
    · intro he
      rw [← char_toUInt8 (List.all_eq_true.1 ha c hc), he, char_toUInt8 hd]
    · exact congrArg Char.toUInt8
  refine ⟨fun c hc => ?_, fun c hc => hinj hc (by decide), fun c hc => hinj hc (by decide), rfl,
    rfl⟩
  apply alphanumeric_toUInt8 (List.all_eq_true.1 ha c hc)
  rw [Home.toAsciiLowercase] at hl
  exact List.map_inj_left.1 (hl.trans (List.map_id s).symm) c hc

theorem hostNames_ascii (h : hostNames.IsName input) (hb : b ∈ input) : b.toNat < 128 := by
  obtain hl | rfl | rfl := h.chars hb
  · replace hl : isAsciiAlphanumeric b = true := hl
    simp only [isAsciiAlphanumeric, isAsciiDigit, isAsciiUppercase, isAsciiLowercase,
      Bool.or_eq_true, Bool.and_eq_true, decide_eq_true_iff, UInt8.le_iff_toNat_le,
      UInt8.reduceToNat] at hl
    omega
  · decide
  · decide

theorem isName_utf8Bytes {s : Home.Text} (hl : Home.toAsciiLowercase s = s) :
    hostNames.IsName (utf8Bytes s) ↔ Home.dnsNames.IsName s := by
  have htranslate (ha : s.all isAsciiChar = true) :
      hostNames.IsName (utf8Bytes s) ↔ Home.dnsNames.IsName s := by
    rw [utf8Bytes_ascii ha]
    exact NameSyntax.isName_map (translates_utf8 ha hl)
  constructor
  · intro h
    refine (htranslate ?_).1 h
    exact ascii_of_utf8Bytes fun b hb => hostNames_ascii h hb
  · intro h
    refine (htranslate ?_).2 h
    rw [List.all_eq_true]
    exact fun c hc => Home.isAscii_of_isNameChar (Home.dnsNames_chars h hc)

/-- The characters of a path in RFC 3986 that need no escape, the separator of its segments among
them. -/
def pathCharacters : Bytes :=
  asciiBytes "ABCDEFGHIJKLMNOPQRSTUVWXYZabcdefghijklmnopqrstuvwxyz0123456789-._~!$&'()*+,;=:@/"

/-- The characters of a query in RFC 3986 that need no escape. -/
def queryCharacters : Bytes :=
  asciiBytes "ABCDEFGHIJKLMNOPQRSTUVWXYZabcdefghijklmnopqrstuvwxyz0123456789-._~!$&'()*+,;=:@/?"

def hexDigits : Bytes := asciiBytes "0123456789ABCDEFabcdef"

/-- Text in which everything outside `chars` is escaped. -/
inductive Escaped (chars : Bytes) : Bytes → Prop
  | nil : Escaped chars []
  | plain (hb : b ∈ chars) (h : Escaped chars rest) : Escaped chars (b :: rest)
  | escape (hh : high ∈ hexDigits) (hl : low ∈ hexDigits) (h : Escaped chars rest) :
      Escaped chars ('%'.toUInt8 :: high :: low :: rest)

theorem mem_hexDigits (b : UInt8) : b ∈ hexDigits ↔ isAsciiHexdigit b = true := by
  have hs : hexDigits = byteRange 0x30 10 ++ byteRange 0x41 6 ++ byteRange 0x61 6 := by
    rw [hexDigits, asciiBytes_ofList]
    rfl
  rw [hs]
  simp (disch := decide) only [List.mem_append, mem_byteRange, isAsciiHexdigit, isAsciiDigit,
    Bool.or_eq_true, Bool.and_eq_true, decide_eq_true_iff, UInt8.le_iff_toNat_le, UInt8.reduceToNat]
  omega

theorem escaped_iff {chars : Bytes} (hp : ∀ b, b ∈ chars ↔ plain b = true)
    (hn : plain '%'.toUInt8 = false) (s : Bytes) :
    Escaped chars s ↔ wellEscaped plain s = true := by
  constructor
  · intro h
    induction h with
    | nil => rfl
    | @plain b rest hb h ih =>
      have hb := (hp b).1 hb
      have hne : b ≠ '%'.toUInt8 := by
        intro he
        rw [he, hn] at hb
        cases hb
      rw [wellEscaped_plain hne, hb, ih]
      rfl
    | escape hh hl h ih =>
      rw [wellEscaped_escape, (mem_hexDigits _).1 hh, (mem_hexDigits _).1 hl, ih]
      rfl
  · intro h
    induction s using wellEscaped.induct with
    | case1 => exact .nil
    | case2 high low s ih =>
      rw [wellEscaped_escape, Bool.and_eq_true, Bool.and_eq_true] at h
      exact .escape ((mem_hexDigits _).2 h.1.1) ((mem_hexDigits _).2 h.1.2) (ih h.2)
    | case3 s hs =>
      rw [wellEscaped_broken hs] at h
      cases h
    | case4 b s hb ih =>
      rw [wellEscaped_plain hb, Bool.and_eq_true] at h
      exact .plain ((hp b).2 h.1) (ih h.2)

theorem mem_pathCharacters (b : UInt8) : b ∈ pathCharacters ↔ isUriPathPlainChar b = true := by
  have hs : pathCharacters = alphanumerics ++ asciiBytes "-._~" ++ asciiBytes "!$&'()*+,;=" ++
      asciiBytes ":@" ++ ['/'.toUInt8] := by
    rw [pathCharacters]
    repeat rw [asciiBytes_ofList]
    rfl
  rw [hs]
  simp only [isUriPathPlainChar, isUriPcharPlain, isUriUnreserved, isUriSubDelim, Bool.or_eq_true,
    List.contains_iff_mem, ← mem_alphanumerics, List.mem_append, List.mem_singleton,
    decide_eq_true_iff]

theorem mem_queryCharacters (b : UInt8) : b ∈ queryCharacters ↔ isUriQueryPlainChar b = true := by
  have hs : queryCharacters = alphanumerics ++ asciiBytes "-._~" ++ asciiBytes "!$&'()*+,;=" ++
      asciiBytes ":@" ++ asciiBytes "/?" := by
    rw [queryCharacters]
    repeat rw [asciiBytes_ofList]
    rfl
  rw [hs]
  simp only [isUriQueryPlainChar, isUriPcharPlain, isUriUnreserved, isUriSubDelim, Bool.or_eq_true,
    List.contains_iff_mem, ← mem_alphanumerics, List.mem_append]

/-- The automata of hosts, paths and queries accept their grammars, and no automaton reads a byte
that its alphabet lacks. -/
theorem accepts_grammars :
    (∀ input, clientNameLanguage.accepts input = true ↔ hostNames.IsName input) ∧
    (∀ s, Home.toAsciiLowercase s = s →
      (clientNameLanguage.accepts (utf8Bytes s) = true ↔ Home.isValidDnsLabels s = true)) ∧
    (∀ input, locationPathLanguage.accepts input = true ↔
      ∃ rest, input = '/'.toUInt8 :: rest ∧ Escaped pathCharacters rest) ∧
    (∀ input, queryKeyLanguage.accepts input = true ↔
      Escaped queryCharacters input ∧ '&'.toUInt8 ∉ input ∧ '='.toUInt8 ∉ input) ∧
    (∀ input, queryValueLanguage.accepts input = true ↔
      Escaped queryCharacters input ∧ '&'.toUInt8 ∉ input) ∧
    (∀ L ∈ inputLanguages, ∀ state b next, L.step state b = some next → b ∈ L.alphabet) := by
  refine ⟨PatternInputLanguage.accepts_host, ?_, ?_, ?_, ?_, ?_⟩
  · intro s hl
    rw [Home.isValidDnsLabels_iff, ← isName_utf8Bytes hl]
    exact PatternInputLanguage.accepts_host _
  · intro input
    rw [PatternInputLanguage.accepts_path]
    apply exists_congr
    intro rest
    rw [escaped_iff mem_pathCharacters (by decide)]
  · intro input
    rw [escaped_iff mem_queryCharacters (by decide), ← wellEscaped_queryKey]
    rw [queryKeyLanguage, PatternInputLanguage.accepts_query]
  · intro input
    rw [escaped_iff mem_queryCharacters (by decide), ← wellEscaped_queryValue]
    rw [queryValueLanguage, PatternInputLanguage.accepts_query]
  · intro L hL state b next hs
    exact (PatternInputLanguage.searchable_inputLanguages L hL).recovers.reads hs

end Dhttp.Access
