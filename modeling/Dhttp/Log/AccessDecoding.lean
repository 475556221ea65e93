import Dhttp.Log.AccessFormat
import Dhttp.Home.Names

namespace Dhttp.Log
open Dhttp.Lib
set_option autoImplicit true

def hexValue (digit : UInt8) : UInt8 :=
  if digit < 'a'.toUInt8 then digit - '0'.toUInt8 else digit - 'a'.toUInt8 + 10

def unescapeHex (high low : UInt8) : UInt8 := 16 * hexValue high + hexValue low

/-- The bytes up to the first unescaped quote, and what follows it. -/
def quotedField : Bytes → Option (Bytes × Bytes)
  | [] => none
  | byte :: rest =>
    if byte = '"'.toUInt8 then some ([], rest)
    else if byte = '\\'.toUInt8 then
      match rest with
      | [] => none
      | next :: rest =>
        if next = '"'.toUInt8 ∨ next = '\\'.toUInt8 then
          (quotedField rest).map fun p => (next :: p.1, p.2)
        else if next = 'x'.toUInt8 then
          match rest with
          | high :: low :: rest =>
            (quotedField rest).map fun p => (unescapeHex high low :: p.1, p.2)
          | _ => none
        else none
    else (quotedField rest).map fun p => (byte :: p.1, p.2)

/-- One field of a line: quoted, in brackets, or up to the next space. -/
def field : Bytes → Option (Bytes × Bytes)
  | [] => none
  | byte :: rest =>
    if byte = '"'.toUInt8 then quotedField rest
    else if byte = '['.toUInt8 then splitOnce ']'.toUInt8 rest
    else some ((byte :: rest).span (· ≠ ' '.toUInt8))

/-- The `n + 1` fields of a line. -/
def splitFields : Nat → Bytes → Option (List Bytes)
  | 0, line =>
    match field line with
    | some (value, []) => some [value]
    | _ => none
  | n + 1, line =>
    match field line with
    | some (value, byte :: rest) =>
      if byte = ' '.toUInt8 then (splitFields n rest).map (value :: ·) else none
    | _ => none

/-- The client as a line shows it. -/
inductive RemoteHost where
  | unknown
  | ip (address : IpAddr)
  | name (s : Text)
  deriving DecidableEq, Repr

structure AccessFields where
  client : RemoteHost
  method : Bytes
  target : Bytes
  version : Version
  status : Nat
  bodyBytes : Nat
  referer : Bytes
  userAgent : Bytes
  deriving DecidableEq, Repr

def remoteHostOf (value : Bytes) : Option RemoteHost :=
  let s := byteChars value
  if s = ['-'] then some .unknown
  else if ':' ∈ s then (ipv6OfText s).map fun ip => .ip (.v6 ip)
  else some ((ipv4OfText s).elim (.name s) fun ip => .ip (.v4 ip))

def versionOf (value : Bytes) : Option Version :=
  [.http09, .http10, .http11, .http2, .http3].find? fun version =>
    (httpVersion version).toOption = some value

/-- The method up to the first space, the version after the last. -/
def requestLineOf (value : Bytes) : Option (Bytes × Bytes × Version) := do
  let (method, rest) ← splitOnce ' '.toUInt8 value
  let (version, target) ← splitOnce ' '.toUInt8 rest.reverse
  let version ← versionOf version.reverse
  return (method, target.reverse, version)

def numberOf (value : Bytes) : Nat := numeralValue 10 (byteChars value)

/-- The combined log grammar: the nine fields of a line. -/
def decodeLine (line : Bytes) : Option AccessFields := do
  let content ← stripSuffix ['\n'.toUInt8] line
  match ← splitFields 8 content with
  | [client, _, _, _, request, status, bodyBytes, referer, userAgent] => do
    let client ← remoteHostOf client
    let (method, target, version) ← requestLineOf request
    return ⟨client, method, target, version, numberOf status, numberOf bodyBytes, referer,
      userAgent⟩
  | _ => none

section Escapes

theorem quotedField_quote (rest : Bytes) :
    quotedField ('"'.toUInt8 :: rest) = some ([], rest) := by
  rw [quotedField.eq_def]
  exact if_pos rfl

theorem quotedField_escape {next : UInt8} (h : next = '"'.toUInt8 ∨ next = '\\'.toUInt8)
    (rest : Bytes) : quotedField ('\\'.toUInt8 :: next :: rest) =
      (quotedField rest).map fun p => (next :: p.1, p.2) := by
  rw [quotedField.eq_def]
  simp only
  rw [if_neg (by decide), if_pos trivial, if_pos h]

theorem quotedField_hex (high low : UInt8) (rest : Bytes) :
    quotedField ('\\'.toUInt8 :: 'x'.toUInt8 :: high :: low :: rest) =
      (quotedField rest).map fun p => (unescapeHex high low :: p.1, p.2) := by
  rw [quotedField.eq_def]
  simp only
  rw [if_neg (by decide), if_pos trivial, if_neg (by decide), if_pos trivial]

theorem unescapeHex_nibbles :
    ∀ byte : UInt8, unescapeHex (hexDigit (byte >>> 4)) (hexDigit (byte &&& 0x0F)) = byte := by
  decide +kernel

theorem quotedField_escapeByte (byte : UInt8) (rest : Bytes) :
    quotedField (escapeByte byte ++ rest) =
      (quotedField rest).map fun p => (byte :: p.1, p.2) := by
  rw [escapeByte]
  split
  · rename_i hb
    rw [hb]
    exact quotedField_escape (.inl rfl) rest
  · split
    · rename_i hb
      rw [hb]
      exact quotedField_escape (.inr rfl) rest
    · split
      · refine (quotedField_hex _ _ rest).trans ?_
        rw [unescapeHex_nibbles]
      · rename_i hq hs _
        rw [List.singleton_append, quotedField.eq_def]
        simp only [if_neg hq, if_neg hs]

/-- Escaped bytes in quotes are read back, whatever they are. -/
theorem quotedField_escaped (value rest : Bytes) :
    quotedField (value.flatMap escapeByte ++ '"'.toUInt8 :: rest) = some (value, rest) := by
  induction value with
  | nil => exact quotedField_quote rest
  | cons byte value ih =>
    rw [List.flatMap_cons, List.append_assoc, quotedField_escapeByte, ih]
    rfl

end Escapes

section Fields

/-- `text` is one field of a line, with the value `value`. -/
def ReadsAs (text value : Bytes) : Prop :=
  ∀ rest, (rest = [] ∨ ∃ s, rest = ' '.toUInt8 :: s) → field (text ++ rest) = some (value, rest)

theorem readsAs_quoted (value : Bytes) :
    ReadsAs ('"'.toUInt8 :: (value.flatMap escapeByte ++ ['"'.toUInt8])) value := by
  intro rest _
  rw [List.cons_append, List.append_assoc]
  exact quotedField_escaped value rest

theorem readsAs_bracketed {inner : Bytes} (h : ']'.toUInt8 ∉ inner) :
    ReadsAs ('['.toUInt8 :: (inner ++ [']'.toUInt8])) inner := by
  intro rest _
  rw [List.cons_append, List.append_assoc]
  exact splitOnce_eq_some.2 ⟨h, rfl⟩

/-- A word: no space in it, and neither a quote nor a bracket in front. -/
def IsWord (text : Bytes) : Prop :=
  text ≠ [] ∧ ∀ byte ∈ text, byte ≠ ' '.toUInt8 ∧ byte ≠ '"'.toUInt8 ∧ byte ≠ '['.toUInt8

theorem readsAs_word {text : Bytes} (h : IsWord text) : ReadsAs text text := by
  intro rest hrest
  obtain ⟨hne, hall⟩ := h
  have hp : ∀ byte ∈ text, decide (byte ≠ ' '.toUInt8) = true := by
    intro byte hb
    exact decide_eq_true (hall byte hb).1
  have htake : (text ++ rest).takeWhile (· ≠ ' '.toUInt8) = text := by
    exact takeWhile_sep (fun hm => (hall _ hm).1 rfl) hrest
  have hdrop : (text ++ rest).dropWhile (· ≠ ' '.toUInt8) = rest := by
    rw [List.dropWhile_append_of_pos hp]
    rcases hrest with rfl | ⟨s, rfl⟩ <;> rfl
  obtain ⟨byte, text, rfl⟩ := List.exists_cons_of_ne_nil hne
  obtain ⟨-, hq, hb⟩ := hall byte List.mem_cons_self
  rw [List.cons_append] at htake hdrop ⊢
  rw [field, if_neg hq, if_neg hb, List.span_eq_takeWhile_dropWhile, htake, hdrop]

/-- A line of fields with single spaces between them is split into their values. -/
theorem splitFields_joined {first value : Bytes} {rest values : List Bytes}
    (hf : ReadsAs first value) (hr : List.Forall₂ ReadsAs rest values) :
    splitFields rest.length (first ++ rest.flatMap (' '.toUInt8 :: ·)) =
      some (value :: values) := by
  induction hr generalizing first value with
  | nil =>
    rw [List.flatMap_nil, List.length_nil, splitFields, hf [] (.inl rfl)]
  | cons h hr ih =>
    rw [List.flatMap_cons, List.cons_append, List.length_cons, splitFields,
      hf _ (.inr ⟨_, rfl⟩)]
    simp only [if_true, ih h]
    rfl

end Fields

section Hosts

/-- The characters of addresses and names. -/
def isHostChar (c : Char) : Bool := Home.isNameChar c || isNumeralChar c || c == ':'

theorem isHostChar_ascii (h : isHostChar c = true) : isAsciiChar c = true := by
  have hle (d : Char) (hc : c ≤ d) (hd : d.toNat < 128) : c.toNat < 128 :=
    Nat.lt_of_le_of_lt (UInt32.le_iff_toNat_le.1 (Char.le_def.1 hc)) hd
  simp only [isHostChar, Home.isNameChar, Home.isLabelChar, isNumeralChar, Bool.or_eq_true,
    Bool.and_eq_true, decide_eq_true_iff, beq_iff_eq] at h
  apply decide_eq_true
  rcases h with ((((h | h) | rfl) | rfl) | h | h) | rfl
  · exact hle _ h.2 (by decide)
  · exact hle _ h.2 (by decide)
  · decide
  · decide
  · exact hle _ h.2 (by decide)
  · exact hle _ h.2 (by decide)
  · decide

theorem isWord_host {s : Text} (hne : s ≠ []) (h : s.all isHostChar = true) :
    s.all isAsciiChar = true ∧ IsWord (utf8Bytes s) := by
  have hascii : s.all isAsciiChar = true :=
    List.all_eq_true.2 fun c hc => isHostChar_ascii (List.all_eq_true.1 h c hc)
  have hno {c : Char} (hc : isAsciiChar c = true) (hn : isHostChar c = false) :
      ∀ byte ∈ utf8Bytes s, byte ≠ c.toUInt8 := by
    intro byte hb he
    rw [he, mem_utf8Bytes hascii hc] at hb
    rw [List.all_eq_true.1 h c hb] at hn
    cases hn
  refine ⟨hascii, ?_, ?_⟩
  · rw [utf8Bytes_ascii hascii]
    intro he
    exact hne (List.map_eq_nil_iff.1 he)
  · intro byte hb
    exact ⟨hno rfl rfl byte hb, hno rfl rfl byte hb, hno rfl rfl byte hb⟩

theorem decimal_host (n : Nat) : (decimal n).all isHostChar = true := by
  apply List.all_eq_true.2
  intro c hc
  have hn := List.all_eq_true.1 (toDigits_numeral (b := 10) (by decide) (by decide) n) c hc
  rw [isHostChar, hn, Bool.or_true, Bool.true_or]

theorem ipv4_host (ip : Ipv4Addr) : ip.display.all isHostChar = true := by
  have hdot : isHostChar '.' = true := rfl
  simp only [Ipv4Addr.display, List.all_append, List.all_cons, decimal_host, hdot, Bool.and_self]

theorem ipv6_host (ip : Ipv6Addr) : ip.display.all isHostChar = true := by
  have hchunk (chunk : List UInt16) : (fmtSubslice chunk).all isHostChar = true := by
    apply List.all_eq_true.2
    intro c hc
    rcases fmtSubslice_chars hc with h | rfl
    · rw [isHostChar, h, Bool.or_true, Bool.true_or]
    · rfl
  rw [Ipv6Addr.display]
  split
  · rw [List.all_append, ipv4_host]
    rfl
  · simp only
    split
    · rw [List.all_append, List.all_append, hchunk, hchunk]
      rfl
    · exact hchunk _

theorem name_host (h : Home.isValidDnsName name = true) : name.all isHostChar = true := by
  apply List.all_eq_true.2
  intro c hc
  rw [isHostChar, Home.isValidDnsName_chars h hc, Bool.true_or, Bool.true_or]

end Hosts

section Records

variable {C : Chrono}

/-- The only name that cannot be told from an address is the text of an IPv4 address. -/
def RemoteHost.shown : RemoteHost → RemoteHost
  | .name s => (ipv4OfText s).elim (.name s) fun ip => .ip (.v4 ip)
  | host => host

def FormattedClient.host (record : AccessLogRecord C) : FormattedClient → RemoteHost
  | .address =>
    match record.client with
    | .unknown => .unknown
    | .ip ip => .ip ip
  | .identity none => .unknown
  | .identity (some name) => .name name

def FormattedClient.Valid : FormattedClient → Prop
  | .identity (some name) => Home.isValidDnsName name = true
  | _ => True

/-- What a missing value is shown as. -/
def shownBytes (value : Option Bytes) : Bytes := value.getD ['-'.toUInt8]

def AccessLogRecord.fields (record : AccessLogRecord C) (host : RemoteHost) : AccessFields :=
  ⟨host, record.method.asStr, shownBytes (record.target.map utf8Bytes), record.version,
    record.status.toNat, record.bodyBytes.toNat, shownBytes record.referer,
    shownBytes record.userAgent⟩

theorem remoteHostOf_utf8 {s : Text} (hascii : s.all isAsciiChar = true) (hs : s ≠ ['-']) :
    remoteHostOf (utf8Bytes s) = if ':' ∈ s then (ipv6OfText s).map fun ip => .ip (.v6 ip)
      else some (RemoteHost.name s).shown := by
  simp only [remoteHostOf, byteChars_utf8Bytes hascii, if_neg hs]
  split
  · rfl
  · rw [RemoteHost.shown.eq_def]

theorem remoteHostOf_address (address : IpAddr) : IsWord (utf8Bytes address.display) ∧
    remoteHostOf (utf8Bytes address.display) = some (.ip address) := by
  have hne {s : Text} {c : Char} (hm : c ∈ s) (hc : c ≠ '-') : s ≠ ['-'] := by
    rintro rfl
    exact hc (List.mem_singleton.1 hm)
  cases address with
  | v4 ip =>
    have hdot := dot_mem_ipv4 ip
    obtain ⟨hascii, hword⟩ := isWord_host (List.ne_nil_of_mem hdot) (ipv4_host ip)
    refine ⟨hword, ?_⟩
    refine (remoteHostOf_utf8 hascii (hne hdot (by decide))).trans ?_
    rw [if_neg (colon_not_mem_ipv4 ip), RemoteHost.shown, ipv4OfText_iff.2 rfl]
    rfl
  | v6 ip =>
    have hcolon := colon_mem_display ip
    obtain ⟨hascii, hword⟩ := isWord_host (List.ne_nil_of_mem hcolon) (ipv6_host ip)
    refine ⟨hword, ?_⟩
    refine (remoteHostOf_utf8 hascii (hne hcolon (by decide))).trans ?_
    rw [if_pos hcolon, ipv6OfText_display]
    rfl

theorem remoteHostOf_name (h : Home.isValidDnsName name = true) : IsWord (utf8Bytes name) ∧
    remoteHostOf (utf8Bytes name) = some (RemoteHost.name name).shown := by
  obtain ⟨hascii, hword⟩ := isWord_host (Home.ne_nil_of_valid h) (name_host h)
  refine ⟨hword, ?_⟩
  have hdash : name ≠ ['-'] := by
    rintro rfl
    cases h
  rw [remoteHostOf_utf8 hascii hdash, if_neg (Home.not_mem_of_valid h rfl)]

/-- The text of a client is one word, from which the client is read. -/
theorem clientElement_reads {record : AccessLogRecord C} {client : FormattedClient}
    (hc : client.Valid) :
    IsWord ((DefaultAccessFormatter.clientElement record client).encoding .plain) ∧
      remoteHostOf ((DefaultAccessFormatter.clientElement record client).encoding .plain) =
        some (client.host record).shown := by
  have hmissing : IsWord ['-'.toUInt8] ∧
      remoteHostOf ['-'.toUInt8] = some RemoteHost.unknown := by
    refine ⟨⟨List.cons_ne_nil _ _, ?_⟩, by decide⟩
    intro byte hb
    rw [List.mem_singleton.1 hb]
    decide
  cases client with
  | address =>
    rw [DefaultAccessFormatter.clientElement, FormattedClient.host]
    cases record.client with
    | unknown => exact hmissing
    | ip address => exact remoteHostOf_address address
  | identity name =>
    cases name with
    | none => exact hmissing
    | some name => exact remoteHostOf_name hc

theorem not_mem_method (method : Method) : ' '.toUInt8 ∉ method.asStr := by
  intro hm
  exact absurd (List.all_eq_true.1 method.token.2 _ hm) (by decide)

theorem httpVersion_reads {version : Version} (h : httpVersion version = .ok value) :
    ' '.toUInt8 ∉ value ∧ versionOf value = some version := by
  cases version with
  | other => cases h
  | _ =>
    cases h
    decide

def requestLine (record : AccessLogRecord C) (version : Bytes) : Bytes :=
  record.method.asStr ++ ' '.toUInt8 ::
    (shownBytes (record.target.map utf8Bytes) ++ ' '.toUInt8 :: version)

theorem accessRequestLine_encoding {record : AccessLogRecord C}
    (h : httpVersion record.version = .ok value) :
    (accessRequestLine record).encoding .quoted =
      (requestLine record value).flatMap escapeByte := by
  have htarget : (optionalElement textElement record.target).encoding .quoted =
      (shownBytes (record.target.map utf8Bytes)).flatMap escapeByte := by
    cases record.target <;> rfl
  have hversion : (versionElement record.version).encoding .quoted = value.flatMap escapeByte := by
    rw [versionElement, h]
    rfl
  have hspace : escapeByte ' '.toUInt8 = [' '.toUInt8] := by decide
  simp only [accessRequestLine, Element.encoding, htarget, hversion, requestLine,
    List.flatMap_append, List.flatMap_cons, List.flatMap_nil, hspace, List.append_nil]

/-- The target may hold spaces: the method and the version do not. -/
theorem requestLineOf_requestLine {record : AccessLogRecord C}
    (h : httpVersion record.version = .ok value) : requestLineOf (requestLine record value) =
      some (record.method.asStr, shownBytes (record.target.map utf8Bytes), record.version) := by
  obtain ⟨hspace, hversion⟩ := httpVersion_reads h
  have hreverse : splitOnce ' '.toUInt8
      (shownBytes (record.target.map utf8Bytes) ++ ' '.toUInt8 :: value).reverse =
        some (value.reverse, (shownBytes (record.target.map utf8Bytes)).reverse) := by
    rw [splitOnce_eq_some]
    refine ⟨fun hm => hspace (List.mem_reverse.1 hm), ?_⟩
    rw [List.reverse_append, List.reverse_cons, List.append_assoc]
    rfl
  rw [requestLineOf, requestLine, splitOnce_eq_some.2 ⟨not_mem_method _, rfl⟩]
  simp only [Option.bind_eq_bind, Option.bind_some, hreverse, List.reverse_reverse, hversion]
  rfl

theorem decimal_reads (n : Nat) :
    IsWord (utf8Bytes (decimal n)) ∧ numberOf (utf8Bytes (decimal n)) = n := by
  obtain ⟨hascii, hword⟩ := isWord_host (s := decimal n) Nat.toDigits_ne_nil (decimal_host n)
  refine ⟨hword, ?_⟩
  rw [numberOf, byteChars_utf8Bytes hascii]
  exact numeralValue_toDigits (by decide) (by decide) n

/-- The texts of the fields after the client. -/
def laterTexts (record : AccessLogRecord C) : List Bytes :=
  [['-'.toUInt8], ['-'.toUInt8], C.format record.completedAt,
    '"'.toUInt8 :: ((accessRequestLine record).encoding .quoted ++ ['"'.toUInt8]),
    utf8Bytes (decimal record.status.toNat), utf8Bytes (decimal record.bodyBytes.toNat),
    '"'.toUInt8 :: ((shownBytes record.referer).flatMap escapeByte ++ ['"'.toUInt8]),
    '"'.toUInt8 :: ((shownBytes record.userAgent).flatMap escapeByte ++ ['"'.toUInt8])]

theorem operations_encoding (record : AccessLogRecord C) (client : FormattedClient) :
    (DefaultAccessFormatter.operations record client).flatMap Operation.encoding =
      (DefaultAccessFormatter.clientElement record client).encoding .plain ++
        (laterTexts record).flatMap (' '.toUInt8 :: ·) := by
  have hshown (value : Option Bytes) :
      (optionalElement Element.bytes value).encoding .quoted =
        (shownBytes value).flatMap escapeByte := by
    cases value <;> rfl
  rw [laterTexts, ← hshown, ← hshown]
  rfl

/-- The bracket that opens a time is closed by its last byte only. -/
def Chrono.Bracketed (C : Chrono) : Prop :=
  ∀ t, ∃ inner, C.format t = '['.toUInt8 :: (inner ++ [']'.toUInt8]) ∧ ']'.toUInt8 ∉ inner

theorem laterTexts_read (hC : C.Bracketed) {record : AccessLogRecord C}
    (h : httpVersion record.version = .ok value) : ∃ time,
      List.Forall₂ ReadsAs (laterTexts record)
        [['-'.toUInt8], ['-'.toUInt8], time, requestLine record value,
          utf8Bytes (decimal record.status.toNat), utf8Bytes (decimal record.bodyBytes.toNat),
          shownBytes record.referer, shownBytes record.userAgent] := by
  have hdash : ReadsAs ['-'.toUInt8] ['-'.toUInt8] := by
    apply readsAs_word
    refine ⟨List.cons_ne_nil _ _, ?_⟩
    intro byte hb
    rw [List.mem_singleton.1 hb]
    decide
  obtain ⟨time, htime, hinner⟩ := hC record.completedAt
  refine ⟨time, ?_⟩
  rw [laterTexts, htime, accessRequestLine_encoding h]
  exact .cons hdash <| .cons hdash <| .cons (readsAs_bracketed hinner) <|
    .cons (readsAs_quoted _) <| .cons (readsAs_word (decimal_reads _).1) <|
    .cons (readsAs_word (decimal_reads _).1) <| .cons (readsAs_quoted _) <|
    .cons (readsAs_quoted _) .nil

theorem written_version {record : AccessLogRecord C} {client : FormattedClient}
    (h : ∀ o ∈ DefaultAccessFormatter.operations record client, o.Writable) :
    ∃ value, httpVersion record.version = .ok value := by
  have hline : (accessRequestLine record).Writable .quoted :=
    (h (.element (.quoted (accessRequestLine record))) (by
      simp only [DefaultAccessFormatter.operations, List.mem_cons, true_or, or_true])).2
  have hversion : (versionElement record.version).Writable .quoted := hline.2.2.2.2
  rw [versionElement] at hversion
  split at hversion
  · rename_i value hv
    exact ⟨value, hv⟩
  · exact hversion.elim

/-- A line is decoded to the fields of its record. -/
theorem decodeLine_format (hC : C.Bracketed) {record : AccessLogRecord C}
    {client : FormattedClient} (hc : client.Valid)
    (h : DefaultAccessFormatter.formatWithClient record client = .ok line) :
    decodeLine line = some (record.fields (client.host record).shown) := by
  rcases build_cases (DefaultAccessFormatter.operations record client) with
    ⟨hline, -, -, hw⟩ | ⟨herror, -⟩ | ⟨e, herror, -⟩
  · rw [DefaultAccessFormatter.formatWithClient, hline] at h
    cases h
    obtain ⟨value, hv⟩ := written_version hw
    obtain ⟨hword, hhost⟩ := @clientElement_reads C record client hc
    obtain ⟨time, hlater⟩ := laterTexts_read hC hv
    have hfields := splitFields_joined (readsAs_word hword) hlater
    have hlen : (laterTexts record).length = 8 := rfl
    rw [hlen, ← operations_encoding] at hfields
    rw [decodeLine, stripSuffix_eq_some.2 rfl]
    simp only [Option.bind_eq_bind, Option.bind_some, hfields, hhost,
      requestLineOf_requestLine hv, (decimal_reads _).2]
    rfl
  · rw [DefaultAccessFormatter.formatWithClient, herror] at h
    cases h
  · rw [DefaultAccessFormatter.formatWithClient, herror] at h
    cases h

/-- The same value, except that the value `dash` is not told from a missing one. -/
def AlikeValues (dash : α) (x y : Option α) : Prop :=
  x = y ∨ x = none ∧ y = some dash ∨ x = some dash ∧ y = none

/-- The same client, except that a name may be the text of an IPv4 address. -/
def AlikeHosts (host host' : RemoteHost) : Prop :=
  host = host' ∨ ∃ ip : Ipv4Addr, host = .ip (.v4 ip) ∧ host' = .name ip.display ∨
    host = .name ip.display ∧ host' = .ip (.v4 ip)

theorem alikeValues_of_getD {dash : α} {x y : Option α} (h : x.getD dash = y.getD dash) :
    AlikeValues dash x y := by
  cases x with
  | none =>
    cases y with
    | none => exact .inl rfl
    | some y => exact .inr (.inl ⟨rfl, congrArg some h.symm⟩)
  | some x =>
    cases y with
    | none => exact .inr (.inr ⟨congrArg some h, rfl⟩)
    | some y => exact .inl (congrArg some h)

theorem RemoteHost.shown_cases (host : RemoteHost) :
    host.shown = host ∨ ∃ ip : Ipv4Addr, host = .name ip.display ∧ host.shown = .ip (.v4 ip) := by
  cases host with
  | unknown => exact .inl rfl
  | ip address => exact .inl rfl
  | name s =>
    rw [shown]
    cases h : ipv4OfText s with
    | none => exact .inl rfl
    | some ip => exact .inr ⟨ip, congrArg RemoteHost.name (ipv4OfText_iff.1 h), rfl⟩

theorem alikeHosts_of_shown {host host' : RemoteHost} (h : host.shown = host'.shown) :
    AlikeHosts host host' := by
  rcases host.shown_cases with hs | ⟨ip, hn, hs⟩
  · rcases host'.shown_cases with hs' | ⟨ip', hn', hs'⟩
    · exact .inl (hs.symm.trans (h.trans hs'))
    · exact .inr ⟨ip', .inl ⟨hs.symm.trans (h.trans hs'), hn'⟩⟩
  · rcases host'.shown_cases with hs' | ⟨ip', hn', hs'⟩
    · exact .inr ⟨ip, .inr ⟨hn, hs'.symm.trans (h.symm.trans hs)⟩⟩
    · have hip := hs.symm.trans (h.trans hs')
      cases hip
      exact .inl (hn.trans hn'.symm)

theorem alikeTargets {x y : Option Text}
    (h : shownBytes (x.map utf8Bytes) = shownBytes (y.map utf8Bytes)) :
    AlikeValues ['-'] x y := by
  have hdash : ['-'.toUInt8] = utf8Bytes ['-'] := by decide
  apply alikeValues_of_getD
  apply utf8Bytes_injective
  rw [shownBytes, shownBytes, hdash, Option.getD_map, Option.getD_map] at h
  exact h

/-- A line is decoded to the fields of its record, so records with the same line agree in them. -/
theorem format_decodes (hC : C.Bracketed) :
    (∀ (record : AccessLogRecord C) (client : FormattedClient) (line : Bytes), client.Valid →
      DefaultAccessFormatter.formatWithClient record client = .ok line →
        decodeLine line = some (record.fields (client.host record).shown)) ∧
    ∀ (record record' : AccessLogRecord C) (client client' : FormattedClient) (line : Bytes),
      client.Valid → client'.Valid →
      DefaultAccessFormatter.formatWithClient record client = .ok line →
      DefaultAccessFormatter.formatWithClient record' client' = .ok line →
        AlikeHosts (client.host record) (client'.host record') ∧
        record.method = record'.method ∧ AlikeValues ['-'] record.target record'.target ∧
        record.version = record'.version ∧ record.status = record'.status ∧
        record.bodyBytes = record'.bodyBytes ∧
        AlikeValues ['-'.toUInt8] record.referer record'.referer ∧
        AlikeValues ['-'.toUInt8] record.userAgent record'.userAgent := by
  constructor
  · intro record client line hc h
    exact decodeLine_format hC hc h
  · intro record record' client client' line hc hc' h h'
    have hfields := decodeLine_format hC hc h
    rw [decodeLine_format hC hc' h'] at hfields
    have hfields := (Option.some.inj hfields).symm
    refine ⟨alikeHosts_of_shown (congrArg AccessFields.client hfields), ?_,
      alikeTargets (congrArg AccessFields.target hfields), congrArg AccessFields.version hfields,
      UInt16.toNat_inj.1 (congrArg AccessFields.status hfields),
      UInt64.toNat_inj.1 (congrArg AccessFields.bodyBytes hfields),
      alikeValues_of_getD (congrArg AccessFields.referer hfields),
      alikeValues_of_getD (congrArg AccessFields.userAgent hfields)⟩
    have hmethod : record.method.asStr = record'.method.asStr :=
      congrArg AccessFields.method hfields
    cases hm : record.method
    cases hm' : record'.method
    rw [hm, hm'] at hmethod
    cases hmethod
    rfl

/-- A clock that shows one time. -/
def oneTime : Chrono where
  DateTime := Unit
  format _ := "[13/Jul/2026:16:20:31 +0800]".toList.map Char.toUInt8

theorem oneTime_bracketed : oneTime.Bracketed := fun _ =>
  ⟨"13/Jul/2026:16:20:31 +0800".toList.map Char.toUInt8, rfl, by decide⟩

def cssRequest : AccessLogRecord oneTime where
  completedAt := ()
  client := .ip (.v4 ⟨1, 2, 3, 4⟩)
  method := ⟨"GET".toList.map Char.toUInt8, by decide⟩
  target := some "/a.css".toList
  version := .http3
  status := 200
  bodyBytes := 1432
  referer := none
  userAgent := some ("Agent \"1\"".toList.map Char.toUInt8)

def cssLine : Bytes :=
  ("1.2.3.4 - - [13/Jul/2026:16:20:31 +0800] \"GET /a.css HTTP/3\" 200 1432 \"-\" ".toList ++
    "\"Agent \\\"1\\\"\"\n".toList).map Char.toUInt8

theorem format_cssRequest : DefaultAccessFormatter.format cssRequest = .ok cssLine := by rfl

theorem format_decodes_css :
    decodeLine cssLine = some (cssRequest.fields (.ip (.v4 ⟨1, 2, 3, 4⟩))) :=
  (format_decodes oneTime_bracketed).1 cssRequest .address cssLine trivial format_cssRequest

/-- A valid name can be the text of an address, and then the lines of both are the same. -/
theorem format_ambiguous : Home.isValidDnsName "1.2.3.4".toList = true ∧
    DefaultAccessFormatter.format cssRequest = .ok cssLine ∧
    DefaultAccessFormatter.formatWithClientIdentity cssRequest (some "1.2.3.4".toList) =
      .ok cssLine ∧
    FormattedClient.address.host cssRequest ≠
      (FormattedClient.identity (some "1.2.3.4".toList)).host cssRequest := by
  refine ⟨by decide, format_cssRequest, by rfl, ?_⟩
  intro h
  cases h

end Records

end Dhttp.Log
