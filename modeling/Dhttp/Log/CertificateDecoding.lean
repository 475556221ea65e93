import Dhttp.Log.AccessDecoding
import Dhttp.Log.CertificateFormat

namespace Dhttp.Log
open Dhttp.Lib
set_option autoImplicit true

structure CertificateFields where
  recordedAt : Bytes
  action : CertificateAction
  issuer : Option Bytes
  usage : CertificateUsage
  chain : Home.CertificateChainKey
  expiresAt : Bytes
  fingerprint : Bytes
  deriving DecidableEq

/-- A field and the space after it. -/
def spaced (read : Bytes → Option (α × Bytes)) (line : Bytes) : Option (α × Bytes) :=
  match read line with
  | some (value, byte :: rest) => if byte = ' '.toUInt8 then some (value, rest) else none
  | _ => none

/-- Only an issuer that is there is quoted. -/
def issuerField : Bytes → Option (Option Bytes × Bytes)
  | [] => none
  | byte :: rest =>
    if byte = '"'.toUInt8 then (quotedField rest).map fun p => (some p.1, p.2)
    else (field (byte :: rest)).map fun p => (none, p.2)

def actionOf (value : Bytes) : Option CertificateAction :=
  [.apply, .renew, .replace].find? fun action => action.text.map Char.toUInt8 = value

def usageOfText (value : Bytes) : Option CertificateUsage :=
  [.clientOnly, .serverOnly, .clientAndServer, .unrestricted, .other].find? fun usage =>
    usage.text.map Char.toUInt8 = value

/-- A chain has spaces in it, and no colon before its sequence. -/
def chainOf (value : Bytes) : Option Home.CertificateChainKey := do
  let (usage, sequence) ← splitOnce ':' (byteChars value)
  let usage ← [.clientOnly, .clientAndServer].find? fun u => chainUsageText u = usage
  let sequence ← (Home.CertificateSequence.tryFrom (numeralValue 10 sequence)).toOption
  return ⟨sequence, usage⟩

def bytesOfHex : Bytes → Option Bytes
  | [] => some []
  | [_] => none
  | high :: low :: rest => (bytesOfHex rest).map (unescapeHex high low :: ·)

def fingerprintOf (value : Bytes) : Option Bytes :=
  (stripPrefix digestName value).bind bytesOfHex

def bracketed (value : Bytes) : Bytes := '['.toUInt8 :: (value ++ [']'.toUInt8])

def decodeCertificateLine (line : Bytes) : Option CertificateFields := do
  let content ← stripSuffix ['\n'.toUInt8] line
  let (recordedAt, rest) ← spaced field content
  let (action, rest) ← spaced field rest
  let (issuer, rest) ← spaced issuerField rest
  let (usage, rest) ← spaced field rest
  let (chain, rest) ← splitOnce '['.toUInt8 rest
  let chain ← stripSuffix [' '.toUInt8] chain
  let (expiresAt, rest) ← spaced field ('['.toUInt8 :: rest)
  match field rest with
  | some (fingerprint, []) =>
    return ⟨bracketed recordedAt, ← actionOf action, issuer, ← usageOfText usage,
      ← chainOf chain, bracketed expiresAt, ← fingerprintOf fingerprint⟩
  | _ => none

variable {C : Chrono}

def CertificateLogRecord.fields (record : CertificateLogRecord C) : CertificateFields :=
  ⟨C.format record.recordedAt, record.action, record.issuer.map utf8Bytes, record.usage,
    record.chain, C.format record.expiresAt, record.fingerprint.asBytes⟩

section Texts

theorem spaced_reads (h : ReadsAs text value) (rest : Bytes) :
    spaced field (text ++ ' '.toUInt8 :: rest) = some (value, rest) := by
  rw [spaced, h _ (.inr ⟨rest, rfl⟩)]
  exact if_pos rfl

theorem actionOf_text (action : CertificateAction) :
    IsWord (action.text.map Char.toUInt8) ∧
      actionOf (action.text.map Char.toUInt8) = some action := by
  cases action <;> exact ⟨⟨by decide, by decide +kernel⟩, by decide +kernel⟩

theorem usageOfText_text (usage : CertificateUsage) :
    usageOfText (usage.text.map Char.toUInt8) = some usage := by
  cases usage <;> decide +kernel

theorem chainDisplay_ascii (chain : Home.CertificateChainKey) :
    (chainDisplay chain).all isAsciiChar = true := by
  have hu : (chainUsageText chain.usage).all isAsciiChar = true := by
    cases chain.usage <;> decide
  have hd : (decimal chain.sequence.get).all isAsciiChar = true :=
    (isWord_host Nat.toDigits_ne_nil (decimal_host _)).1
  rw [chainDisplay, List.all_append, hu, List.all_cons, hd]
  rfl

theorem chainOf_display (chain : Home.CertificateChainKey) :
    chainOf (utf8Bytes (chainDisplay chain)) = some chain := by
  have hcolon : ':' ∉ chainUsageText chain.usage := by cases chain.usage <;> decide
  have husage : [Home.CertificateUsage.clientOnly, .clientAndServer].find? (fun u =>
      decide (chainUsageText u = chainUsageText chain.usage)) = some chain.usage := by
    cases chain.usage <;> decide
  have hnumber : numeralValue 10 (decimal chain.sequence.get) = chain.sequence.get :=
    numeralValue_toDigits (by decide) (by decide) _
  rw [chainOf, byteChars_utf8Bytes (chainDisplay_ascii chain), chainDisplay,
    splitOnce_eq_some.2 ⟨hcolon, rfl⟩]
  simp only [Option.bind_eq_bind, Option.bind_some, husage, hnumber,
    Home.DhttpSubjectKeyIdentifier.sequence_tryFrom_ok.2 rfl]
  rfl

theorem bytesOfHex_hexBytes (bytes : Bytes) : bytesOfHex (hexBytes bytes) = some bytes := by
  induction bytes with
  | nil => rfl
  | cons byte bytes ih =>
    have hpair : hexBytes (byte :: bytes) =
        hexDigit (byte >>> 4) :: hexDigit (byte &&& 0x0F) :: hexBytes bytes := rfl
    rw [hpair, bytesOfHex, ih, unescapeHex_nibbles]
    rfl

theorem fingerprintOf_encoded (fingerprint : Sha256Fingerprint) :
    fingerprintOf fingerprint.encoded = some fingerprint.asBytes := by
  have hstrip (lead rest : Bytes) : stripPrefix lead (lead ++ rest) = some rest :=
    stripPrefix_eq_some.2 rfl
  rw [fingerprintOf, Sha256Fingerprint.encoded, hstrip, Option.bind_some,
    bytesOfHex_hexBytes]

/-- An issuer is told from a missing one by its quotes. -/
theorem issuerField_reads (issuer : Option Text) (rest : Bytes) :
    spaced issuerField ((optionalElement (fun issuer => .quoted (textElement issuer))
        issuer).encoding .plain ++ ' '.toUInt8 :: rest) =
      some (issuer.map utf8Bytes, rest) := by
  cases issuer with
  | none => rfl
  | some issuer =>
    have hq := quotedField_escaped (utf8Bytes issuer) (' '.toUInt8 :: rest)
    change spaced issuerField ('"'.toUInt8 :: ((utf8Bytes issuer).flatMap escapeByte ++
      ['"'.toUInt8]) ++ ' '.toUInt8 :: rest) = _
    rw [List.cons_append, List.append_assoc, List.singleton_append, spaced, issuerField,
      if_pos rfl, hq]
    rfl

theorem digit_content {c : Char} (h : c.isDigit = true) :
    isRecordContentByte c.toUInt8 = true := by
  rw [Char.isDigit, Bool.and_eq_true, decide_eq_true_iff, decide_eq_true_iff] at h
  have hlow : 48 ≤ c.toNat := UInt32.le_iff_toNat_le.1 h.1
  have hhigh : c.toNat ≤ 57 := UInt32.le_iff_toNat_le.1 h.2
  have hbyte : c.toUInt8.toNat = c.toNat := by
    change c.toNat % 256 = c.toNat
    omega
  rw [isRecordContentByte_iff, UInt8.le_iff_toNat_le, UInt8.le_iff_toNat_le, hbyte]
  change 32 ≤ c.toNat ∧ c.toNat ≤ 126
  omega

/-- The chain ends at the bracket after it. -/
theorem chain_reads (chain : Home.CertificateChainKey) (rest : Bytes) :
    splitOnce '['.toUInt8
        (utf8Bytes (chainDisplay chain) ++ ' '.toUInt8 :: '['.toUInt8 :: rest) =
      some (utf8Bytes (chainDisplay chain) ++ [' '.toUInt8], rest) := by
  have hopen : '[' ∉ chainDisplay chain := by
    rw [chainDisplay, List.mem_append, List.mem_cons, not_or, not_or]
    refine ⟨?_, by decide, not_mem_decimal (by decide)⟩
    cases chain.usage <;> decide
  rw [splitOnce_eq_some]
  constructor
  · intro hm
    rcases List.mem_append.1 hm with hm | hm
    · exact hopen ((mem_utf8Bytes (chainDisplay_ascii chain) (by decide)).1 hm)
    · exact absurd (List.mem_singleton.1 hm) (by decide)
  · rw [List.append_assoc]
    rfl

end Texts

section Lines

/-- Times are printed in visible ASCII. -/
def Chrono.Printable (C : Chrono) : Prop := ∀ t, (C.format t).all isRecordContentByte = true

theorem certificate_encoding (record : CertificateLogRecord C) :
    (DefaultCertificateFormatter.operations record).flatMap Operation.encoding =
      C.format record.recordedAt ++ ' '.toUInt8 :: (record.action.text.map Char.toUInt8 ++
        ' '.toUInt8 :: ((optionalElement (fun issuer => .quoted (textElement issuer))
          record.issuer).encoding .plain ++
        ' '.toUInt8 :: (('"'.toUInt8 :: ((record.usage.text.map Char.toUInt8).flatMap escapeByte ++
          ['"'.toUInt8])) ++
        ' '.toUInt8 :: (utf8Bytes (chainDisplay record.chain) ++
        ' '.toUInt8 :: (C.format record.expiresAt ++
        ' '.toUInt8 :: ('"'.toUInt8 :: (record.fingerprint.encoded.flatMap escapeByte ++
          ['"'.toUInt8]))))))) := by
  simp only [DefaultCertificateFormatter.operations, List.flatMap_cons, List.flatMap_nil,
    Operation.encoding, Element.encoding, List.append_nil, List.singleton_append, textElement]

theorem certificate_writable (hP : C.Printable) (record : CertificateLogRecord C) :
    ∀ o ∈ DefaultCertificateFormatter.operations record, o.Writable := by
  have haction : (record.action.text.map Char.toUInt8).all isRecordContentByte = true := by
    cases record.action <;> decide
  have hspace : [' '.toUInt8].all isRecordContentByte = true := by decide
  have hissuer : (optionalElement (fun issuer => .quoted (textElement issuer))
      record.issuer).Writable .plain := by
    cases record.issuer with
    | none => exact fun _ => by decide
    | some issuer => exact ⟨rfl, by intro h; cases h⟩
  have hchain : (utf8Bytes (chainDisplay record.chain)).all isRecordContentByte = true := by
    rw [utf8Bytes_ascii (chainDisplay_ascii record.chain), List.all_map, chainDisplay,
      List.all_append, List.all_cons, Bool.and_eq_true, Bool.and_eq_true]
    refine ⟨?_, by decide, ?_⟩
    · cases record.chain.usage <;> decide
    · rw [List.all_eq_true]
      intro c hc
      exact digit_content (Nat.isDigit_of_mem_toDigits (by decide) (by decide) hc)
  intro o ho
  simp only [DefaultCertificateFormatter.operations, List.mem_cons, List.not_mem_nil,
    or_false] at ho
  rcases ho with rfl | rfl | rfl | rfl | rfl | rfl | rfl | rfl | rfl | rfl | rfl | rfl | rfl
  · exact fun _ => hP _
  · exact hspace
  · exact fun _ => haction
  · exact hspace
  · exact hissuer
  · exact hspace
  · exact ⟨rfl, by intro h; cases h⟩
  · exact hspace
  · exact fun _ => hchain
  · exact hspace
  · exact fun _ => hP _
  · exact hspace
  · exact ⟨rfl, by intro h; cases h⟩

/-- A line is decoded to its record. -/
theorem decodeCertificateLine_format (hC : C.Bracketed) {record : CertificateLogRecord C}
    (h : DefaultCertificateFormatter.format record = .ok line) :
    decodeCertificateLine line = some record.fields := by
  rcases build_cases (DefaultCertificateFormatter.operations record) with
    ⟨hline, -⟩ | ⟨herror, -⟩ | ⟨e, herror, -⟩
  · rw [DefaultCertificateFormatter.format, hline] at h
    cases h
    obtain ⟨recorded, hrecorded, hr⟩ := hC record.recordedAt
    obtain ⟨expires, hexpires, he⟩ := hC record.expiresAt
    obtain ⟨hword, haction⟩ := actionOf_text record.action
    have hexpired (rest : Bytes) : spaced field
        ('['.toUInt8 :: (expires ++ [']'.toUInt8] ++ ' '.toUInt8 :: rest)) =
          some (expires, rest) :=
      spaced_reads (readsAs_bracketed he) rest
    have hfingerprint : field ('"'.toUInt8 :: (record.fingerprint.encoded.flatMap escapeByte ++
        ['"'.toUInt8])) = some (record.fingerprint.encoded, []) := by
      have hlast := readsAs_quoted record.fingerprint.encoded [] (.inl rfl)
      rwa [List.append_nil] at hlast
    have hstrip : stripSuffix [' '.toUInt8]
        (utf8Bytes (chainDisplay record.chain) ++ [' '.toUInt8]) =
          some (utf8Bytes (chainDisplay record.chain)) := stripSuffix_eq_some.2 rfl
    rw [decodeCertificateLine, stripSuffix_eq_some.2 rfl, certificate_encoding, hrecorded,
      hexpires]
    simp only [Option.bind_eq_bind, Option.bind_some, spaced_reads (readsAs_bracketed hr),
      spaced_reads (readsAs_word hword), issuerField_reads, spaced_reads (readsAs_quoted _)]
    simp only [List.cons_append, chain_reads, Option.bind_some, hstrip, hexpired, hfingerprint,
      haction, usageOfText_text, chainOf_display, fingerprintOf_encoded]
    rw [CertificateLogRecord.fields, hrecorded, hexpires]
    rfl
  · rw [DefaultCertificateFormatter.format, herror] at h
    cases h
  · rw [DefaultCertificateFormatter.format, herror] at h
    cases h

theorem CertificateLogRecord.ext_fields {record record' : CertificateLogRecord C}
    (h : record.fields = record'.fields) :
    C.format record.recordedAt = C.format record'.recordedAt ∧ record.action = record'.action ∧
      record.issuer = record'.issuer ∧ record.usage = record'.usage ∧
      record.chain = record'.chain ∧ C.format record.expiresAt = C.format record'.expiresAt ∧
      record.fingerprint = record'.fingerprint := by
  rw [fields, fields, CertificateFields.mk.injEq] at h
  obtain ⟨hr, ha, hi, hu, hc, he, hf⟩ := h
  refine ⟨hr, ha, ?_, hu, hc, he, ?_⟩
  · exact Option.map_injective (fun _ _ => utf8Bytes_injective) hi
  · cases hd : record.fingerprint
    cases hd' : record'.fingerprint
    rw [hd, hd'] at hf
    cases hf
    rfl

theorem fromLeafDer_ok {X : X509 C} {chain : Home.CertificateChainKey}
    (h : CertificateLogRecord.fromLeafDer X recordedAt action chain leafDer = .ok record) :
    ∃ certificate usages expiresAt, X.fromDer leafDer = .ok ([], certificate) ∧
      X.extendedKeyUsage certificate = .ok usages ∧
      X.fromTimestamp (X.notAfter certificate) = some expiresAt ∧
      record = ⟨recordedAt, action, firstValidIssuer X certificate, usageOf usages, chain,
        expiresAt, ⟨X.sha256 leafDer, X.sha256_length leafDer⟩⟩ := by
  rw [CertificateLogRecord.fromLeafDer] at h
  obtain ⟨⟨remaining, certificate⟩, hder, h⟩ := ok_of_bind h
  dsimp only at h
  split at h
  · cases h
  · rename_i hempty
    rw [not_not] at hempty
    obtain ⟨usages, husages, h⟩ := ok_of_bind h
    split at h
    · cases h
    · rename_i expiresAt hexpires
      cases h
      rw [hempty] at hder
      exact ⟨certificate, usages, expiresAt, ok_of_mapError hder, ok_of_mapError husages,
        hexpires, rfl⟩

theorem oneTime_printable : oneTime.Printable := by
  intro t
  change ("[13/Jul/2026:16:20:31 +0800]".toList.map Char.toUInt8).all isRecordContentByte = true
  decide +kernel

/-- A library for which every text is a certificate without anything in it. -/
def noCertificates : X509 oneTime where
  Certificate := Unit
  Error := Unit
  fromDer _ := .ok ([], ())
  iterOrganization _ := [none]
  iterCommonName _ := [some "-".toList]
  extendedKeyUsage _ := .ok (some (true, false))
  notAfter _ := 0
  fromTimestamp _ := some ()
  sha256 _ := List.replicate 32 0xAB
  sha256_length _ := List.length_replicate

def dashIssuer : CertificateLogRecord oneTime where
  recordedAt := ()
  action := .renew
  issuer := some "-".toList
  usage := .clientOnly
  chain := ⟨⟨7, by decide⟩, .clientAndServer⟩
  expiresAt := ()
  fingerprint := ⟨List.replicate 32 0xAB, List.length_replicate⟩

/-- `[13/Jul/2026:16:20:31 +0800] RENEW "-" "client only" …` -/
def dashLine : Bytes :=
  ("[13/Jul/2026:16:20:31 +0800] RENEW \"-\" \"client only\" client and server:7 ".toList ++
    "[13/Jul/2026:16:20:31 +0800] \"sha256:".toList ++
    (List.replicate 32 "ab".toList).flatten ++ "\"\n".toList).map Char.toUInt8

end Lines

end Dhttp.Log
