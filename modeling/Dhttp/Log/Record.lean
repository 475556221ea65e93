import Mathlib

namespace Dhttp.Log
set_option autoImplicit true

abbrev Bytes := List UInt8

def maxRecordLen : Nat := 64 * 1024

inductive Version where
  | http09
  | http10
  | http11
  | http2
  | http3
  | other
  deriving DecidableEq, Repr

inductive FormatError where
  | nestedQuoted
  | carriageReturn
  | lineFeed
  | invalidByte (byte : UInt8)
  | unsupportedHttpVersion (version : Version)
  | tooLong (maxLen : Nat)
  deriving DecidableEq, Repr

def isAscii (byte : UInt8) : Bool := byte < 0x80

def isAsciiControl (byte : UInt8) : Bool := byte < 0x20 || byte == 0x7F

def isRecordContentByte (byte : UInt8) : Bool := isAscii byte && !isAsciiControl byte

def rejectRecordDelimiter (byte : UInt8) : Except FormatError Unit :=
  if byte = '\r'.toUInt8 then .error .carriageReturn
  else if byte = '\n'.toUInt8 then .error .lineFeed
  else .ok ()

/-- A nibble fits in one hexadecimal digit, so larger values do not occur. -/
def hexDigit (value : UInt8) : UInt8 :=
  if value ≤ 9 then '0'.toUInt8 + value else 'a'.toUInt8 + value - 10

/-- Addition of the 64-bit `usize`. -/
def checkedAdd (m n : Nat) : Option Nat := if m + n < 2 ^ 64 then some (m + n) else none

structure RecordBuilder where
  bytes : Bytes

namespace RecordBuilder

def new : RecordBuilder := ⟨[]⟩

def ensureFits (b : RecordBuilder) (additional : Nat) : Except FormatError Unit :=
  match checkedAdd b.bytes.length additional with
  | none => .error (.tooLong maxRecordLen)
  | some length => if length ≥ maxRecordLen then .error (.tooLong maxRecordLen) else .ok ()

end RecordBuilder

/-- The loop over the bytes of a plain value. -/
def checkPlain : Bytes → Except FormatError Unit
  | [] => .ok ()
  | byte :: value => do
    rejectRecordDelimiter byte
    if isRecordContentByte byte then checkPlain value else .error (.invalidByte byte)

def encodedLen (byte : UInt8) : Nat :=
  if byte = '"'.toUInt8 ∨ byte = '\\'.toUInt8 then 2
  else if isAsciiControl byte || !isAscii byte then 4
  else 1

/-- The fold that adds up the escaped length. -/
def quotedLength : Bytes → Nat → Except FormatError Nat
  | [], length => .ok length
  | byte :: value, length =>
    match checkedAdd length (encodedLen byte) with
    | none => .error (.tooLong maxRecordLen)
    | some length => quotedLength value length

/-- What the second loop appends for one byte. -/
def escapeByte (byte : UInt8) : Bytes :=
  if byte = '"'.toUInt8 then ['\\'.toUInt8, '"'.toUInt8]
  else if byte = '\\'.toUInt8 then ['\\'.toUInt8, '\\'.toUInt8]
  else if isAsciiControl byte || !isAscii byte then
    ['\\'.toUInt8, 'x'.toUInt8, hexDigit (byte >>> 4), hexDigit (byte &&& 0x0F)]
  else [byte]

namespace RecordBuilder

def appendPlain (b : RecordBuilder) (value : Bytes) : Except FormatError RecordBuilder := do
  checkPlain value
  b.ensureFits value.length
  return ⟨b.bytes ++ value⟩

def literal (b : RecordBuilder) (value : Bytes) : Except FormatError RecordBuilder :=
  b.appendPlain value

def appendQuoted (b : RecordBuilder) (value : Bytes) : Except FormatError RecordBuilder := do
  let additional ← quotedLength value 0
  b.ensureFits additional
  return ⟨value.foldl (fun bytes byte => bytes ++ escapeByte byte) b.bytes⟩

def appendQuoteDelimiter (b : RecordBuilder) : Except FormatError RecordBuilder := do
  b.ensureFits 1
  return ⟨b.bytes ++ ['"'.toUInt8]⟩

def finish (b : RecordBuilder) : Except FormatError Bytes := do
  b.ensureFits 0
  return b.bytes ++ ['\n'.toUInt8]

end RecordBuilder

inductive PresentationMode where
  | plain
  | quoted
  deriving DecidableEq, Repr

/-- The calls of a `FormatElement` implementation on its writer, each followed by `?`. -/
inductive Element where
  | bytes (value : Bytes)
  | quoted (element : Element)
  | seq (first rest : Element)
  | unsupported (version : Version)

def Element.format (mode : PresentationMode) :
    Element → RecordBuilder → Except FormatError RecordBuilder
  | .bytes value, b =>
    match mode with
    | .plain => b.appendPlain value
    | .quoted => b.appendQuoted value
  | .quoted element, b =>
    match mode with
    | .quoted => .error .nestedQuoted
    | .plain => do
      let b ← b.appendQuoteDelimiter
      let b ← element.format .quoted b
      b.appendQuoteDelimiter
  | .seq first rest, b => do
    let b ← first.format mode b
    rest.format mode b
  | .unsupported version, _ => .error (.unsupportedHttpVersion version)

inductive Operation where
  | literal (value : Bytes)
  | element (value : Element)

def Operation.run : Operation → RecordBuilder → Except FormatError RecordBuilder
  | .literal value, b => b.literal value
  | .element value, b => value.format .plain b

def build (operations : List Operation) : Except FormatError Bytes := do
  let b ← operations.foldlM (fun b operation => operation.run b) RecordBuilder.new
  b.finish

/-- The bytes that an element stands for in a record. -/
def Element.encoding (mode : PresentationMode) : Element → Bytes
  | .bytes value =>
    match mode with
    | .plain => value
    | .quoted => value.flatMap escapeByte
  | .quoted element => '"'.toUInt8 :: (element.encoding .quoted ++ ['"'.toUInt8])
  | .seq first rest => first.encoding mode ++ rest.encoding mode
  | .unsupported _ => []

def Operation.encoding : Operation → Bytes
  | .literal value => value
  | .element value => value.encoding .plain

/-- No byte of the element is refused, nor the element itself. -/
def Element.Writable (mode : PresentationMode) : Element → Prop
  | .bytes value => mode = .plain → value.all isRecordContentByte = true
  | .quoted element => mode = .plain ∧ element.Writable .quoted
  | .seq first rest => first.Writable mode ∧ rest.Writable mode
  | .unsupported _ => False

def Operation.Writable : Operation → Prop
  | .literal value => value.all isRecordContentByte = true
  | .element value => value.Writable .plain

section Bytes

theorem checkPlain_ok : checkPlain value = .ok () ↔ value.all isRecordContentByte = true := by
  induction value with
  | nil => exact iff_of_true rfl rfl
  | cons byte value ih =>
    rw [checkPlain, rejectRecordDelimiter, List.all_cons]
    split
    · rename_i hb
      rw [hb]
      exact iff_of_false (fun h => by cases h) (fun h => by cases h)
    · split
      · rename_i hb
        rw [hb]
        exact iff_of_false (fun h => by cases h) (fun h => by cases h)
      · change (if isRecordContentByte byte = true then _ else _) = _ ↔ _
        cases isRecordContentByte byte with
        | false => exact iff_of_false (fun h => by cases h) (fun h => by cases h)
        | true => rw [if_pos rfl, ih, Bool.true_and]

theorem checkPlain_error (h : checkPlain value = .error e) : e ≠ .tooLong maxRecordLen := by
  induction value with
  | nil => cases h
  | cons byte value ih =>
    rw [checkPlain, rejectRecordDelimiter] at h
    split at h
    · cases h
      exact fun h => by cases h
    · split at h
      · cases h
        exact fun h => by cases h
      · change (if isRecordContentByte byte = true then _ else _) = _ at h
        split at h
        · exact ih h
        · cases h
          exact fun h => by cases h

theorem length_escapeByte (byte : UInt8) : (escapeByte byte).length = encodedLen byte := by
  rw [escapeByte, encodedLen]
  split
  · rename_i hb
    rw [if_pos (.inl hb)]
    rfl
  · split
    · rename_i hb
      rw [if_pos (.inr hb)]
      rfl
    · rename_i hq hb
      rw [if_neg (not_or.2 ⟨hq, hb⟩)]
      split <;> rfl

/-- Escaped text is printable: a check of the 256 bytes. -/
theorem escapeByte_content : ∀ byte, (escapeByte byte).all isRecordContentByte = true := by
  decide +kernel

theorem isRecordContentByte_iff : isRecordContentByte byte = true ↔ 0x20 ≤ byte ∧ byte ≤ 0x7E := by
  simp only [isRecordContentByte, isAscii, isAsciiControl, Bool.and_eq_true, Bool.not_eq_true',
    Bool.or_eq_false_iff, decide_eq_true_iff, decide_eq_false_iff_not, beq_eq_false_iff_ne,
    UInt8.le_iff_toNat_le, UInt8.lt_iff_toNat_lt, ne_eq, ← UInt8.toNat_inj, UInt8.reduceToNat]
  omega

theorem quotedLength_ok (h : quotedLength value length = .ok total) :
    total = length + (value.flatMap escapeByte).length := by
  induction value generalizing length with
  | nil =>
    cases h
    rfl
  | cons byte value ih =>
    rw [quotedLength] at h
    split at h
    · cases h
    · rename_i next hn
      obtain ⟨-, hn⟩ := Option.ite_none_right_eq_some.1 hn
      rw [ih h, ← Option.some.inj hn, List.flatMap_cons, List.length_append, length_escapeByte,
        Nat.add_assoc]

theorem quotedLength_error (h : quotedLength value length = .error e) :
    e = .tooLong maxRecordLen ∧ 2 ^ 64 ≤ length + (value.flatMap escapeByte).length := by
  induction value generalizing length with
  | nil => cases h
  | cons byte value ih =>
    rw [List.flatMap_cons, List.length_append, length_escapeByte, ← Nat.add_assoc]
    rw [quotedLength] at h
    split at h
    · rename_i hn
      cases h
      rw [checkedAdd] at hn
      split at hn
      · cases hn
      · rename_i hlt
        exact ⟨rfl, Nat.le_trans (Nat.not_lt.1 hlt) (Nat.le_add_right _ _)⟩
    · rename_i next hn
      obtain ⟨-, hn⟩ := Option.ite_none_right_eq_some.1 hn
      rw [Option.some.inj hn]
      exact ih h

end Bytes

section Fitting

variable {b : RecordBuilder}

theorem ensureFits_ok (h : b.ensureFits n = .ok ()) : b.bytes.length + n < maxRecordLen := by
  rw [RecordBuilder.ensureFits] at h
  split at h
  · cases h
  · rename_i length hl
    obtain ⟨-, hl⟩ := Option.ite_none_right_eq_some.1 hl
    split at h
    · cases h
    · rename_i hlt
      rw [Option.some.inj hl]
      exact Nat.not_le.1 hlt

theorem ensureFits_error (h : b.ensureFits n = .error e) :
    e = .tooLong maxRecordLen ∧ maxRecordLen ≤ b.bytes.length + n := by
  rw [RecordBuilder.ensureFits] at h
  split at h
  · rename_i hl
    cases h
    rw [checkedAdd] at hl
    split at hl
    · cases hl
    · rename_i hlt
      exact ⟨rfl, Nat.le_trans (by decide) (Nat.not_lt.1 hlt)⟩
  · rename_i length hl
    obtain ⟨-, hl⟩ := Option.ite_none_right_eq_some.1 hl
    split at h
    · rename_i hle
      cases h
      rw [Option.some.inj hl]
      exact ⟨rfl, hle⟩
    · cases h

/-- What appending `encoding` to `b` may result in. -/
inductive Appends (b : RecordBuilder) (encoding : Bytes) (writable : Prop) :
    Except FormatError RecordBuilder → Prop where
  | ok (fits : b.bytes.length + encoding.length < maxRecordLen)
      (content : encoding.all isRecordContentByte = true) (accepted : writable) :
      Appends b encoding writable (.ok ⟨b.bytes ++ encoding⟩)
  | tooLong (long : maxRecordLen ≤ b.bytes.length + encoding.length) :
      Appends b encoding writable (.error (.tooLong maxRecordLen))
  | rejected (refused : ¬ writable) (other : e ≠ .tooLong maxRecordLen) :
      Appends b encoding writable (.error e)

theorem Appends.seq {f : RecordBuilder → Except FormatError RecordBuilder}
    (h : Appends b encoding writable r)
    (hf : ∀ b, b.bytes.length < maxRecordLen → Appends b encoding' writable' (f b)) :
    Appends b (encoding ++ encoding') (writable ∧ writable') (r >>= f) := by
  cases h with
  | ok fits content accepted =>
    rw [← List.length_append] at fits
    have hnext := hf ⟨b.bytes ++ encoding⟩ fits
    change Appends b _ _ (f ⟨b.bytes ++ encoding⟩)
    generalize f ⟨b.bytes ++ encoding⟩ = next at hnext
    cases hnext with
    | ok fits' content' accepted' =>
      rw [List.append_assoc]
      apply Appends.ok
      · rw [List.length_append, ← Nat.add_assoc, ← List.length_append]
        exact fits'
      · rw [List.all_append, content, content']
        rfl
      · exact ⟨accepted, accepted'⟩
    | tooLong long =>
      apply Appends.tooLong
      rw [List.length_append, ← Nat.add_assoc, ← List.length_append]
      exact long
    | rejected refused other => exact .rejected (fun h => refused h.2) other
  | tooLong long =>
    apply Appends.tooLong
    rw [List.length_append]
    omega
  | rejected refused other => exact .rejected (fun h => refused h.1) other

theorem Appends.congr (h : Appends b encoding writable r) (hw : writable' ↔ writable) :
    Appends b encoding writable' r := by
  rw [propext hw]
  exact h

/-- Bytes already checked are appended if they fit. -/
theorem appends_fitting {n : Nat} (hn : n = encoding.length)
    (hc : encoding.all isRecordContentByte = true) (hw : writable) :
    Appends b encoding writable (do
      b.ensureFits n
      return ⟨b.bytes ++ encoding⟩) := by
  subst hn
  cases h : b.ensureFits encoding.length with
  | ok => exact .ok (ensureFits_ok h) hc hw
  | error e =>
    obtain ⟨rfl, hlong⟩ := ensureFits_error h
    exact .tooLong hlong

theorem appendPlain_appends (b : RecordBuilder) (value : Bytes) :
    Appends b value (value.all isRecordContentByte = true) (b.appendPlain value) := by
  rw [RecordBuilder.appendPlain]
  cases h : checkPlain value with
  | ok =>
    change Appends b value _ (b.ensureFits value.length >>= fun _ => _)
    exact appends_fitting rfl (checkPlain_ok.1 h) (checkPlain_ok.1 h)
  | error e =>
    refine .rejected ?_ (checkPlain_error h)
    intro hw
    rw [checkPlain_ok.2 hw] at h
    cases h

theorem foldl_escape (value bytes : Bytes) :
    value.foldl (fun bytes byte => bytes ++ escapeByte byte) bytes =
      bytes ++ value.flatMap escapeByte := by
  induction value generalizing bytes with
  | nil => exact (List.append_nil bytes).symm
  | cons byte value ih => rw [List.foldl_cons, ih, List.flatMap_cons, List.append_assoc]

theorem flatMap_escape_content (value : Bytes) :
    (value.flatMap escapeByte).all isRecordContentByte = true := by
  rw [List.all_flatMap]
  exact List.all_eq_true.2 fun byte _ => escapeByte_content byte

/-- The length computed beforehand is that of what the loop appends. -/
theorem appendQuoted_appends (b : RecordBuilder) (value : Bytes) :
    Appends b (value.flatMap escapeByte) True (b.appendQuoted value) := by
  rw [RecordBuilder.appendQuoted, foldl_escape]
  cases h : quotedLength value 0 with
  | ok additional =>
    have hn := quotedLength_ok h
    rw [Nat.zero_add] at hn
    change Appends b _ _ (b.ensureFits additional >>= fun _ => _)
    exact appends_fitting hn (flatMap_escape_content value) trivial
  | error e =>
    obtain ⟨rfl, hlong⟩ := quotedLength_error h
    rw [Nat.zero_add] at hlong
    have hmax : maxRecordLen ≤ 2 ^ 64 := by decide
    exact .tooLong (by omega)

theorem appendQuoteDelimiter_appends (b : RecordBuilder) :
    Appends b ['"'.toUInt8] True b.appendQuoteDelimiter :=
  appends_fitting rfl rfl trivial

theorem format_appends (element : Element) (mode : PresentationMode) (b : RecordBuilder) :
    Appends b (element.encoding mode) (element.Writable mode) (element.format mode b) := by
  induction element generalizing mode b with
  | bytes value =>
    cases mode with
    | plain => exact (appendPlain_appends b value).congr ⟨fun h => h rfl, fun h _ => h⟩
    | quoted =>
      exact (appendQuoted_appends b value).congr (iff_of_true (fun h => by cases h) trivial)
  | quoted element ih =>
    cases mode with
    | plain =>
      have h := (appendQuoteDelimiter_appends b).seq fun b _ =>
        (ih .quoted b).seq fun b _ => appendQuoteDelimiter_appends b
      exact h.congr ⟨fun hw => ⟨trivial, hw.2, trivial⟩, fun hw => ⟨rfl, hw.2.1⟩⟩
    | quoted => exact .rejected (fun h => by cases h.1) (fun h => by cases h)
  | seq first rest ihf ihr => exact (ihf mode b).seq fun b _ => ihr mode b
  | unsupported version => exact .rejected id (fun h => by cases h)

theorem Operation.run_appends (operation : Operation) (b : RecordBuilder) :
    Appends b operation.encoding operation.Writable (operation.run b) := by
  cases operation with
  | literal value => exact appendPlain_appends b value
  | element value => exact format_appends value .plain b

theorem runs_append (operations : List Operation) (b : RecordBuilder)
    (hb : b.bytes.length < maxRecordLen) :
    Appends b (operations.flatMap Operation.encoding) (∀ o ∈ operations, o.Writable)
      (operations.foldlM (fun b operation => operation.run b) b) := by
  induction operations generalizing b with
  | nil =>
    have h : Appends b [] (∀ o ∈ ([] : List Operation), o.Writable) (.ok ⟨b.bytes ++ []⟩) :=
      .ok hb rfl fun _ hm => absurd hm List.not_mem_nil
    rw [List.append_nil] at h
    exact h
  | cons operation operations ih =>
    rw [List.foldlM_cons, List.flatMap_cons]
    exact ((operation.run_appends b).seq ih).congr List.forall_mem_cons

end Fitting

theorem finish_ok {b : RecordBuilder} (hb : b.bytes.length < maxRecordLen) :
    b.finish = .ok (b.bytes ++ ['\n'.toUInt8]) := by
  rw [RecordBuilder.finish]
  cases h : b.ensureFits 0 with
  | ok => rfl
  | error e => exact absurd (ensureFits_error h).2 (Nat.not_le.2 hb)

theorem build_cases (operations : List Operation) :
    (build operations = .ok (operations.flatMap Operation.encoding ++ ['\n'.toUInt8]) ∧
      (operations.flatMap Operation.encoding).length < maxRecordLen ∧
      (operations.flatMap Operation.encoding).all isRecordContentByte = true ∧
      ∀ o ∈ operations, o.Writable) ∨
    (build operations = .error (.tooLong maxRecordLen) ∧
      maxRecordLen ≤ (operations.flatMap Operation.encoding).length) ∨
    ∃ e, build operations = .error e ∧ e ≠ .tooLong maxRecordLen ∧
      ¬ ∀ o ∈ operations, o.Writable := by
  have h := runs_append operations .new (by decide)
  rw [build]
  generalize List.foldlM (fun b operation => Operation.run operation b) RecordBuilder.new
    operations = result at h ⊢
  cases h with
  | ok fits content accepted =>
    have hlt := Nat.lt_of_le_of_lt (Nat.le_add_left _ _) fits
    exact .inl ⟨finish_ok hlt, hlt, content, accepted⟩
  | tooLong long =>
    rw [RecordBuilder.new, List.length_nil, Nat.zero_add] at long
    exact .inr (.inl ⟨rfl, long⟩)
  | rejected refused other => exact .inr (.inr ⟨_, rfl, other, refused⟩)

/-- A finished record is one bounded line of printable bytes, and its length alone decides whether
accepted content can be finished. -/
theorem build_exact (operations : List Operation) :
    (∀ record, build operations = .ok record →
      record = operations.flatMap Operation.encoding ++ ['\n'.toUInt8] ∧
        (∀ byte ∈ operations.flatMap Operation.encoding, 0x20 ≤ byte ∧ byte ≤ 0x7E) ∧
        record.length ≤ 65536) ∧
    ((∀ e, build operations = .error e → e = .tooLong maxRecordLen) →
      (build operations = .error (.tooLong maxRecordLen) ↔
        65535 < (operations.flatMap Operation.encoding).length)) ∧
    ((∀ o ∈ operations, o.Writable) →
      ∀ e, build operations = .error e → e = .tooLong maxRecordLen) := by
  have hmax : maxRecordLen = 65536 := rfl
  rcases build_cases operations with ⟨h, hfits, hcontent, -⟩ | ⟨h, hlong⟩ | ⟨e, h, hother, hrefused⟩
  · rw [h]
    refine ⟨?_, ?_, ?_⟩
    · intro record hr
      cases hr
      refine ⟨rfl, ?_, ?_⟩
      · intro byte hb
        exact isRecordContentByte_iff.1 (List.all_eq_true.1 hcontent byte hb)
      · rw [List.length_append, List.length_singleton]
        omega
    · intro _
      constructor
      · intro hlong
        cases hlong
      · intro hlong
        omega
    · intro _ e he
      cases he
  · rw [h]
    refine ⟨?_, ?_, ?_⟩
    · intro record hr
      cases hr
    · intro _
      exact iff_of_true rfl (by omega)
    · intro _ e he
      cases he
      rfl
  · rw [h]
    refine ⟨?_, ?_, ?_⟩
    · intro record hr
      cases hr
    · intro hall
      exact absurd (hall e rfl) hother
    · intro hw
      exact absurd hw hrefused

end Dhttp.Log
