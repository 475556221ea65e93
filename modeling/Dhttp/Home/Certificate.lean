import Dhttp.Lib.ByteText
import Dhttp.Lib.Fallible
import Dhttp.Home.Names

namespace Dhttp.Home
open Dhttp.Lib
set_option autoImplicit true

inductive ParseIntError where
  | empty
  | invalidDigit
  | posOverflow
  deriving DecidableEq, Repr

/-- The digits of an unsigned integer, after the number that is read already. -/
def parseU64Digits (result : Nat) : Text → Except ParseIntError Nat
  | [] => .ok result
  | c :: digits =>
    if c.isDigit then
      let next := 10 * result + digitValue c
      if next < 2 ^ 64 then parseU64Digits next digits else .error .posOverflow
    else .error .invalidDigit

/-- `str::parse::<u64>`. -/
def parseU64 (s : Text) : Except ParseIntError Nat :=
  if s = [] then .error .empty
  else if s = ['+'] ∨ s = ['-'] then .error .invalidDigit
  else parseU64Digits 0 (if s.head? = some '+' then s.tail else s)

inductive InvalidCertificateSequence where
  | negative
  | outOfRange (value : Nat)
  deriving DecidableEq, Repr

/-- Sequences fit the database: they are at most `i32::MAX`. -/
structure CertificateSequence where
  get : Nat
  inRange : get ≤ 2147483647
  deriving DecidableEq

def CertificateSequence.tryFrom (value : Nat) :
    Except InvalidCertificateSequence CertificateSequence :=
  if h : value ≤ 2147483647 then .ok ⟨value, h⟩ else .error (.outOfRange value)

inductive CertificateUsage where
  | clientOnly
  | clientAndServer
  deriving DecidableEq, Repr

def CertificateUsage.kindFlag : CertificateUsage → Text
  | .clientOnly => ['1']
  | .clientAndServer => ['0']

inductive InvalidOwnerHash where
  | invalid
  deriving DecidableEq, Repr

def isOwnerHash (value : Text) : Bool :=
  utf8Length value == 64 && value.all fun c => c.isDigit || ('a' ≤ c && c ≤ 'f')

structure OwnerHash where
  asStr : Text
  valid : isOwnerHash asStr = true
  deriving DecidableEq

def OwnerHash.tryFrom (value : Text) : Except InvalidOwnerHash OwnerHash :=
  if h : isOwnerHash value = true then .ok ⟨value, h⟩ else .error .invalid

structure CertificateChainKey where
  sequence : CertificateSequence
  usage : CertificateUsage
  deriving DecidableEq

structure DhttpSubjectKeyIdentifier where
  chain : CertificateChainKey
  ownerHash : OwnerHash
  deriving DecidableEq

inductive InvalidDhttpSubjectKeyIdentifier where
  | fieldCount
  | sequence (source : ParseIntError)
  | sequenceRange (source : InvalidCertificateSequence)
  | kindFlag
  | ownerHash (source : InvalidOwnerHash)
  deriving DecidableEq

def usageOfFlag (flag : Text) : Except InvalidDhttpSubjectKeyIdentifier CertificateUsage :=
  if flag = ['0'] then .ok .clientAndServer
  else if flag = ['1'] then .ok .clientOnly
  else .error .kindFlag

namespace DhttpSubjectKeyIdentifier

def fromStr (value : Text) :
    Except InvalidDhttpSubjectKeyIdentifier DhttpSubjectKeyIdentifier :=
  match splitAll ':' value with
  | [sequence, usage, ownerHash] => do
    let sequence ← (parseU64 sequence).mapError .sequence
    let sequence ← (CertificateSequence.tryFrom sequence).mapError .sequenceRange
    let usage ← usageOfFlag usage
    let ownerHash ← (OwnerHash.tryFrom ownerHash).mapError .ownerHash
    return ⟨⟨sequence, usage⟩, ownerHash⟩
  | _ => .error .fieldCount

def display (id : DhttpSubjectKeyIdentifier) : Text :=
  Nat.toDigits 10 id.chain.sequence.get ++ ':' :: id.chain.usage.kindFlag ++
    ':' :: id.ownerHash.asStr

end DhttpSubjectKeyIdentifier

/-- The number is what the digits say, as long as it fits. -/
theorem parseU64Digits_ok {digits : Text} (hr : result < 2 ^ 64) :
    parseU64Digits result digits = .ok n ↔ digits.all Char.isDigit = true ∧
      digits.foldl (fun n c => 10 * n + digitValue c) result = n ∧ n < 2 ^ 64 := by
  induction digits generalizing result with
  | nil =>
    rw [parseU64Digits, Except.ok.injEq]
    constructor
    · intro h
      exact ⟨rfl, h, h ▸ hr⟩
    · intro h
      exact h.2.1
  | cons c digits ih =>
    rw [parseU64Digits, List.all_cons, Bool.and_eq_true, List.foldl_cons]
    by_cases hc : c.isDigit = true
    · rw [if_pos hc, and_iff_right hc]
      by_cases hn : 10 * result + digitValue c < 2 ^ 64
      · rw [if_pos hn]
        exact ih hn
      · rw [if_neg hn]
        constructor
        · intro h
          cases h
        · intro h
          obtain ⟨-, he, hlt⟩ := h
          have hle := le_foldl_digits digits (10 * result + digitValue c)
          omega
    · rw [if_neg hc]
      constructor
      · intro h
        cases h
      · intro h
        exact absurd h.1.1 hc

theorem parseU64_ok {s : Text} : parseU64 s = .ok n ↔ ∃ digits,
    (s = digits ∨ s = '+' :: digits) ∧ digits ≠ [] ∧ digits.all Char.isDigit = true ∧
      numeralValue 10 digits = n ∧ n < 2 ^ 64 := by
  have hdigits (digits : Text) : parseU64Digits 0 digits = .ok n ↔
      digits.all Char.isDigit = true ∧ numeralValue 10 digits = n ∧ n < 2 ^ 64 :=
    parseU64Digits_ok (Nat.two_pow_pos 64)
  rw [parseU64]
  constructor
  · intro h
    split at h
    · cases h
    · rename_i hne
      split at h
      · cases h
      · rename_i hsign
        rw [not_or] at hsign
        cases s with
        | nil => exact absurd rfl hne
        | cons c rest =>
          by_cases hc : c = '+'
          · rw [hc, List.head?_cons, if_pos rfl, List.tail_cons] at h
            refine ⟨rest, .inr (by rw [hc]), ?_, (hdigits rest).1 h⟩
            intro he
            exact hsign.1 (by rw [hc, he])
          · rw [List.head?_cons, if_neg fun he => hc (Option.some.inj he)] at h
            exact ⟨c :: rest, .inl rfl, hne, (hdigits _).1 h⟩
  · intro h
    obtain ⟨digits, hs, hne, hd⟩ := h
    have hparse := (hdigits digits).2 hd
    obtain rfl | rfl := hs
    · have hplus : '+' ∉ s := by
        intro hm
        exact absurd (List.all_eq_true.1 hd.1 _ hm) (by decide)
      have hminus : '-' ∉ s := by
        intro hm
        exact absurd (List.all_eq_true.1 hd.1 _ hm) (by decide)
      rw [if_neg hne, if_neg, if_neg]
      · exact hparse
      · exact fun he => hplus (List.mem_of_mem_head? he)
      · rintro (rfl | rfl)
        · exact hplus (List.mem_singleton_self _)
        · exact hminus (List.mem_singleton_self _)
    · rw [if_neg (List.cons_ne_nil _ _), if_neg, List.head?_cons, if_pos rfl]
      · exact hparse
      · rintro (he | he)
        · exact hne (List.cons.inj he).2
        · exact absurd (List.cons.inj he).1 (by decide)

theorem parseU64_toDigits (h : n < 2 ^ 64) : parseU64 (Nat.toDigits 10 n) = .ok n := by
  refine parseU64_ok.2 ⟨_, .inl rfl, Nat.toDigits_ne_nil, ?_, ?_, h⟩
  · rw [List.all_eq_true]
    exact fun c hc => Nat.isDigit_of_mem_toDigits (by decide) (by decide) hc
  · exact numeralValue_toDigits (by decide) (by decide) n

/-- A numeral without a sign and without superfluous zeros. -/
def isPlainNumeral (s : Text) : Bool :=
  s.head? != some '+' && (s.head? != some '0' || s == ['0'])

theorem isPlainNumeral_iff {s : Text} :
    isPlainNumeral s = true ↔ s.head? ≠ some '+' ∧ (s.head? = some '0' → s = ['0']) := by
  rw [isPlainNumeral, Bool.and_eq_true, Bool.or_eq_true, bne_iff_ne, bne_iff_ne, beq_iff_eq,
    imp_iff_not_or]

/-- Of the spellings of a number the plain one is printed. -/
theorem toDigits_parseU64 {s : Text} (h : parseU64 s = .ok n) :
    Nat.toDigits 10 n = s ↔ isPlainNumeral s = true := by
  obtain ⟨digits, hs, hne, hd, hv, -⟩ := parseU64_ok.1 h
  rw [isPlainNumeral_iff]
  constructor
  · intro he
    subst he
    constructor
    · intro hplus
      have hm := Nat.isDigit_of_mem_toDigits (by decide) (by decide) (List.mem_of_mem_head? hplus)
      exact absurd hm (by decide)
    · intro h0
      rw [toDigits_head_zero h0]
      rfl
  · intro hp
    obtain rfl | rfl := hs
    · rw [← hv]
      exact toDigits_numeralValue hd hne hp.2
    · exact absurd rfl hp.1

namespace DhttpSubjectKeyIdentifier

theorem colon_not_mem_ownerHash (hash : OwnerHash) : ':' ∉ hash.asStr := by
  intro hm
  have hv := hash.valid
  rw [isOwnerHash, Bool.and_eq_true] at hv
  exact absurd (List.all_eq_true.1 hv.2 _ hm) (by decide)

theorem colon_not_mem_kindFlag (usage : CertificateUsage) : ':' ∉ usage.kindFlag := by
  cases usage <;> decide

theorem usageOfFlag_ok : usageOfFlag flag = .ok usage ↔ flag = usage.kindFlag := by
  rw [usageOfFlag]
  constructor
  · intro h
    split at h
    · cases h
      assumption
    · split at h
      · cases h
        assumption
      · cases h
  · intro h
    rw [h]
    cases usage <;> rfl

theorem sequence_tryFrom_ok {sequence : CertificateSequence} :
    CertificateSequence.tryFrom n = .ok sequence ↔ sequence.get = n := by
  rw [CertificateSequence.tryFrom]
  constructor
  · intro h
    split at h
    · cases h
      rfl
    · cases h
  · intro h
    subst h
    exact dif_pos sequence.inRange

theorem ownerHash_tryFrom_ok {hash : OwnerHash} :
    OwnerHash.tryFrom value = .ok hash ↔ hash.asStr = value := by
  rw [OwnerHash.tryFrom]
  constructor
  · intro h
    split at h
    · cases h
      rfl
    · cases h
  · intro h
    subst h
    exact dif_pos hash.valid

/-- The text behind the sequence is determined. -/
theorem splitAll_identifier {field : Text} (hf : ':' ∉ field) (usage : CertificateUsage)
    (hash : OwnerHash) :
    splitAll ':' (field ++ ':' :: usage.kindFlag ++ ':' :: hash.asStr) =
      [field, usage.kindFlag, hash.asStr] := by
  rw [List.append_assoc, List.cons_append, splitAll_append hf,
    splitAll_append (colon_not_mem_kindFlag _), splitAll_of_not_mem (colon_not_mem_ownerHash _)]

/-- An identifier is accepted in every spelling of its sequence. -/
theorem fromStr_ok {s : Text} {id : DhttpSubjectKeyIdentifier} :
    fromStr s = .ok id ↔ ∃ field, ':' ∉ field ∧
      s = field ++ ':' :: id.chain.usage.kindFlag ++ ':' :: id.ownerHash.asStr ∧
        parseU64 field = .ok id.chain.sequence.get := by
  constructor
  · intro h
    rw [fromStr] at h
    split at h
    · rename_i field flag value hs
      simp only [bind_ok, mapError_ok] at h
      obtain ⟨n, hn, sequence, hseq, usage, husage, hash, hhash, he⟩ := h
      cases he
      rw [sequence_tryFrom_ok] at hseq
      rw [ownerHash_tryFrom_ok] at hhash
      rw [usageOfFlag_ok] at husage
      subst hseq hhash husage
      have hfield : ':' ∉ field := (mem_splitAll (hs ▸ List.mem_cons_self)).1
      refine ⟨field, hfield, ?_, hn⟩
      rw [joined_splitAll hs, List.flatMap_cons, List.flatMap_singleton, List.append_assoc,
        List.cons_append]
    · cases h
  · intro h
    obtain ⟨field, hf, rfl, hn⟩ := h
    rw [fromStr, splitAll_identifier hf]
    simp only [bind_ok, mapError_ok]
    exact ⟨_, hn, _, sequence_tryFrom_ok.2 rfl, _, usageOfFlag_ok.2 rfl, _,
      ownerHash_tryFrom_ok.2 rfl, rfl⟩

/-- The sequence is written as it is printed. -/
def hasPlainSequence (s : Text) : Bool := isPlainNumeral (s.takeWhile (· ≠ ':'))

theorem display_of_fromStr {s : Text} {id : DhttpSubjectKeyIdentifier} (h : fromStr s = .ok id) :
    display id = s ↔ hasPlainSequence s = true := by
  obtain ⟨field, hf, rfl, hn⟩ := fromStr_ok.1 h
  have htake : (field ++ ':' :: id.chain.usage.kindFlag ++ ':' :: id.ownerHash.asStr).takeWhile
      (· ≠ ':') = field := by
    rw [List.append_assoc, List.cons_append]
    exact takeWhile_sep hf (.inr ⟨_, rfl⟩)
  rw [hasPlainSequence, htake, ← toDigits_parseU64 hn, display, List.append_assoc,
    List.append_assoc]
  exact List.append_left_inj _

/-- Printed identifiers are read back. An accepted text is printed again exactly when its sequence
has no sign and no superfluous zeros, and only one such text names an identifier. -/
theorem fromStr_canonical (s : Text) :
    (∀ id, fromStr (display id) = .ok id) ∧
    (∀ id, fromStr s = .ok id → (display id = s ↔ hasPlainSequence s = true)) ∧
    (∀ t id, fromStr s = .ok id → fromStr t = .ok id → hasPlainSequence s = true →
      hasPlainSequence t = true → s = t) := by
  refine ⟨?_, fun id h => display_of_fromStr h, ?_⟩
  · intro id
    refine fromStr_ok.2 ⟨_, ?_, rfl, ?_⟩
    · intro hm
      exact absurd (Nat.isDigit_of_mem_toDigits (by decide) (by decide) hm) (by decide)
    · exact parseU64_toDigits (Nat.lt_of_le_of_lt id.chain.sequence.inRange (by decide))
  · intro t id hs ht hps hpt
    exact ((display_of_fromStr hs).2 hps).symm.trans ((display_of_fromStr ht).2 hpt)

def sampleHash : OwnerHash := ⟨List.replicate 64 'a', by decide⟩

/-- The sequence `007` is read and printed as `7`. -/
theorem fromStr_zeros : ¬ ∀ s id, fromStr s = .ok id → display id = s := by
  intro h
  have hread : fromStr ("007:0:".toList ++ sampleHash.asStr) =
      .ok ⟨⟨⟨7, by decide⟩, .clientAndServer⟩, sampleHash⟩ :=
    fromStr_ok.2 ⟨['0', '0', '7'], by decide, rfl, by decide⟩
  exact absurd (h _ _ hread) (by decide)

end DhttpSubjectKeyIdentifier

end Dhttp.Home
