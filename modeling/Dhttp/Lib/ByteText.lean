import Mathlib

namespace Dhttp.Lib
set_option autoImplicit true

/-- The UTF-8 encoding. -/
def utf8Bytes (s : List Char) : List UInt8 := s.flatMap String.utf8EncodeChar

/-- Every byte read as the character of that number. -/
def byteChars (s : List UInt8) : List Char := s.map fun b => Char.ofNat b.toNat

def isAsciiChar (c : Char) : Bool := c.toNat < 128

theorem utf8Bytes_injective {s t : List Char} (h : utf8Bytes s = utf8Bytes t) : s = t := by
  have hs : (String.ofList s).toByteArray = (String.ofList t).toByteArray := by
    rw [String.toByteArray_ofList, String.toByteArray_ofList, List.utf8Encode, List.utf8Encode]
    exact congrArg List.toByteArray h
  exact String.ofList_injective (String.toByteArray_inj.1 hs)

theorem utf8Bytes_ascii {s : List Char} (h : s.all isAsciiChar = true) :
    utf8Bytes s = s.map Char.toUInt8 := by
  induction s with
  | nil => rfl
  | cons c s ih =>
    rw [List.all_cons, Bool.and_eq_true] at h
    have hc : c.utf8Size = 1 := by
      rw [Char.utf8Size_eq_one_iff, UInt32.le_iff_toNat_le]
      exact Nat.le_of_lt_succ (of_decide_eq_true h.1)
    rw [utf8Bytes, List.flatMap_cons, String.utf8EncodeChar_eq_singleton hc]
    exact congrArg (c.toUInt8 :: ·) (ih h.2)

theorem char_toUInt8 {c : Char} (h : isAsciiChar c = true) : Char.ofNat c.toUInt8.toNat = c := by
  have hlt : c.toNat < 128 := of_decide_eq_true h
  have hn : c.toUInt8.toNat = c.toNat := by
    rw [Char.toUInt8, UInt32.toNat_toUInt8]
    exact Nat.mod_eq_of_lt (Nat.lt_trans hlt (by decide))
  rw [hn, Char.ofNat_toNat]

theorem byteChars_utf8Bytes {s : List Char} (h : s.all isAsciiChar = true) :
    byteChars (utf8Bytes s) = s := by
  rw [utf8Bytes_ascii h, byteChars, List.map_map]
  conv_rhs => rw [← List.map_id s]
  apply List.map_congr_left
  intro c hc
  exact char_toUInt8 (List.all_eq_true.1 h c hc)

/-- The bytes of an ASCII text are those of its characters. -/
theorem mem_utf8Bytes {s : List Char} {c : Char} (h : s.all isAsciiChar = true)
    (hc : isAsciiChar c = true) : c.toUInt8 ∈ utf8Bytes s ↔ c ∈ s := by
  rw [utf8Bytes_ascii h, List.mem_map]
  constructor
  · intro ⟨d, hd, he⟩
    rw [← char_toUInt8 hc, ← he, char_toUInt8 (List.all_eq_true.1 h d hd)]
    exact hd
  · intro hm
    exact ⟨c, hm, rfl⟩

/-- Only ASCII texts are encoded in ASCII bytes. -/
theorem ascii_of_utf8Bytes {s : List Char} (h : ∀ b ∈ utf8Bytes s, b.toNat < 128) :
    s.all isAsciiChar = true := by
  have hchar {b : UInt8} (hb : b.toNat < 128) : (Char.ofNat b.toNat).toNat = b.toNat := by
    rw [Char.toNat_ofNat, if_pos]
    exact .inl (Nat.lt_trans hb (by decide))
  have hascii : (byteChars (utf8Bytes s)).all isAsciiChar = true := by
    rw [byteChars, List.all_map, List.all_eq_true]
    intro b hb
    apply decide_eq_true
    rw [hchar (h b hb)]
    exact h b hb
  have hbytes : utf8Bytes (byteChars (utf8Bytes s)) = utf8Bytes s := by
    rw [utf8Bytes_ascii hascii, byteChars, List.map_map]
    conv_rhs => rw [← List.map_id (utf8Bytes s)]
    apply List.map_congr_left
    intro b hb
    apply UInt8.toNat_inj.1
    have hlt : b.toNat < 256 := b.toNat_lt
    rw [Function.comp_apply, Char.toUInt8, UInt32.toNat_toUInt8]
    exact (congrArg (· % 256) (hchar (h b hb))).trans (Nat.mod_eq_of_lt hlt)
  rw [utf8Bytes_injective hbytes] at hascii
  exact hascii

section Numerals

/-- The value of a digit, also of those from `a` on. -/
def digitValue (c : Char) : Nat := if c.toNat < 97 then c.toNat - 48 else c.toNat - 87

def numeralValue (b : Nat) (s : List Char) : Nat := s.foldl (fun n c => b * n + digitValue c) 0

theorem digitValue_digitChar (h : n < 16) : digitValue (Nat.digitChar n) = n := by
  interval_cases n <;> rfl

theorem numeralValue_concat (b : Nat) (s : List Char) (c : Char) :
    numeralValue b (s ++ [c]) = b * numeralValue b s + digitValue c := by
  rw [numeralValue, List.foldl_append]
  rfl

theorem numeralValue_toDigits (hb : 1 < b) (hb' : b ≤ 16) (n : Nat) :
    numeralValue b (Nat.toDigits b n) = n := by
  induction n using Nat.strong_induction_on with
  | _ n ih =>
    rw [Nat.toDigits_eq_if hb]
    split
    · rename_i hn
      change b * 0 + digitValue n.digitChar = n
      rw [digitValue_digitChar (Nat.lt_of_lt_of_le hn hb')]
      omega
    · rename_i hn
      have hpos : 0 < n := by omega
      rw [numeralValue_concat, ih (n / b) (Nat.div_lt_self hpos hb),
        digitValue_digitChar (Nat.lt_of_lt_of_le (Nat.mod_lt n (by omega)) hb'), Nat.div_add_mod]

def isNumeralChar (c : Char) : Bool := ('0' ≤ c && c ≤ '9') || ('a' ≤ c && c ≤ 'f')

theorem digitChar_numeral (h : n < 16) : isNumeralChar (Nat.digitChar n) = true := by
  interval_cases n <;> rfl

theorem toDigits_numeral (hb : 1 < b) (hb' : b ≤ 16) (n : Nat) :
    (Nat.toDigits b n).all isNumeralChar = true := by
  induction n using Nat.strong_induction_on with
  | _ n ih =>
    rw [Nat.toDigits_eq_if hb]
    split
    · rename_i hn
      rw [List.all_cons, digitChar_numeral (Nat.lt_of_lt_of_le hn hb')]
      rfl
    · rename_i hn
      have hpos : 0 < n := by omega
      rw [List.all_append, ih (n / b) (Nat.div_lt_self hpos hb), List.all_cons,
        digitChar_numeral (Nat.lt_of_lt_of_le (Nat.mod_lt n (by omega)) hb')]
      rfl

theorem digitChar_digitValue {c : Char} (h : c.isDigit = true) :
    digitValue c < 10 ∧ Nat.digitChar (digitValue c) = c := by
  have hc : 48 ≤ c.toNat ∧ c.toNat ≤ 57 := by
    rw [Char.isDigit, Bool.and_eq_true, decide_eq_true_iff, decide_eq_true_iff] at h
    exact ⟨UInt32.le_iff_toNat_le.1 h.1, UInt32.le_iff_toNat_le.1 h.2⟩
  have hv : digitValue c = c.toNat - 48 := if_pos (by omega)
  have hlt : digitValue c < 10 := by omega
  refine ⟨hlt, ?_⟩
  rw [← Char.toNat_inj, Nat.toNat_digitChar_of_lt_ten hlt, hv]
  omega

/-- Digits behind a positive number are appended to its digits. -/
theorem toDigits_foldl {digits : List Char} (hd : digits.all Char.isDigit = true) (hr : 0 < r) :
    Nat.toDigits 10 (digits.foldl (fun n c => 10 * n + digitValue c) r) =
      Nat.toDigits 10 r ++ digits := by
  induction digits generalizing r with
  | nil => rw [List.append_nil]; rfl
  | cons c digits ih =>
    rw [List.all_cons, Bool.and_eq_true] at hd
    obtain ⟨hlt, hchar⟩ := digitChar_digitValue hd.1
    have happ := Nat.toDigits_append_toDigits (b := 10) (by decide) hr hlt
    rw [Nat.toDigits_of_lt_base hlt, hchar] at happ
    rw [List.foldl_cons, ih hd.2 (by omega), ← happ, List.append_assoc]
    rfl

theorem le_foldl_digits (digits : List Char) (r : Nat) :
    r ≤ digits.foldl (fun n c => 10 * n + digitValue c) r := by
  induction digits generalizing r with
  | nil => exact Nat.le_refl r
  | cons c digits ih =>
    have hnext := ih (10 * r + digitValue c)
    rw [List.foldl_cons]
    omega

theorem digitValue_pos {c : Char} (h : c.isDigit = true) (h0 : c ≠ '0') : 0 < digitValue c := by
  apply Nat.pos_of_ne_zero
  intro he
  have hc := (digitChar_digitValue h).2
  rw [he] at hc
  exact h0 hc.symm

/-- A numeral without superfluous zeros is the one that is printed. -/
theorem toDigits_numeralValue {digits : List Char} (hd : digits.all Char.isDigit = true)
    (hne : digits ≠ []) (h0 : digits.head? = some '0' → digits = ['0']) :
    Nat.toDigits 10 (numeralValue 10 digits) = digits := by
  cases digits with
  | nil => exact absurd rfl hne
  | cons c digits =>
    rw [List.all_cons, Bool.and_eq_true] at hd
    by_cases hc : c = '0'
    · rw [h0 (congrArg some hc)]
      rfl
    · have hpos := digitValue_pos hd.1 hc
      obtain ⟨hlt, hchar⟩ := digitChar_digitValue hd.1
      have hvalue : numeralValue 10 (c :: digits) =
          digits.foldl (fun n c => 10 * n + digitValue c) (digitValue c) := by
        rw [numeralValue, List.foldl_cons, Nat.mul_zero, Nat.zero_add]
      rw [hvalue, toDigits_foldl hd.2 hpos, Nat.toDigits_of_lt_base hlt, hchar]
      rfl

theorem toDigits_head_zero (h : (Nat.toDigits 10 n).head? = some '0') : n = 0 := by
  induction n using Nat.strong_induction_on with
  | _ n ih =>
    rw [Nat.toDigits_eq_if (by decide)] at h
    split at h
    · rename_i hn
      rw [← digitValue_digitChar (Nat.lt_of_lt_of_le hn (by decide)), Option.some.inj h]
      rfl
    · rename_i hn
      rw [List.head?_append_of_ne_nil _ Nat.toDigits_ne_nil] at h
      have hdiv := ih (n / 10) (by omega) h
      omega

end Numerals

end Dhttp.Lib
