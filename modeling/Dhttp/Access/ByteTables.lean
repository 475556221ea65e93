import Dhttp.Access.Reachability

namespace Dhttp.Access
set_option autoImplicit true

/-- A literal is `String.ofList` of its characters, so no evaluation has to decode it. -/
theorem asciiBytes_ofList (cs : List Char) :
    asciiBytes (String.ofList cs) = cs.map Char.toUInt8 := by
  rw [asciiBytes, String.toList_ofList]

def byteRange (lo n : Nat) : Bytes := (List.range' lo n).map UInt8.ofNat

theorem mem_byteRange (h : lo + n ≤ 256) :
    b ∈ byteRange lo n ↔ lo ≤ b.toNat ∧ b.toNat < lo + n := by
  rw [byteRange, List.mem_map]
  constructor
  · rintro ⟨m, hm, rfl⟩
    rw [List.mem_range'_1] at hm
    rw [UInt8.toNat_ofNat']
    omega
  · intro hb
    exact ⟨b.toNat, List.mem_range'_1.2 hb, UInt8.ofNat_toNat⟩

def alphanumerics : Bytes := byteRange 0x41 26 ++ byteRange 0x61 26 ++ byteRange 0x30 10

theorem mem_alphanumerics : b ∈ alphanumerics ↔ isAsciiAlphanumeric b = true := by
  simp (disch := decide) only [alphanumerics, List.mem_append, mem_byteRange, isAsciiAlphanumeric,
    isAsciiDigit, isAsciiUppercase, isAsciiLowercase, Bool.or_eq_true, Bool.and_eq_true,
    decide_eq_true_iff, UInt8.le_iff_toNat_le, UInt8.reduceToNat]
  omega

theorem hexdigit_alphanumeric (hb : isAsciiHexdigit b = true) : isAsciiAlphanumeric b = true := by
  simp only [isAsciiHexdigit, isAsciiAlphanumeric, isAsciiUppercase, isAsciiLowercase] at *
  grind

theorem fieldValueChars_eq : fieldValueChars = [0x09, 0x20] ++ (alphanumerics ++
    (byteRange 0x21 15 ++ byteRange 0x3A 7 ++ byteRange 0x5B 6 ++ byteRange 0x7B 4)) := by
  rw [fieldValueChars, asciiBytes_ofList]
  rfl

theorem fieldValueChars_contains (b : UInt8) :
    fieldValueChars.contains b = ((0x20 ≤ b && b < 0x7F) || b == 0x09) := by
  rw [fieldValueChars_eq, Bool.eq_iff_iff, List.contains_iff_mem]
  simp (disch := decide) only [List.mem_append, List.mem_pair, alphanumerics, mem_byteRange,
    Bool.or_eq_true, Bool.and_eq_true, decide_eq_true_iff, beq_iff_eq, UInt8.le_iff_toNat_le,
    UInt8.lt_iff_toNat_lt, ← UInt8.toNat_inj, UInt8.reduceToNat]
  omega

theorem mem_hostChars (h : isAsciiAlphanumeric b = true ∨ b = '-'.toUInt8 ∨ b = '.'.toUInt8) :
    b ∈ hostChars := by
  have hs : hostChars = byteRange 0x61 26 ++ byteRange 0x41 26 ++ byteRange 0x30 10 ++
      ['-'.toUInt8, '.'.toUInt8] := by
    rw [hostChars, asciiBytes_ofList]
    rfl
  rw [← mem_alphanumerics, alphanumerics] at h
  rw [hs]
  simp only [List.mem_append, List.mem_pair] at h ⊢
  tauto

theorem isUriPcharPlain_cases (h : isUriPcharPlain b = true) :
    b ∈ alphanumerics ∨ b ∈ asciiBytes "-._~!$&'()*+,;=:@" := by
  have hs : asciiBytes "-._~!$&'()*+,;=:@" =
      asciiBytes "-._~" ++ asciiBytes "!$&'()*+,;=" ++ asciiBytes ":@" := by
    repeat rw [asciiBytes_ofList]
    rfl
  rw [hs]
  simpa only [isUriPcharPlain, isUriUnreserved, isUriSubDelim, Bool.or_eq_true,
    List.contains_iff_mem, ← mem_alphanumerics, List.mem_append, or_assoc] using h

theorem mem_of_all {marks chars : Bytes} {p : UInt8 → Bool}
    (h : marks.all (fun b => p b || chars.contains b) = true)
    (hb : b ∈ marks) (hp : p b = false) : b ∈ chars := by
  have hc := List.all_eq_true.1 h b hb
  rwa [hp, Bool.false_or, List.contains_iff_mem] at hc

theorem mem_uriPathAlphabet (h : isUriPathPlainChar b = true) : b ∈ uriPathAlphabet := by
  have hs : uriPathAlphabet = alphanumerics ++ asciiBytes "-._~!$&'()*+,;=:@%/" := by
    rw [uriPathAlphabet, asciiBytes_ofList, asciiBytes_ofList]
    rfl
  have hm : ('/'.toUInt8 :: asciiBytes "-._~!$&'()*+,;=:@").all
      (fun c => false || (asciiBytes "-._~!$&'()*+,;=:@%/").contains c) = true := by
    repeat rw [asciiBytes_ofList]
    decide
  rw [isUriPathPlainChar, Bool.or_eq_true, decide_eq_true_iff] at h
  rw [hs, List.mem_append]
  rcases h with h | rfl
  · exact (isUriPcharPlain_cases h).imp_right fun hb => mem_of_all hm (List.mem_cons_of_mem _ hb) rfl
  · exact .inr (mem_of_all hm (List.mem_cons_self ..) rfl)

theorem isUriQueryPlainChar_cases (h : isUriQueryPlainChar b = true) :
    b ∈ alphanumerics ∨ b ∈ asciiBytes "-._~!$&'()*+,;=:@/?" := by
  have hs : asciiBytes "-._~!$&'()*+,;=:@/?" =
      asciiBytes "-._~!$&'()*+,;=:@" ++ asciiBytes "/?" := by
    repeat rw [asciiBytes_ofList]
    rfl
  rw [isUriQueryPlainChar, Bool.or_eq_true, List.contains_iff_mem] at h
  rw [hs, List.mem_append]
  rcases h with h | h
  · exact (isUriPcharPlain_cases h).imp_right .inl
  · exact .inr (.inr h)

theorem mem_uriQueryKeyAlphabet (h : isUriQueryKeyPlainChar b = true) :
    b ∈ uriQueryKeyAlphabet := by
  have hs : uriQueryKeyAlphabet = alphanumerics ++ asciiBytes "-._~!$'()*+,;:@%/?" := by
    rw [uriQueryKeyAlphabet, asciiBytes_ofList, asciiBytes_ofList]
    rfl
  have hm : (asciiBytes "-._~!$&'()*+,;=:@/?").all (fun c => (asciiBytes "&=").contains c ||
      (asciiBytes "-._~!$'()*+,;:@%/?").contains c) = true := by
    repeat rw [asciiBytes_ofList]
    decide
  rw [isUriQueryKeyPlainChar, Bool.and_eq_true, Bool.not_eq_true'] at h
  rw [hs, List.mem_append]
  exact (isUriQueryPlainChar_cases h.1).imp_right fun hb => mem_of_all hm hb h.2

theorem mem_uriQueryValueAlphabet (h : isUriQueryValuePlainChar b = true) :
    b ∈ uriQueryValueAlphabet := by
  have hs : uriQueryValueAlphabet = alphanumerics ++ asciiBytes "-._~!$'()*+,;=:@%/?" := by
    rw [uriQueryValueAlphabet, asciiBytes_ofList, asciiBytes_ofList]
    rfl
  have hm : (asciiBytes "-._~!$&'()*+,;=:@/?").all (fun c => c == '&'.toUInt8 ||
      (asciiBytes "-._~!$'()*+,;=:@%/?").contains c) = true := by
    repeat rw [asciiBytes_ofList]
    decide
  rw [isUriQueryValuePlainChar, Bool.and_eq_true, bne_iff_ne, ← beq_eq_false_iff_ne] at h
  rw [hs, List.mem_append]
  exact (isUriQueryPlainChar_cases h.1).imp_right fun hb => mem_of_all hm hb h.2

end Dhttp.Access
