import Mathlib
import Dhttp.Lib.TextSplitting

namespace Dhttp.Home
open Dhttp.Lib
set_option autoImplicit true

abbrev Text := List Char

def dhttpSuffix : Text := ".dhttp.net".toList

def toAsciiLowercase (s : Text) : Text := s.map Char.toLower

/-- The `White_Space` property of Unicode. -/
def isWhitespace (c : Char) : Bool :=
  (0x09 ≤ c.val && c.val ≤ 0x0D) || c.val == 0x20 || c.val == 0x85 || c.val == 0xA0 ||
    c.val == 0x1680 || (0x2000 ≤ c.val && c.val ≤ 0x200A) || c.val == 0x2028 || c.val == 0x2029 ||
    c.val == 0x202F || c.val == 0x205F || c.val == 0x3000

def trim (s : Text) : Text := (s.dropWhile isWhitespace).rdropWhile isWhitespace

/-- The length of a text in bytes. -/
def utf8Length (s : Text) : Nat := (s.map Char.utf8Size).sum

def isLabelChar (c : Char) : Bool :=
  ('a' ≤ c && c ≤ 'z') || ('0' ≤ c && c ≤ '9') || c == '-'

def isValidLabel (label : Text) : Bool :=
  (1 ≤ utf8Length label && utf8Length label ≤ 63) && label.head? != some '-' &&
    label.getLast? != some '-' && label.all isLabelChar

def isValidDnsLabels (name : Text) : Bool :=
  utf8Length name ≤ 253 && (splitAll '.' name).all isValidLabel

/-- The label rules of the certificate server. -/
def isValidDnsName (name : Text) : Bool :=
  2 ≤ (splitAll '.' name).length && isValidDnsLabels name

/-- Expand a partial identity name and return its canonical form. -/
def normalizeName (input : Text) : Option Text :=
  let name := toAsciiLowercase (trim input)
  let name :=
    if dhttpSuffix.isSuffixOf name then name
    else if name.getLast? = some '~' then name.dropLast ++ dhttpSuffix
    else name ++ dhttpSuffix
  if isValidDnsName name then some name else none

def isNameChar (c : Char) : Bool := isLabelChar c || c == '.'

theorem isValidDnsName_chars (h : isValidDnsName name = true) (hc : c ∈ name) :
    isNameChar c = true := by
  rw [isValidDnsName, Bool.and_eq_true, isValidDnsLabels, Bool.and_eq_true] at h
  obtain rfl | ⟨label, hl, hcl⟩ : c = '.' ∨ ∃ label ∈ splitAll '.' name, c ∈ label :=
    mem_pieces hc
  · rfl
  · have hv := List.all_eq_true.1 h.2.2 label hl
    rw [isValidLabel, Bool.and_eq_true] at hv
    rw [isNameChar, List.all_eq_true.1 hv.2 c hcl, Bool.true_or]

theorem toLower_of_isNameChar (h : isNameChar c = true) : c.toLower = c := by
  rw [Char.toLower, dif_neg]
  rintro ⟨hl, hu⟩
  simp only [isNameChar, isLabelChar, Bool.or_eq_true, Bool.and_eq_true, decide_eq_true_iff,
    beq_iff_eq, Char.le_def] at h
  rcases h with ((h | h) | rfl) | rfl
  · exact absurd (UInt32.le_trans h.1 hu) (by decide)
  · exact absurd (UInt32.le_trans hl h.2) (by decide)
  · exact absurd hl (by decide)
  · exact absurd hl (by decide)

/-- The printable characters of ASCII other than the space. -/
def isVisible (c : Char) : Bool := 0x21 ≤ c.val && c.val ≤ 0x7E

theorem isWhitespace_of_isVisible (h : isVisible c = true) : isWhitespace c = false := by
  rw [Bool.eq_false_iff]
  intro hw
  simp only [isVisible, isWhitespace, Bool.or_eq_true, Bool.and_eq_true, decide_eq_true_iff,
    beq_iff_eq, UInt32.le_iff_toNat_le, ← UInt32.toNat_inj, UInt32.reduceToNat] at h hw
  omega

theorem isVisible_of_isNameChar (h : isNameChar c = true) : isVisible c = true := by
  simp only [isNameChar, isLabelChar, Bool.or_eq_true, Bool.and_eq_true, decide_eq_true_iff,
    beq_iff_eq, Char.le_def] at h
  rw [isVisible, Bool.and_eq_true, decide_eq_true_iff, decide_eq_true_iff]
  rcases h with ((h | h) | rfl) | rfl
  · exact ⟨UInt32.le_trans (by decide) h.1, UInt32.le_trans h.2 (by decide)⟩
  · exact ⟨UInt32.le_trans (by decide) h.1, UInt32.le_trans h.2 (by decide)⟩
  · decide
  · decide

theorem not_mem_of_valid (h : isValidDnsName name = true) (hc : isNameChar c = false) :
    c ∉ name := fun hm => by
  rw [isValidDnsName_chars h hm] at hc
  cases hc

theorem ne_nil_of_valid (h : isValidDnsName name = true) : name ≠ [] := by
  rintro rfl
  cases h

theorem toAsciiLowercase_of_lower (h : ∀ c ∈ s, c.toLower = c) : toAsciiLowercase s = s :=
  (List.map_congr_left h).trans (List.map_id s)

theorem toAsciiLowercase_of_valid (h : isValidDnsName name = true) :
    toAsciiLowercase name = name :=
  toAsciiLowercase_of_lower fun _ hc => toLower_of_isNameChar (isValidDnsName_chars h hc)

theorem trim_of_visible (h : ∀ c ∈ s, isVisible c = true) : trim s = s := by
  have hd : s.dropWhile isWhitespace = s := by
    cases s with
    | nil => rfl
    | cons c s =>
      rw [List.dropWhile_cons, isWhitespace_of_isVisible (h c (List.mem_cons_self ..)),
        if_neg Bool.false_ne_true]
  rw [trim, hd, List.rdropWhile_eq_self_iff]
  intro hs
  rw [isWhitespace_of_isVisible (h _ (List.getLast_mem hs))]
  exact Bool.false_ne_true

theorem trim_of_valid (h : isValidDnsName name = true) : trim name = name :=
  trim_of_visible fun _ hc => isVisible_of_isNameChar (isValidDnsName_chars h hc)

theorem normalizeName_some (h : normalizeName s = some name) :
    isValidDnsName name = true ∧ dhttpSuffix <:+ name := by
  rw [normalizeName] at h
  obtain ⟨hv, hn⟩ := Option.ite_none_right_eq_some.1 h
  cases hn
  refine ⟨hv, ?_⟩
  split
  · rename_i hs
    exact List.isSuffixOf_iff_suffix.1 hs
  · split <;> exact List.suffix_append ..

/-- The canonical names are their own normal forms. -/
theorem normalizeName_of_valid (hv : isValidDnsName name = true) (hs : dhttpSuffix <:+ name) :
    normalizeName name = some name := by
  rw [normalizeName, trim_of_valid hv, toAsciiLowercase_of_valid hv,
    List.isSuffixOf_iff_suffix.2 hs]
  exact if_pos hv

/-- A name with the suffix is only put in lower case. -/
theorem normalizeName_suffixed (hw : ∀ c ∈ s, isVisible c = true)
    (hs : dhttpSuffix <:+ toAsciiLowercase s) (h : normalizeName s = some name) :
    name = toAsciiLowercase s := by
  rw [normalizeName, trim_of_visible hw, List.isSuffixOf_iff_suffix.2 hs] at h
  exact (Option.some.inj (Option.ite_none_right_eq_some.1 h).2).symm

theorem toLower_toLower (c : Char) : c.toLower.toLower = c.toLower := by
  by_cases h : c.val ≥ 'A'.val ∧ c.val ≤ 'Z'.val
  · have hv : c.toLower.val = c.val + 32 := by
      rw [Char.toLower, dif_pos h]
      rfl
    have hn : ¬ (c.toLower.val ≥ 'A'.val ∧ c.toLower.val ≤ 'Z'.val) := by
      have hl : (65 : UInt32) ≤ c.val := h.1
      have hu : c.val ≤ (90 : UInt32) := h.2
      rintro ⟨-, hc⟩
      have hc : c.val + 32 ≤ (90 : UInt32) := hv ▸ hc
      simp only [UInt32.le_iff_toNat_le, UInt32.toNat_add, UInt32.reduceToNat] at hl hu hc
      omega
    conv_lhs => rw [Char.toLower, dif_neg hn]
  · have hc : c.toLower = c := dif_neg h
    rw [hc, hc]

theorem toAsciiLowercase_idem (s : Text) :
    toAsciiLowercase (toAsciiLowercase s) = toAsciiLowercase s := by
  simp only [toAsciiLowercase, List.map_map]
  exact List.map_congr_left fun c _ => toLower_toLower c

theorem toAsciiLowercase_length (s : Text) : (toAsciiLowercase s).length = s.length :=
  List.length_map ..

end Dhttp.Home
