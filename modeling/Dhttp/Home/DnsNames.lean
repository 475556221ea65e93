import Dhttp.Lib.ByteText
import Dhttp.Lib.DottedNames
import Dhttp.Home.Names

namespace Dhttp.Home
open Dhttp.Lib
set_option autoImplicit true

/-- Normalize a lookup name, expanding only an explicit trailing `~`. -/
def normalizeDnsName (input : Text) : Option Text :=
  let name := toAsciiLowercase (trim input)
  let name := if name.getLast? = some '.' then name.dropLast else name
  let name := if name.getLast? = some '~' then name.dropLast ++ dhttpSuffix else name
  if isValidDnsLabels name then some name else none

structure InvalidName where
  deriving DecidableEq

def validateName (input : Text) : Except InvalidName Unit :=
  if normalizeName input = some input then .ok () else .error ⟨⟩

/-- Upper-case letters are moved by 32, and no other character is. -/
theorem toLower_cases (c : Char) :
    (65 ≤ c.toNat ∧ c.toNat ≤ 90) ∧ c.toLower.toNat = c.toNat + 32 ∨
      ¬ (65 ≤ c.toNat ∧ c.toNat ≤ 90) ∧ c.toLower = c := by
  by_cases h : c.val ≥ 'A'.val ∧ c.val ≤ 'Z'.val
  · have hc : 65 ≤ c.toNat ∧ c.toNat ≤ 90 :=
      ⟨UInt32.le_iff_toNat_le.1 h.1, UInt32.le_iff_toNat_le.1 h.2⟩
    have hv : c.toLower.val = c.val + 32 := by
      rw [Char.toLower, dif_pos h]
      rfl
    have hn : c.toLower.toNat = (c.val + 32).toNat := congrArg UInt32.toNat hv
    rw [UInt32.toNat_add] at hn
    refine .inl ⟨hc, hn.trans (Nat.mod_eq_of_lt ?_)⟩
    change c.toNat + 32 < 2 ^ 32
    omega
  · refine .inr ⟨fun hc => h ⟨?_, ?_⟩, dif_neg h⟩
    · exact UInt32.le_iff_toNat_le.2 hc.1
    · exact UInt32.le_iff_toNat_le.2 hc.2

theorem not_upper_of_toLower {c : Char} (h : c.toLower = c) :
    ¬ (65 ≤ c.toNat ∧ c.toNat ≤ 90) := by
  obtain ⟨-, hn⟩ | ⟨hc, -⟩ := toLower_cases c
  · rw [h] at hn
    omega
  · exact hc

/-- What is no letter is only obtained from itself. -/
theorem toLower_eq_iff {c d : Char} (hd : d.toNat < 65 ∨ 122 < d.toNat) :
    c.toLower = d ↔ c = d := by
  obtain ⟨hc, hn⟩ | ⟨-, he⟩ := toLower_cases c
  · constructor
    · intro h
      rw [h] at hn
      omega
    · intro h
      rw [h] at hc
      omega
  · rw [he]

def isLowerAlphanumeric (c : Char) : Bool := ('a' ≤ c && c ≤ 'z') || ('0' ≤ c && c ≤ '9')

/-- The lower-case names of hosts. -/
def dnsNames : NameSyntax Char where
  letter := isLowerAlphanumeric
  hyphen := '-'
  dot := '.'
  maxLabel := 63
  maxName := 253
  hyphen_letter := by decide
  dot_letter := by decide

theorem isLabelChar_iff :
    isLabelChar c = true ↔ dnsNames.letter c = true ∨ c = dnsNames.hyphen := by
  rw [isLabelChar, Bool.or_eq_true, beq_iff_eq]
  rfl

theorem isAscii_of_isNameChar (h : isNameChar c = true) : isAsciiChar c = true := by
  have hv := isVisible_of_isNameChar h
  rw [isVisible, Bool.and_eq_true, decide_eq_true_iff, decide_eq_true_iff] at hv
  have hn : c.val.toNat ≤ 0x7E := UInt32.le_iff_toNat_le.1 hv.2
  apply decide_eq_true
  exact Nat.lt_of_le_of_lt hn (by decide)

theorem utf8Length_ascii {s : Text} (h : ∀ c ∈ s, isAsciiChar c = true) :
    utf8Length s = s.length := by
  induction s with
  | nil => rfl
  | cons c s ih =>
    have hc : c.utf8Size = 1 := by
      rw [Char.utf8Size_eq_one_iff, UInt32.le_iff_toNat_le]
      exact Nat.le_of_lt_succ (of_decide_eq_true (h c List.mem_cons_self))
    have hs := ih fun d hd => h d (List.mem_cons_of_mem c hd)
    rw [utf8Length, List.map_cons, List.sum_cons, hc, List.length_cons, Nat.add_comm]
    exact congrArg (· + 1) hs

theorem isValidLabel_iff : isValidLabel label = true ↔ dnsNames.IsLabel label := by
  have hascii (h : ∀ c ∈ label, isLabelChar c = true) : utf8Length label = label.length := by
    apply utf8Length_ascii
    intro c hc
    apply isAscii_of_isNameChar
    rw [isNameChar, h c hc, Bool.true_or]
  simp only [isValidLabel, Bool.and_eq_true, decide_eq_true_iff, bne_iff_ne, List.all_eq_true]
  constructor
  · intro h
    obtain ⟨⟨⟨⟨hn, hs⟩, hf⟩, hl⟩, hc⟩ := h
    rw [hascii hc] at hn hs
    exact ⟨hn, hs, fun c hm => isLabelChar_iff.1 (hc c hm), hf, hl⟩
  · intro h
    have hc : ∀ c ∈ label, isLabelChar c = true := fun c hm => isLabelChar_iff.2 (h.chars c hm)
    rw [hascii hc]
    exact ⟨⟨⟨⟨h.nonempty, h.short⟩, h.first⟩, h.last⟩, hc⟩

theorem dnsNames_chars (h : dnsNames.IsName name) (hc : c ∈ name) : isNameChar c = true := by
  rw [isNameChar, Bool.or_eq_true, isLabelChar_iff, beq_iff_eq, or_assoc]
  exact h.chars hc

theorem dnsNames_utf8Length (h : dnsNames.IsName name) : utf8Length name = name.length :=
  utf8Length_ascii fun _ hc => isAscii_of_isNameChar (dnsNames_chars h hc)

/-- The label rules as a grammar. -/
theorem isValidDnsLabels_iff : isValidDnsLabels name = true ↔ dnsNames.IsName name := by
  have hlabels : (splitAll '.' name).all isValidLabel = true ↔
      ∀ label ∈ splitAll '.' name, dnsNames.IsLabel label := by
    rw [List.all_eq_true]
    exact forall₂_congr fun _ _ => isValidLabel_iff
  rw [isValidDnsLabels, Bool.and_eq_true, decide_eq_true_iff, hlabels]
  constructor
  · intro h
    obtain ⟨hs, hl⟩ := h
    refine ⟨?_, hl⟩
    have hchars : ∀ c ∈ name, isAsciiChar c = true := by
      intro c hc
      apply isAscii_of_isNameChar
      rw [isNameChar, Bool.or_eq_true, beq_iff_eq, isLabelChar_iff]
      obtain rfl | ⟨label, hm, hcl⟩ : c = '.' ∨ ∃ label ∈ splitAll '.' name, c ∈ label :=
        mem_pieces hc
      · exact .inr rfl
      · exact .inl ((hl label hm).chars c hcl)
    rw [← utf8Length_ascii hchars]
    exact hs
  · intro h
    rw [dnsNames_utf8Length h]
    exact ⟨h.short, h.labels⟩

theorem isValidDnsName_of_dnsNames (h : dnsNames.IsName name)
    (hn : 2 ≤ (splitAll '.' name).length) : isValidDnsName name = true := by
  rw [isValidDnsName, isValidDnsLabels_iff.2 h, Bool.and_true]
  exact decide_eq_true hn

theorem dnsNames_of_isValidDnsName (h : isValidDnsName name = true) : dnsNames.IsName name := by
  rw [isValidDnsName, Bool.and_eq_true] at h
  exact isValidDnsLabels_iff.1 h.2

/-- The suffix starts a label of its own. -/
theorem splitAll_suffix (lead : Text) :
    splitAll '.' (lead ++ dhttpSuffix) = splitAll '.' lead ++ splitAll '.' dhttpSuffix.tail :=
  splitAll_append_sep lead dhttpSuffix.tail

theorem two_le_labels (lead : Text) : 2 ≤ (splitAll '.' (lead ++ dhttpSuffix)).length := by
  rw [splitAll_suffix, List.length_append]
  exact Nat.le_add_left 2 _

/-- Before the suffix of a name stands a name. -/
theorem isName_lead (h : dnsNames.IsName (lead ++ dhttpSuffix)) : dnsNames.IsName lead := by
  have hs := h.short
  rw [List.length_append] at hs
  refine ⟨Nat.le_trans (Nat.le_add_right _ _) hs, fun label hl => h.labels label ?_⟩
  exact (splitAll_suffix lead) ▸ List.mem_append_left _ hl

/-- The names of the scheme: host names below the suffix. -/
structure IsDhttpName (name : Text) : Prop where
  isName : dnsNames.IsName name
  suffixed : ∃ lead, name = lead ++ dhttpSuffix ∧ dnsNames.IsName lead

theorem isDhttpName_of_normalizeName (h : normalizeName s = some name) : IsDhttpName name := by
  obtain ⟨hv, lead, rfl⟩ := normalizeName_some h
  have hn := dnsNames_of_isValidDnsName hv
  exact ⟨hn, lead, rfl, isName_lead hn⟩

/-- The names of the scheme are the fixed points of `normalize_name`. -/
theorem normalizeName_eq_self_iff : normalizeName name = some name ↔ IsDhttpName name := by
  constructor
  · exact isDhttpName_of_normalizeName
  · intro h
    obtain ⟨lead, rfl, -⟩ := h.suffixed
    exact normalizeName_of_valid (isValidDnsName_of_dnsNames h.isName (two_le_labels lead))
      (List.suffix_append lead dhttpSuffix)

theorem validateName_ok : validateName name = .ok () ↔ IsDhttpName name := by
  rw [← normalizeName_eq_self_iff, validateName]
  constructor
  · intro h
    split at h
    · assumption
    · cases h
  · intro h
    exact if_pos h

theorem not_mem_dnsNames (h : dnsNames.IsName name) (hc : isNameChar c = false) : c ∉ name := by
  intro hm
  rw [dnsNames_chars h hm] at hc
  cases hc

/-- A name does not end with a dot: its last label is not empty. -/
theorem getLast_ne_dot (h : dnsNames.IsName name) : name.getLast? ≠ some '.' := by
  apply getLast_ne_sep
  intro hempty
  exact NameSyntax.not_isLabel_nil (h.labels [] hempty)

theorem normalizeDnsName_some (h : normalizeDnsName s = some name) : dnsNames.IsName name := by
  rw [normalizeDnsName] at h
  obtain ⟨hv, he⟩ := Option.ite_none_right_eq_some.1 h
  rw [Option.some.inj he] at hv
  exact isValidDnsLabels_iff.1 hv

/-- Host names are fixed by `normalize_dns_name`. -/
theorem normalizeDnsName_of_isName (h : dnsNames.IsName name) :
    normalizeDnsName name = some name := by
  have htrim : trim name = name :=
    trim_of_visible fun c hc => isVisible_of_isNameChar (dnsNames_chars h hc)
  have hlower : toAsciiLowercase name = name :=
    toAsciiLowercase_of_lower fun c hc => toLower_of_isNameChar (dnsNames_chars h hc)
  have htilde : name.getLast? ≠ some '~' := fun hl =>
    not_mem_dnsNames h (by decide) (List.mem_of_getLast? hl)
  rw [normalizeDnsName, htrim, hlower, if_neg (getLast_ne_dot h), if_neg htilde,
    if_pos (isValidDnsLabels_iff.2 h)]

/-- The name that a shorthand stands for. -/
def shorthandName (partialName : Text) : Option Text :=
  let name := toAsciiLowercase partialName ++ dhttpSuffix
  if isValidDnsName name then some name else none

theorem toAsciiLowercase_shorthand (partialName : Text) :
    toAsciiLowercase (partialName ++ ['~']) = toAsciiLowercase partialName ++ ['~'] :=
  List.map_append

theorem trim_shorthand (h : ∀ c ∈ partialName, isVisible c = true) :
    trim (partialName ++ ['~']) = partialName ++ ['~'] := by
  apply trim_of_visible
  intro c hc
  obtain hc | hc := List.mem_append.1 hc
  · exact h c hc
  · rw [List.mem_singleton.1 hc]
    rfl

theorem normalizeName_shorthand (h : ∀ c ∈ partialName, isVisible c = true) :
    normalizeName (partialName ++ ['~']) = shorthandName partialName := by
  have hs : dhttpSuffix.isSuffixOf (toAsciiLowercase partialName ++ ['~']) = false := by
    rw [Bool.eq_false_iff]
    intro hs
    obtain ⟨t, ht⟩ := List.isSuffixOf_iff_suffix.1 hs
    have hlast := congrArg List.getLast? ht
    rw [List.getLast?_append_of_ne_nil _ (by decide), List.getLast?_concat] at hlast
    exact absurd hlast (by decide)
  rw [normalizeName, trim_shorthand h, toAsciiLowercase_shorthand, hs,
    if_neg Bool.false_ne_true, List.getLast?_concat, if_pos rfl, List.dropLast_concat]
  rfl

theorem normalizeDnsName_shorthand (h : ∀ c ∈ partialName, isVisible c = true) :
    normalizeDnsName (partialName ++ ['~']) = shorthandName partialName := by
  have hdot : ¬ (some '~' = some '.') := by decide
  rw [normalizeDnsName, trim_shorthand h, toAsciiLowercase_shorthand, List.getLast?_concat,
    if_neg hdot, List.getLast?_concat, if_pos rfl, List.dropLast_concat, shorthandName,
    isValidDnsName, decide_eq_true (two_le_labels _), Bool.true_and]

end Dhttp.Home
