import Dhttp.Access.SearchExactness
import Dhttp.Access.ByteTables

namespace Dhttp.Access
open Dhttp.Lib
set_option autoImplicit true

/-- Strings of plain bytes and complete percent escapes. -/
def wellEscaped (plain : UInt8 → Bool) : Bytes → Bool
  | [] => true
  | b :: rest =>
    if b = '%'.toUInt8 then
      match rest with
      | h :: l :: rest => isAsciiHexdigit h && isAsciiHexdigit l && wellEscaped plain rest
      | _ => false
    else plain b && wellEscaped plain rest

theorem wellEscaped_escape (h l : UInt8) (rest : Bytes) :
    wellEscaped plain ('%'.toUInt8 :: h :: l :: rest) =
      (isAsciiHexdigit h && isAsciiHexdigit l && wellEscaped plain rest) := by
  rw [wellEscaped, if_pos rfl]

theorem wellEscaped_broken (h : ∀ h l rest', rest ≠ h :: l :: rest') :
    wellEscaped plain ('%'.toUInt8 :: rest) = false := by
  rw [wellEscaped.eq_def]
  rcases rest with _ | ⟨a, _ | ⟨b, rest⟩⟩
  · rfl
  · rfl
  · exact absurd rfl (h a b rest)

theorem wellEscaped_plain (h : b ≠ '%'.toUInt8) :
    wellEscaped plain (b :: rest) = (plain b && wellEscaped plain rest) := by
  rw [wellEscaped.eq_def]
  exact if_neg h

namespace PatternInputLanguage

variable {label : String} {chars : Bytes}

theorem acceptsFrom_token {state : DomainState} {input : Bytes} (hs : state.len = 1) :
    (tokenLanguage label chars).acceptsFrom state input = input.all chars.contains := by
  induction input generalizing state with
  | nil =>
    rw [acceptsFrom_nil]
    simp [tokenLanguage, hs]
  | cons b input ih =>
    rw [acceptsFrom_cons, List.all_cons]
    simp only [tokenLanguage]
    split <;> rename_i hb
    · rw [hb, Bool.true_and]
      exact ih rfl
    · rw [Bool.eq_false_iff.2 hb]
      rfl

@[simp] theorem accepts_token (input : Bytes) :
    (tokenLanguage label chars).accepts input = (!input.isEmpty && input.all chars.contains) := by
  cases input with
  | nil => rfl
  | cons b input =>
    rw [accepts, acceptsFrom_cons, List.all_cons]
    simp only [tokenLanguage, List.isEmpty_cons, Bool.not_false, Bool.true_and]
    split <;> rename_i hb
    · rw [hb, Bool.true_and]
      exact acceptsFrom_token rfl
    · rw [Bool.eq_false_iff.2 hb]
      rfl

theorem recovers_token (hc : b ∈ chars) (late : Bytes) :
    (tokenLanguage label chars).Recovers late where
  reads h := by
    simp only [tokenLanguage, Option.ite_none_right_eq_some] at h
    exact List.contains_iff_mem.1 h.1
  start_near := by
    refine .inr ⟨b, ⟨0, 1, 0⟩, ?_, rfl⟩
    simp [tokenLanguage, hc]
  step_near h _ := by
    simp only [tokenLanguage, Option.ite_none_right_eq_some, Option.some.injEq] at h
    rw [← h.2]
    exact .inl (.inl rfl)

theorem recovers_string (late : Bytes) : (stringLanguage label chars).Recovers late where
  reads h := by
    simp only [stringLanguage, Option.ite_none_right_eq_some] at h
    exact List.contains_iff_mem.1 h.1
  start_near := .inl rfl
  step_near _ _ := .inl (.inl rfl)

@[simp] theorem accepts_string (input : Bytes) :
    (stringLanguage label chars).accepts input = input.all chars.contains := by
  rw [accepts]
  change (stringLanguage label chars).acceptsFrom ⟨0, 0, 0⟩ input = _
  induction input with
  | nil => rfl
  | cons b input ih =>
    rw [acceptsFrom_cons, List.all_cons, ← ih]
    simp only [stringLanguage]
    cases chars.contains b <;> rfl

variable {plain : UInt8 → Bool} {alphabet : Bytes}

theorem acceptsFrom_query (input : Bytes) :
    (queryLanguage label plain alphabet).acceptsFrom ⟨0, 0, 0⟩ input =
      wellEscaped plain input := by
  induction input using wellEscaped.induct with
  | case1 => rfl
  | case2 h l rest ih =>
    rw [wellEscaped_escape, acceptsFrom_cons, ← ih]
    simp only [queryLanguage, if_true, true_and]
    cases hh : isAsciiHexdigit h <;> cases hl : isAsciiHexdigit l <;>
      simp [acceptsFrom_cons, hh, hl]
  | case3 rest hr =>
    rw [wellEscaped_broken hr, acceptsFrom_cons]
    rcases rest with _ | ⟨h, _ | ⟨l, rest⟩⟩
    · rfl
    · simp only [queryLanguage, if_true, true_and]
      cases hh : isAsciiHexdigit h <;> simp [acceptsFrom_cons, acceptsFrom_nil, hh]
    · exact absurd rfl (hr h l rest)
  | case4 b rest hb ih =>
    rw [wellEscaped_plain hb, acceptsFrom_cons, ← ih]
    simp only [queryLanguage, hb, and_false, if_false, true_and]
    cases plain b <;> simp

@[simp] theorem accepts_query (input : Bytes) :
    (queryLanguage label plain alphabet).accepts input = wellEscaped plain input :=
  acceptsFrom_query input

theorem acceptsFrom_path (input : Bytes) :
    locationPathLanguage.acceptsFrom ⟨1, 0, 0⟩ input = wellEscaped isUriPathPlainChar input := by
  induction input using wellEscaped.induct with
  | case1 => rfl
  | case2 h l rest ih =>
    rw [wellEscaped_escape, acceptsFrom_cons, ← ih]
    cases hh : isAsciiHexdigit h <;> cases hl : isAsciiHexdigit l <;>
      simp [acceptsFrom_cons, locationPathLanguage, hh, hl]
  | case3 rest hr =>
    rw [wellEscaped_broken hr, acceptsFrom_cons]
    rcases rest with _ | ⟨h, _ | ⟨l, rest⟩⟩
    · rfl
    · cases hh : isAsciiHexdigit h <;>
        simp [acceptsFrom_cons, acceptsFrom_nil, locationPathLanguage, hh]
    · exact absurd rfl (hr h l rest)
  | case4 b rest hb ih =>
    rw [wellEscaped_plain hb, acceptsFrom_cons, ← ih]
    cases hp : isUriPathPlainChar b <;> simp [locationPathLanguage, hb, hp]

theorem accepts_path (input : Bytes) : locationPathLanguage.accepts input = true ↔
    ∃ rest, input = '/'.toUInt8 :: rest ∧ wellEscaped isUriPathPlainChar rest = true := by
  cases input with
  | nil => simp [accepts, acceptsFrom_nil, locationPathLanguage]
  | cons b input =>
    rw [accepts, acceptsFrom_cons]
    by_cases hb : b = '/'.toUInt8
    · subst hb
      have hs : locationPathLanguage.step locationPathLanguage.start '/'.toUInt8 =
          some ⟨1, 0, 0⟩ := rfl
      rw [hs, Option.any_some, acceptsFrom_path]
      simp
    · have hs : locationPathLanguage.step locationPathLanguage.start b = none := by
        simp [locationPathLanguage, hb]
      rw [hs]
      simp [hb]

theorem recovers_query (hp : ∀ b, plain b = true → b ∈ alphabet)
    (ha : ∀ b, isAsciiAlphanumeric b = true → plain b = true) (he : '%'.toUInt8 ∈ alphabet) :
    (queryLanguage label plain alphabet).Recovers ['%'.toUInt8] where
  reads {state b next} h := by
    simp only [queryLanguage] at h
    split at h
    · rename_i hb
      exact hb.2 ▸ he
    · split at h
      · rename_i hb
        exact hp b hb.2
      · split at h
        · rename_i hb
          exact hp b (ha b (hexdigit_alphanumeric hb.2))
        · split at h
          · rename_i hb
            exact hp b (ha b (hexdigit_alphanumeric hb.2))
          · cases h
  start_near := .inl rfl
  step_near {state b next input} h _ := by
    simp only [queryLanguage] at h
    split at h
    · rename_i hb
      refine .inr ⟨?_, List.mem_singleton.2 hb.2⟩
      simp [queryLanguage, hb.1]
    · split at h
      · cases h
        exact .inl (.inl rfl)
      · split at h
        · cases h
          exact .inl (.inr ⟨'0'.toUInt8, ⟨0, 0, 0⟩, rfl, rfl⟩)
        · split at h
          · cases h
            exact .inl (.inl rfl)
          · cases h

theorem recovers_queryKey : queryKeyLanguage.Recovers ['%'.toUInt8] :=
  recovers_query (fun _ => mem_uriQueryKeyAlphabet) (fun b hb => by
    simp only [isUriQueryKeyPlainChar, isUriQueryPlainChar, isUriPcharPlain, isUriUnreserved, hb,
      Bool.true_or, Bool.true_and, Bool.not_eq_true', List.contains_eq_mem, decide_eq_false_iff_not]
    intro hm
    rcases List.mem_pair.1 (show b ∈ ['&'.toUInt8, '='.toUInt8] from hm) with rfl | rfl <;>
      exact absurd hb (by decide)) (by decide)

theorem recovers_queryValue : queryValueLanguage.Recovers ['%'.toUInt8] :=
  recovers_query (fun _ => mem_uriQueryValueAlphabet) (fun b hb => by
    simp [isUriQueryValuePlainChar, isUriQueryPlainChar, isUriPcharPlain, isUriUnreserved, hb]
    rintro rfl
    exact absurd hb (by decide)) (by decide)

theorem recovers_locationPath : locationPathLanguage.Recovers ['%'.toUInt8] where
  reads {state b next} h := by
    have hx (b : UInt8) (hb : isAsciiHexdigit b = true) : b ∈ uriPathAlphabet :=
      mem_uriPathAlphabet (by
      simp [isUriPathPlainChar, isUriPcharPlain, isUriUnreserved, hexdigit_alphanumeric hb])
    simp only [locationPathLanguage] at h
    split at h
    · rename_i hb
      exact hb.2 ▸ (by decide : '/'.toUInt8 ∈ uriPathAlphabet)
    · split at h
      · rename_i hb
        exact hb.2 ▸ (by decide : '%'.toUInt8 ∈ uriPathAlphabet)
      · split at h
        · rename_i hb
          exact mem_uriPathAlphabet hb.2
        · split at h
          · rename_i hb
            exact hx b hb.2
          · split at h
            · rename_i hb
              exact hx b hb.2
            · cases h
  start_near := .inr ⟨'/'.toUInt8, ⟨1, 0, 0⟩, rfl, rfl⟩
  step_near {state b next input} h _ := by
    simp only [locationPathLanguage] at h
    split at h
    · cases h
      exact .inl (.inl rfl)
    · split at h
      · rename_i hb
        refine .inr ⟨?_, List.mem_singleton.2 hb.2⟩
        simp [locationPathLanguage, hb.1]
      · split at h
        · cases h
          exact .inl (.inl rfl)
        · split at h
          · cases h
            exact .inl (.inr ⟨'0'.toUInt8, ⟨1, 0, 0⟩, rfl, rfl⟩)
          · split at h
            · cases h
              exact .inl (.inl rfl)
            · cases h

/-- A host can be completed after any byte by one letter, if at all. -/
theorem host_near {label : String} {next : DomainState}
    (h : (hostLanguage label).step state b = some next) : (hostLanguage label).Near state := by
  have hx : isAsciiAlphanumeric 'a'.toUInt8 = true := rfl
  simp only [hostLanguage] at h
  split at h
  · cases h
  · rename_i total htotal
    obtain ⟨hle, h⟩ := Option.ite_none_left_eq_some.1 h
    have hstep (labelLen : UInt16) (hk : state.kind = 1 ∨ state.kind = 2)
        (hl : checkedSucc state.len = some labelLen) (h63 : labelLen ≤ 63) :
        (hostLanguage label).Near state := by
      have hk0 : ¬ state.kind = 0 := by
        intro h0
        rw [h0] at hk
        exact absurd hk (by decide)
      exact .inr ⟨'a'.toUInt8, ⟨1, labelLen, total⟩,
        by simp [hostLanguage, htotal, hle, hk, hk0, hx, hl, h63], rfl⟩
    split at h
    · rename_i hk
      exact .inr ⟨'a'.toUInt8, ⟨1, 1, total⟩,
        by simp [hostLanguage, htotal, hle, hk.1, hx], rfl⟩
    · split at h
      · rename_i hk
        split at h
        · cases h
        · rename_i labelLen hl
          exact hstep labelLen hk.1 hl (Option.ite_none_right_eq_some.1 h).1
      · split at h
        · rename_i hk
          split at h
          · cases h
          · rename_i labelLen hl
            exact hstep labelLen hk.1 hl (Option.ite_none_right_eq_some.1 h).1
        · exact .inl (decide_eq_true (Option.ite_none_right_eq_some.1 h).1.1)

theorem recovers_host (label : String) (late : Bytes) : (hostLanguage label).Recovers late where
  reads {state b next} h := by
    simp only [hostLanguage] at h
    split at h
    · cases h
    · obtain ⟨-, h⟩ := Option.ite_none_left_eq_some.1 h
      split at h
      · rename_i hb
        exact mem_hostChars (.inl hb.2)
      · split at h
        · rename_i hb
          exact mem_hostChars (.inl hb.2)
        · split at h
          · rename_i hb
            exact mem_hostChars (.inr (.inl hb.2))
          · exact mem_hostChars (.inr (.inr (Option.ite_none_right_eq_some.1 h).1.2))
  start_near := .inr ⟨'a'.toUInt8, ⟨1, 1, 1⟩, rfl, rfl⟩
  step_near {state b next input} _ ha := by
    left
    cases input with
    | nil => exact .inl ha
    | cons c input =>
      obtain ⟨_, hs, -⟩ := acceptsFrom_cons_iff.1 ha
      exact host_near hs

theorem Recovers.mem_alphabet {L : PatternInputLanguage} (h : L.Recovers late)
    (ha : L.acceptsFrom state input = true) : ∀ b ∈ input, b ∈ L.alphabet := by
  induction input generalizing state with
  | nil => exact fun b hb => by cases hb
  | cons c input ih =>
    obtain ⟨next, hs, ha⟩ := acceptsFrom_cons_iff.1 ha
    intro b hb
    rcases List.mem_cons.1 hb with rfl | hb
    · exact h.reads hs
    · exact ih ha b hb

end PatternInputLanguage
end Dhttp.Access
