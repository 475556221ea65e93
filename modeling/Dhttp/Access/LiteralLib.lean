import Dhttp.Access.RequestMatching

namespace Dhttp.Access
open Dhttp.Lib
set_option autoImplicit true

/-- The automaton of `^word$`, or of `^word` if it is not closed. Its states are the number of
bytes read, the match, and the dead state. -/
def literalDfa (word : Bytes) (closed : Bool) : Dfa where
  size := word.length + 3
  start := some ⟨0, by omega⟩
  next q b :=
    if h : q.val < word.length then
      if word[q.val] = b then ⟨q.val + 1, by omega⟩ else ⟨word.length + 2, by omega⟩
    else if q.val = word.length ∧ closed = false then ⟨word.length + 1, by omega⟩
    else ⟨word.length + 2, by omega⟩
  nextEoi q :=
    if q.val = word.length then ⟨word.length + 1, by omega⟩ else ⟨word.length + 2, by omega⟩
  isMatch q := q.val == word.length + 1
  isDead q := q.val == word.length + 2

theorem literalDfa_conventions (word : Bytes) (closed : Bool) (late : Bytes) :
    (literalDfa word closed).Conventions late where
  dead_next {q} b h := by
    have hq : q.val = word.length + 2 := eq_of_beq h
    simp [literalDfa, hq]
  dead_match {q} h := by
    have hq : q.val = word.length + 2 := eq_of_beq h
    simp [literalDfa, hq]
  dead_eoi {q} h := by
    have hq : q.val = word.length + 2 := eq_of_beq h
    simp [literalDfa, hq]
  late_eoi {q b} _ h := by
    by_cases hq : q.val = word.length
    · simp [literalDfa, hq]
    · exfalso
      simp only [literalDfa, hq, false_and, if_false] at h
      split at h
      · split at h <;> simp at h
        omega
      · simp at h

def literalMatch (word : Bytes) (closed : Bool) (s : Bytes) : Bool :=
  if closed then s == word else word.isPrefixOf s

theorem literalMatch_nil (word : Bytes) (closed : Bool) :
    literalMatch word closed [] = word.isEmpty := by
  cases word <;> cases closed <;> rfl

theorem literalMatch_cons (b c : UInt8) (word s : Bytes) (closed : Bool) :
    literalMatch (c :: word) closed (b :: s) = (c == b && literalMatch word closed s) := by
  cases closed
  · rfl
  · rw [literalMatch, if_pos rfl, List.cons_beq_cons, literalMatch, if_pos rfl, BEq.comm (a := b)]

theorem literalDfa_findsFrom (word : Bytes) (closed : Bool) (s : Bytes)
    (q : Fin (literalDfa word closed).size) (hq : q.val ≤ word.length) :
    (literalDfa word closed).findsFrom q s = literalMatch (word.drop q.val) closed s := by
  have hm : (literalDfa word closed).isMatch q = false := by
    simp only [literalDfa, beq_eq_false_iff_ne, ne_eq]
    omega
  induction s generalizing q with
  | nil =>
    rw [Dfa.findsFrom, hm, Bool.false_or, literalMatch_nil]
    by_cases h : q.val = word.length
    · simp [literalDfa, h]
    · have hd : word.drop q.val ≠ [] := by
        rw [ne_eq, List.drop_eq_nil_iff]
        omega
      have hn : (literalDfa word closed).isMatch ((literalDfa word closed).nextEoi q) = false := by
        simp [literalDfa, h]
      rw [hn, List.isEmpty_eq_false_iff.2 hd]
  | cons b s ih =>
    rw [Dfa.findsFrom, hm, Bool.false_or]
    have hdead (h : ((literalDfa word closed).next q b).val = word.length + 2) :
        (literalDfa word closed).findsFrom ((literalDfa word closed).next q b) s = false :=
      (literalDfa_conventions word closed []).findsFrom_dead (beq_iff_eq.2 h) s
    by_cases h : q.val < word.length
    · rw [List.drop_eq_getElem_cons h, literalMatch_cons]
      by_cases hb : word[q.val] = b
      · have hn : ((literalDfa word closed).next q b).val = q.val + 1 := by
          simp [literalDfa, h, hb]
        rw [ih _ (by omega) (by simp only [literalDfa, beq_eq_false_iff_ne, ne_eq] at hn ⊢; omega),
          hn, hb, beq_self_eq_true, Bool.true_and]
      · rw [hdead (by simp [literalDfa, h, hb]), beq_eq_false_iff_ne.2 hb]
        rfl
    · have he : q.val = word.length := by omega
      rw [List.drop_eq_nil_of_le (by omega)]
      cases closed with
      | true =>
        rw [hdead (by simp [literalDfa, he])]
        rfl
      | false =>
        have hn : (literalDfa word false).isMatch ((literalDfa word false).next q b) = true := by
          simp [literalDfa, he]
        cases s <;> simp [Dfa.findsFrom, hn, literalMatch]

theorem literalDfa_finds (word : Bytes) (closed : Bool) (s : Bytes) :
    (literalDfa word closed).finds s = literalMatch word closed s :=
  literalDfa_findsFrom word closed s _ (Nat.zero_le _)

def isWordChar (c : Char) : Bool := c.isAlphanum || c == '/'

/-- An expression `^word$` or `^word` over ASCII letters, digits and slashes. -/
structure Literal where
  word : Text
  closed : Bool
  deriving Repr, DecidableEq

def Literal.text (l : Literal) : Text :=
  Access.text "^" ++ l.word ++ if l.closed then Access.text "$" else []

def Literal.bytes (l : Literal) : Bytes := l.word.map Char.toUInt8

def literal (s : Text) : Option Literal :=
  let l : Literal :=
    if s.getLast? = some '$' then ⟨s.tail.dropLast, true⟩ else ⟨s.tail, false⟩
  if s = l.text ∧ l.word.all isWordChar = true then some l else none

theorem literal_eq_some (h : literal s = some l) : l.text = s := by
  rw [literal, Option.ite_none_right_eq_some, Option.some.injEq] at h
  rw [← h.2]
  exact h.1.1.symm

theorem literal_text (l : Literal) (hl : l.word.all isWordChar = true) :
    literal l.text = some l := by
  obtain ⟨word, closed⟩ := l
  have hlast : '$' ∉ word := fun hm => absurd (List.all_eq_true.1 hl _ hm) (by decide)
  cases closed with
  | true =>
    have ht : (Literal.text ⟨word, true⟩).tail.dropLast = word := by
      change (word ++ ['$']).dropLast = word
      exact List.dropLast_concat
    have hg : (Literal.text ⟨word, true⟩).getLast? = some '$' := by
      change ('^' :: (word ++ ['$'])).getLast? = some '$'
      rw [← List.cons_append, List.getLast?_concat]
    rw [literal, if_pos hg, ht]
    exact if_pos ⟨rfl, hl⟩
  | false =>
    have ht : (Literal.text ⟨word, false⟩).tail = word := by
      change word ++ [] = word
      exact List.append_nil word
    have hg : (Literal.text ⟨word, false⟩).getLast? ≠ some '$' := by
      change ('^' :: (word ++ [])).getLast? ≠ some '$'
      rw [List.append_nil]
      intro h
      rcases List.mem_cons.1 (List.mem_of_getLast? h) with h | h
      · cases h
      · exact hlast h
    rw [literal, if_neg hg, ht]
    exact if_pos ⟨rfl, hl⟩

/-- An instance of the libraries that knows literal expressions and no globs. -/
def literalLib : RegexLib where
  Regex := Literal
  RegexError := Unit
  GlobError := Unit
  BuildError := Unit
  new s := (literal s).elim (.error ()) .ok
  newCaseInsensitive _ := .error ()
  escape s := s
  asStr l := l.text
  isMatch l s := literalMatch l.bytes l.closed s
  glob _ _ := .error ()
  dense s := (literal s).elim (.error ()) fun l => .ok (literalDfa l.bytes l.closed)

theorem literalLib_new : literalLib.new s = .ok l ↔ literal s = some l := by
  constructor <;> intro h
  · change (literal s).elim _ _ = _ at h
    cases hw : literal s with
    | none =>
      rw [hw] at h
      cases h
    | some l =>
      rw [hw] at h
      cases h
      rfl
  · change (literal s).elim _ _ = _
    rw [h]
    rfl

theorem literalLib_dense (h : literalLib.dense s = .ok d) :
    ∃ l, literal s = some l ∧ d = literalDfa l.bytes l.closed := by
  change (literal s).elim _ _ = _ at h
  cases hw : literal s with
  | none =>
    rw [hw] at h
    cases h
  | some l =>
    rw [hw] at h
    cases h
    exact ⟨l, rfl, rfl⟩

theorem literalLib_faithful : literalLib.Faithful where
  asStr_new h := literal_eq_some (literalLib_new.1 h)
  asStr_newCaseInsensitive h := by cases h
  dense_new {s r d} h hd w _ := by
    obtain ⟨l, hl, rfl⟩ := literalLib_dense hd
    cases hl.symm.trans (literalLib_new.1 h)
    exact (literalDfa_finds _ _ w).symm
  dense_newCaseInsensitive h := by cases h
  conventions hd := by
    obtain ⟨l, -, rfl⟩ := literalLib_dense hd
    exact literalDfa_conventions _ _ _

theorem literalLib_dense_text (l : Literal) (hl : l.word.all isWordChar = true) :
    literalLib.dense (literalLib.asStr l) = .ok (literalDfa l.bytes l.closed) := by
  change (literal l.text).elim _ _ = _
  rw [literal_text l hl]
  rfl

theorem literalDfa_intersects (word : Bytes) {L : PatternInputLanguage} (hL : L.Searchable)
    (closed : Bool) : (literalDfa word closed).intersects L = true ↔
      ∃ w, L.accepts w = true ∧ literalMatch word closed w = true := by
  rw [Dfa.intersects_iff (literalDfa_conventions _ _ _) hL.recovers]
  simp only [literalDfa_finds]

theorem literal_validate {L : PatternInputLanguage} (hL : L.Searchable)
    (p : Pattern literalLib Kind) (hp : (Literal.word p.regex).all isWordChar = true)
    (ha : L.accepts (Literal.bytes p.regex) = true) : validateReachable L p = .ok () := by
  rw [validateReachable, literalLib_dense_text p.regex hp]
  refine if_pos ((literalDfa_intersects _ hL _).2 ⟨_, ha, ?_⟩)
  rw [literalMatch]
  split
  · exact beq_self_eq_true _
  · exact List.isPrefixOf_iff_prefix.2 (List.prefix_refl _)

/-- The pattern `= word`. -/
def literalPattern (word : Text) : NormalPattern literalLib :=
  ⟨.exact, ⟨word, true⟩, text "= " ++ word⟩

theorem exactRegex_literal (word : Text) (hw : word.all isWordChar = true) :
    exactRegex literalLib word = .ok ⟨word, true⟩ :=
  literalLib_new.2 (literal_text ⟨word, true⟩ hw)

theorem literalPattern_fromStr (word : Text) (hw : word.all isWordChar = true) :
    NormalPattern.fromStr literalLib (text "= " ++ word) = .ok (literalPattern word) := by
  change ((exactRegex literalLib word).mapError _).map _ = _
  rw [exactRegex_literal word hw]
  rfl

end Dhttp.Access
