import Dhttp.Access.Reachability

namespace Dhttp.Access
open Dhttp.Lib Relation
set_option autoImplicit true

namespace PatternInputLanguage

variable {L : PatternInputLanguage}

theorem acceptsFrom_nil (state : DomainState) : L.acceptsFrom state [] = L.isAccept state := rfl

theorem acceptsFrom_cons (state : DomainState) (byte : UInt8) (input : Bytes) :
    L.acceptsFrom state (byte :: input) =
      (L.step state byte).any fun next => L.acceptsFrom next input := by
  rw [acceptsFrom, run]
  cases L.step state byte <;> rfl

theorem acceptsFrom_cons_iff : L.acceptsFrom state (byte :: input) = true ↔
    ∃ next, L.step state byte = some next ∧ L.acceptsFrom next input = true := by
  rw [acceptsFrom_cons, Option.any_eq_true_iff_get]
  constructor
  · rintro ⟨h, ha⟩
    exact ⟨_, (Option.some_get h).symm, ha⟩
  · rintro ⟨next, hs, ha⟩
    rw [hs]
    exact ⟨rfl, ha⟩

end PatternInputLanguage

namespace Dfa

variable {d : Dfa}

/-- The unanchored search of the automaton from a state: a match is reported by entering a
match state, one byte late or at the end of the input. -/
def findsFrom (d : Dfa) (state : Fin d.size) : Bytes → Bool
  | [] => d.isMatch state || d.isMatch (d.nextEoi state)
  | byte :: input => d.isMatch state || d.findsFrom (d.next state byte) input

def finds (d : Dfa) (input : Bytes) : Bool :=
  match d.start with
  | none => false
  | some start => d.findsFrom start input

theorem reachesGoal_sound {L : PatternInputLanguage} {q : Fin d.size}
    (h : ReachesGoal (d.successors L) (d.isGoal L) (q, state, matched)) :
    ∃ input, L.acceptsFrom state input = true ∧ (matched || d.findsFrom q input) = true := by
  obtain ⟨g, hr, hg⟩ := h
  generalize hn : (q, state, matched) = node at hr
  induction hr using ReflTransGen.head_induction_on generalizing q state matched with
  | refl =>
    subst hn
    simp only [isGoal, seenMatch, Bool.and_eq_true] at hg
    refine ⟨[], hg.1, ?_⟩
    rw [findsFrom, ← Bool.or_assoc]
    exact hg.2
  | head hs hr ih =>
    subst hn
    rw [successors] at hs
    split at hs
    · cases hs
    · obtain ⟨byte, -, hb⟩ := List.mem_filterMap.1 hs
      obtain ⟨next, hstep, rfl⟩ := Option.map_eq_some_iff.1 hb
      obtain ⟨input, ha, hf⟩ := ih rfl
      refine ⟨byte :: input, PatternInputLanguage.acceptsFrom_cons_iff.2 ⟨next, hstep, ha⟩, ?_⟩
      cases input <;>
        simp only [seenMatch, findsFrom, Bool.or_eq_true] at hf ⊢ <;> tauto

/-- A positive answer of the search is witnessed by a string of the language. -/
theorem intersects_sound {L : PatternInputLanguage} (h : d.intersects L = true) :
    ∃ input, L.accepts input = true ∧ d.finds input = true := by
  rw [intersects] at h
  split at h
  · cases h
  · rename_i start hs
    obtain ⟨input, ha, hf⟩ := reachesGoal_sound ((search_iff _).1 h)
    refine ⟨input, ha, ?_⟩
    rw [finds, hs]
    rcases Bool.or_eq_true_iff.1 hf with hm | hf
    · cases input <;> simp [findsFrom, hm]
    · exact hf

/-- Conventions of dense automata. Dead states are absorbing and never match; looking ahead at
a byte of `late` shows no more than looking ahead at the end of the input. -/
structure Conventions (d : Dfa) (late : Bytes) : Prop where
  dead_next : ∀ {q} b, d.isDead q = true → d.isDead (d.next q b) = true
  dead_match : ∀ {q}, d.isDead q = true → d.isMatch q = false
  dead_eoi : ∀ {q}, d.isDead q = true → d.isMatch (d.nextEoi q) = false
  late_eoi : ∀ {q b}, b ∈ late → d.isMatch (d.next q b) = true → d.isMatch (d.nextEoi q) = true

theorem Conventions.findsFrom_dead (h : d.Conventions late) {q : Fin d.size}
    (hq : d.isDead q = true) (input : Bytes) : d.findsFrom q input = false := by
  induction input generalizing q with
  | nil => rw [findsFrom, h.dead_match hq, h.dead_eoi hq]; rfl
  | cons b input ih => rw [findsFrom, h.dead_match hq, ih (h.dead_next b hq)]; rfl

end Dfa

/-- The domain accepts here or after one more byte. -/
def PatternInputLanguage.Near (L : PatternInputLanguage) (state : DomainState) : Prop :=
  L.isAccept state = true ∨ ∃ b next, L.step state b = some next ∧ L.isAccept next = true

/-- A language whose states are near acceptance, except after a `late` byte read in an accepting
state, and which only steps on its alphabet. -/
structure PatternInputLanguage.Recovers (L : PatternInputLanguage) (late : Bytes) : Prop where
  reads : ∀ {state b next}, L.step state b = some next → b ∈ L.alphabet
  start_near : L.Near L.start
  step_near : ∀ {state b next input}, L.step state b = some next →
    L.acceptsFrom next input = true → L.Near next ∨ L.isAccept state = true ∧ b ∈ late

namespace Dfa

variable {d : Dfa} {L : PatternInputLanguage}

theorem mem_successors (hb : b ∈ L.alphabet) {q : Fin d.size} (hq : d.isDead q = false)
    (hs : L.step state b = some state') :
    (d.next q b, state', d.seenMatch (q, state, matched) || d.isMatch (d.next q b)) ∈
      d.successors L (q, state, matched) := by
  rw [successors, if_neg (Bool.eq_false_iff.1 hq)]
  refine List.mem_filterMap.2 ⟨b, hb, ?_⟩
  rw [hs]
  rfl

theorem reachesGoal_complete (h : d.Conventions late) (hL : L.Recovers late) {q : Fin d.size}
    (ha : L.acceptsFrom state input = true) (hf : d.findsFrom q input = true)
    (hn : d.isMatch q = true → L.Near state) :
    ReachesGoal (d.successors L) (d.isGoal L) (q, state, matched) := by
  induction input generalizing q state matched with
  | nil =>
    refine ⟨_, .refl, ?_⟩
    rw [PatternInputLanguage.acceptsFrom_nil] at ha
    rw [findsFrom] at hf
    simp only [isGoal, seenMatch, ha, Bool.true_and, Bool.or_assoc, hf, Bool.or_true]
  | cons b input ih =>
    have hd : d.isDead q = false := by
      rw [Bool.eq_false_iff]
      intro hd
      rw [h.findsFrom_dead hd] at hf
      cases hf
    cases hm : d.isMatch q with
    | true =>
      -- the match is already there: only the domain has to be completed
      rcases hn hm with hacc | ⟨c, next, hs, hacc⟩
      · exact ⟨_, .refl, by simp [isGoal, seenMatch, hacc, hm]⟩
      · refine ⟨_, .single (mem_successors (hL.reads hs) hd hs), ?_⟩
        simp [isGoal, seenMatch, hacc, hm]
    | false =>
      obtain ⟨next, hs, ha⟩ := PatternInputLanguage.acceptsFrom_cons_iff.1 ha
      rw [findsFrom, hm, Bool.false_or] at hf
      rcases hL.step_near hs ha with hnear | ⟨hacc, hlate⟩
      · obtain ⟨g, hr, hg⟩ := ih ha hf fun _ => hnear
        exact ⟨g, .head (mem_successors (hL.reads hs) hd hs) hr, hg⟩
      · cases hm' : d.isMatch (d.next q b) with
        | true =>
          refine ⟨_, .refl, ?_⟩
          simp [isGoal, hacc, h.late_eoi hlate hm']
        | false =>
          obtain ⟨g, hr, hg⟩ := ih ha hf fun hc => by simp [hm'] at hc
          exact ⟨g, .head (mem_successors (hL.reads hs) hd hs) hr, hg⟩

/-- The search answers whether the language holds a string in which the automaton finds a
match. -/
theorem intersects_iff (h : d.Conventions late) (hL : L.Recovers late) :
    d.intersects L = true ↔ ∃ input, L.accepts input = true ∧ d.finds input = true := by
  refine ⟨intersects_sound, fun ⟨input, ha, hf⟩ => ?_⟩
  cases hs : d.start with
  | none =>
    rw [finds, hs] at hf
    cases hf
  | some start =>
    rw [finds, hs] at hf
    rw [intersects, hs]
    exact (search_iff _).2 (reachesGoal_complete h hL ha hf fun _ => hL.start_near)

end Dfa
end Dhttp.Access
