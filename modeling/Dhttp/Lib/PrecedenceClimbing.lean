import Dhttp.Lib.OperatorTree

namespace Dhttp.Lib
set_option autoImplicit true

/-- A grammar of left-associative binary operators of one precedence over a tighter negation
sign, with bracketed groups. A parser returns a value and the input that follows it. -/
structure Grammar (τ β V : Type) where
  negSign : τ → Bool
  binSign : τ → Option β
  opening : τ → Bool
  closing : τ → Bool
  negate : V → V
  join : β → V → V → V
  atom : List τ → Option (V × List τ)
  consumes : ∀ {ts x rest}, atom ts = some (x, rest) → rest.length < ts.length

namespace Grammar

variable (G : Grammar τ β V)

mutual

/-- An operand followed by the operators of level `minPrec` and above. -/
def climb : Nat → Nat → List τ → Option (V × List τ)
  | 0, _, _ => none
  | fuel + 1, minPrec, ts =>
    match operand fuel ts with
    | some (x, rest) => chain fuel minPrec x rest
    | none => none

/-- The alternatives in order: a negation, an atom, a bracketed expression. -/
def operand : Nat → List τ → Option (V × List τ)
  | 0, _ => none
  | fuel + 1, ts =>
    (match ts with
      | t :: ts' => if G.negSign t then (climb fuel 1 ts').map fun p => (G.negate p.1, p.2) else none
      | [] => none) <|>
    G.atom ts <|>
    (match ts with
      | t :: ts' =>
        if G.opening t then
          match climb fuel 0 ts' with
          | some (x, u :: rest) => if G.closing u then some (x, rest) else none
          | _ => none
        else none
      | [] => none)

/-- The loop over binary operators; an operator without an operand is left unread. -/
def chain : Nat → Nat → V → List τ → Option (V × List τ)
  | 0, _, _, _ => none
  | fuel + 1, minPrec, x, ts =>
    match ts with
    | t :: ts' =>
      match (if minPrec = 0 then G.binSign t else none) with
      | some b =>
        match climb fuel 1 ts' with
        | some (y, rest) => chain fuel minPrec (G.join b x y) rest
        | none => some (x, ts)
      | none => some (x, ts)
    | [] => some (x, ts)

end

variable {G}

/-- What the three alternatives of an operand leave. -/
theorem operand_cases (h : G.operand (fuel + 1) ts = some (x, rest)) :
    (∃ t ts' y, ts = t :: ts' ∧ x = G.negate y ∧ G.climb fuel 1 ts' = some (y, rest)) ∨
      G.atom ts = some (x, rest) ∨
      ∃ t u ts', ts = t :: ts' ∧ G.climb fuel 0 ts' = some (x, u :: rest) := by
  cases ts with
  | nil =>
    rw [operand] at h
    exact .inr (.inl (by simpa using h))
  | cons t ts =>
    rw [operand] at h
    simp only [Option.orElse_eq_orElse, Option.orElse_eq_or, Option.or_eq_some_iff,
      Option.ite_none_right_eq_some, Option.map_eq_some_iff] at h
    rcases h with ⟨-, p, hp, he⟩ | ⟨-, ha | ⟨-, -, hb⟩⟩
    · cases he
      exact .inl ⟨t, ts, _, rfl, rfl, hp⟩
    · exact .inr (.inl ha)
    · split at hb
      · rename_i hc
        obtain ⟨-, he⟩ := Option.ite_none_right_eq_some.1 hb
        cases he
        exact .inr (.inr ⟨t, _, ts, rfl, hc⟩)
      · cases hb

/-- Each of the three parsers only ever shortens its input. -/
theorem length_of_parsed (fuel : Nat) :
    (∀ {m ts x rest}, G.climb fuel m ts = some (x, rest) → rest.length < ts.length) ∧
      (∀ {ts x rest}, G.operand fuel ts = some (x, rest) → rest.length < ts.length) ∧
      (∀ {m x ts y rest}, G.chain fuel m x ts = some (y, rest) → rest.length ≤ ts.length) := by
  induction fuel with
  | zero =>
    refine ⟨fun h => ?_, fun h => ?_, fun h => ?_⟩
    · rw [climb] at h; cases h
    · rw [operand] at h; cases h
    · rw [chain] at h; cases h
  | succ fuel ih =>
    obtain ⟨ihc, iho, ihl⟩ := ih
    refine ⟨fun {m ts x rest} h => ?_, fun {ts x rest} h => ?_, fun {m x ts y rest} h => ?_⟩
    · rw [climb] at h
      split at h
      · rename_i ho
        exact Nat.lt_of_le_of_lt (ihl h) (iho ho)
      · cases h
    · rcases operand_cases h with ⟨t, ts', y, rfl, -, hp⟩ | ha | ⟨t, u, ts', rfl, hp⟩
      · exact Nat.lt_succ_of_lt (ihc hp)
      · exact G.consumes ha
      · have hl := ihc hp
        simp only [List.length_cons] at hl ⊢
        omega
    · cases ts with
      | nil => rw [chain] at h; cases h; exact Nat.le_refl _
      | cons t ts =>
        rw [chain] at h
        split at h
        · split at h
          · rename_i hc
            exact Nat.le_trans (ihl h) (Nat.le_succ_of_le (Nat.le_of_lt (ihc hc)))
          · cases h; exact Nat.le_refl _
        · cases h; exact Nat.le_refl _

theorem climb_length (h : G.climb fuel m ts = some (x, rest)) : rest.length < ts.length :=
  (length_of_parsed fuel).1 h

theorem operand_length (h : G.operand fuel ts = some (x, rest)) : rest.length < ts.length :=
  (length_of_parsed fuel).2.1 h

/-- Fuel beyond twice the length of the input changes nothing. -/
theorem fuel_stable (fuel : Nat) :
    (∀ m ts, 2 * ts.length + 2 ≤ fuel → G.climb fuel m ts = G.climb (fuel + 1) m ts) ∧
      (∀ ts, 2 * ts.length + 1 ≤ fuel → G.operand fuel ts = G.operand (fuel + 1) ts) ∧
      (∀ m x ts, 2 * ts.length + 1 ≤ fuel →
        G.chain fuel m x ts = G.chain (fuel + 1) m x ts) := by
  induction fuel with
  | zero => refine ⟨fun m ts h => ?_, fun ts h => ?_, fun m x ts h => ?_⟩ <;> omega
  | succ fuel ih =>
    obtain ⟨ihc, iho, ihl⟩ := ih
    refine ⟨fun m ts h => ?_, fun ts h => ?_, fun m x ts h => ?_⟩
    · rw [climb, climb, ← iho ts (by omega)]
      split
      · rename_i ho
        have hl := operand_length ho
        exact ihl _ _ _ (by omega)
      · rfl
    · cases ts with
      | nil => rfl
      | cons t ts =>
        simp only [List.length_cons] at h
        rw [operand, operand, ← ihc 1 ts (by omega), ← ihc 0 ts (by omega)]
    · cases ts with
      | nil => rfl
      | cons t ts =>
        simp only [List.length_cons] at h
        rw [chain, chain, ← ihc 1 ts (by omega)]
        split
        · split
          · rename_i hc
            have hl := climb_length hc
            exact ihl _ _ _ (by omega)
          · rfl
        · rfl

theorem climb_stable (h : 2 * ts.length + 2 ≤ fuel) :
    G.climb fuel m ts = G.climb (2 * ts.length + 2) m ts := by
  induction h with
  | refl => rfl
  | step h ih => rw [← (fuel_stable _).1 m ts h, ih]

theorem chain_stable (h : 2 * ts.length + 1 ≤ fuel) :
    G.chain fuel m x ts = G.chain (2 * ts.length + 1) m x ts := by
  induction h with
  | refl => rfl
  | step h ih => rw [← (fuel_stable _).2.2 m x ts h, ih]

variable (G)

/-- The expression parser with the fuel its input needs. -/
def expression (m : Nat) (ts : List τ) : Option (V × List τ) :=
  G.climb (2 * ts.length + 2) m ts

def term (ts : List τ) : Option (V × List τ) :=
  G.operand (2 * ts.length + 1) ts

def operators (m : Nat) (x : V) (ts : List τ) : Option (V × List τ) :=
  G.chain (2 * ts.length + 1) m x ts

variable {G}

theorem expression_eq (m : Nat) (ts : List τ) :
    G.expression m ts = (G.term ts).bind fun p => G.operators m p.1 p.2 := by
  rw [expression, climb, term]
  cases ho : G.operand (2 * ts.length + 1) ts with
  | none => rfl
  | some p =>
    have hl := operand_length ho
    exact chain_stable (by omega)

theorem term_eq (t : τ) (ts : List τ) :
    G.term (t :: ts) =
      ((if G.negSign t then (G.expression 1 ts).map fun p => (G.negate p.1, p.2) else none) <|>
        G.atom (t :: ts) <|>
        (if G.opening t then
          match G.expression 0 ts with
          | some (x, u :: rest) => if G.closing u then some (x, rest) else none
          | _ => none
        else none)) := by
  have hf : 2 * ts.length + 2 ≤ 2 * (ts.length + 1) := by omega
  rw [term, operand]
  simp only [List.length_cons, climb_stable hf]
  rfl

theorem operators_stop (h : m ≠ 0 ∨ G.binSign t = none) :
    G.operators m x (t :: ts) = some (x, t :: ts) := by
  rw [operators, chain]
  rcases h with h | h
  · rw [if_neg h]
  · rw [h, ite_self]

theorem operators_cons (h : G.binSign t = some b) (hy : G.expression 1 ts = some (y, rest)) :
    G.operators 0 x (t :: ts) = G.operators 0 (G.join b x y) rest := by
  rw [operators, chain, if_pos rfl, h]
  rw [expression] at hy
  have hl := climb_length hy
  have hf : 2 * ts.length + 2 ≤ 2 * (ts.length + 1) := by omega
  simp only [List.length_cons, climb_stable hf, hy]
  exact chain_stable (by omega)

/-- What the atoms satisfy and the operators keep holds of every parsed expression. -/
theorem climb_invariant {P : V → Prop} (hn : ∀ x, P x → P (G.negate x))
    (hj : ∀ b x y, P x → P y → P (G.join b x y))
    (ha : ∀ {ts x rest}, G.atom ts = some (x, rest) → P x) (fuel : Nat) :
    (∀ {m ts x rest}, G.climb fuel m ts = some (x, rest) → P x) ∧
      (∀ {ts x rest}, G.operand fuel ts = some (x, rest) → P x) ∧
      (∀ {m x ts y rest}, P x → G.chain fuel m x ts = some (y, rest) → P y) := by
  induction fuel with
  | zero =>
    refine ⟨fun h => ?_, fun h => ?_, fun _ h => ?_⟩
    · rw [climb] at h; cases h
    · rw [operand] at h; cases h
    · rw [chain] at h; cases h
  | succ fuel ih =>
    obtain ⟨ihc, iho, ihl⟩ := ih
    refine ⟨fun {m ts x rest} h => ?_, fun {ts x rest} h => ?_, fun {m x ts y rest} hx h => ?_⟩
    · rw [climb] at h
      split at h
      · rename_i ho
        exact ihl (iho ho) h
      · cases h
    · rcases operand_cases h with ⟨t, ts', y, rfl, rfl, hp⟩ | h | ⟨t, u, ts', rfl, hp⟩
      · exact hn _ (ihc hp)
      · exact ha h
      · exact ihc hp
    · cases ts with
      | nil => rw [chain] at h; cases h; exact hx
      | cons t ts =>
        rw [chain] at h
        split at h
        · split at h
          · rename_i hc
            exact ihl (hj _ _ _ hx (ihc hc)) h
          · cases h; exact hx
        · cases h; exact hx

end Grammar

/-- The signs a tree is printed with. -/
structure Signs (τ β α : Type) where
  neg : τ
  bin : β → τ
  opening : τ
  closing : τ
  atom : α → List τ

namespace Signs

variable (S : Signs τ β α)

mutual

/-- A tree with brackets only where the grammar needs them. -/
def print : OpTree β α → List τ
  | .leaf a => S.atom a
  | .neg t => S.neg :: printTight t
  | .node b l r => print l ++ S.bin b :: printTight r

/-- A tree in the place of an operand of a negation or a right operand. -/
def printTight : OpTree β α → List τ
  | .leaf a => S.atom a
  | .neg t => S.neg :: printTight t
  | .node b l r => S.opening :: (print l ++ S.bin b :: printTight r ++ [S.closing])

end

theorem printTight_node (b : β) (l r : OpTree β α) :
    S.printTight (.node b l r) = S.opening :: (S.print (.node b l r) ++ [S.closing]) := by
  rw [printTight, print]

/-- Every sign of a printed tree is an operator, a bracket or a sign of an atom. -/
theorem forall_mem_print {P : τ → Prop} (hn : P S.neg) (hb : ∀ b, P (S.bin b))
    (ho : P S.opening) (hc : P S.closing) (t : OpTree β α)
    (ha : t.All fun a => ∀ x ∈ S.atom a, P x) :
    (∀ x ∈ S.print t, P x) ∧ ∀ x ∈ S.printTight t, P x := by
  induction t with
  | leaf a => exact ⟨ha, ha⟩
  | neg t ih =>
    have h : ∀ x ∈ S.print t.neg, P x := by
      intro x hx
      rcases List.mem_cons.1 hx with rfl | hx
      · exact hn
      · exact (ih ha).2 x hx
    exact ⟨h, h⟩
  | node b l r ihl ihr =>
    have h : ∀ x ∈ S.print (.node b l r), P x := by
      intro x hx
      rw [print] at hx
      rcases List.mem_append.1 hx with hx | hx
      · exact (ihl ha.1).1 x hx
      · rcases List.mem_cons.1 hx with rfl | hx
        · exact hb b
        · exact (ihr ha.2).2 x hx
    refine ⟨h, fun x hx => ?_⟩
    rw [printTight_node] at hx
    rcases List.mem_cons.1 hx with rfl | hx
    · exact ho
    · rcases List.mem_append.1 hx with hx | hx
      · exact h x hx
      · rw [List.mem_singleton.1 hx]
        exact hc

end Signs

/-- The value of a tree under the actions of a grammar. -/
def Grammar.value (G : Grammar τ β V) (leaf : α → V) : OpTree β α → V
  | .leaf a => leaf a
  | .neg t => G.negate (G.value leaf t)
  | .node b l r => G.join b (G.value leaf l) (G.value leaf r)

/-- A grammar reads the signs apart, and an atom ends where its text ends: `follow` holds of the
inputs that may come after it. -/
structure Signs.ReadBy (S : Signs τ β α) (G : Grammar τ β V) (leaf : α → V)
    (follow : List τ → Prop) : Prop where
  neg : G.negSign S.neg = true
  bin : ∀ b, G.binSign (S.bin b) = some b
  opening : G.opening S.opening = true
  closing : G.closing S.closing = true
  opening_neg : G.negSign S.opening = false
  opening_atom : ∀ ts, G.atom (S.opening :: ts) = none
  closing_bin : G.binSign S.closing = none
  atom : ∀ a ts, follow ts → G.atom (S.atom a ++ ts) = some (leaf a, ts)
  atom_cons : ∀ a, ∃ t ts, S.atom a = t :: ts ∧ G.negSign t = false
  follow_bin : ∀ b ts, follow (S.bin b :: ts)
  follow_closing : ∀ ts, follow (S.closing :: ts)

namespace Signs.ReadBy

variable {S : Signs τ β α} {G : Grammar τ β V} {leaf : α → V} {follow : List τ → Prop}

theorem term_atom (h : S.ReadBy G leaf follow) (a : α) (hf : follow rest) :
    G.term (S.atom a ++ rest) = some (leaf a, rest) := by
  obtain ⟨t, ts, he, hn⟩ := h.atom_cons a
  have ha := h.atom a rest hf
  rw [he, List.cons_append] at ha ⊢
  rw [Grammar.term_eq, hn, ha]
  rfl

theorem expression_tight (ht : G.term ts = some (x, rest)) :
    G.expression 1 ts = some (x, rest) := by
  rw [Grammar.expression_eq, ht, Option.bind_some]
  cases rest with
  | nil => rfl
  | cons t rest => exact Grammar.operators_stop (.inl Nat.one_ne_zero)

theorem term_neg (h : S.ReadBy G leaf follow) (ht : G.term ts = some (x, rest)) :
    G.term (S.neg :: ts) = some (G.negate x, rest) := by
  rw [Grammar.term_eq, h.neg, expression_tight ht]
  rfl

theorem term_bracketed (h : S.ReadBy G leaf follow)
    (ht : G.expression 0 ts = some (x, S.closing :: rest)) :
    G.term (S.opening :: ts) = some (x, rest) := by
  rw [Grammar.term_eq, h.opening_neg, h.opening_atom, h.opening, ht]
  simp only [h.closing, if_true]
  rfl

/-- A printed operand is read back as one operand, and a printed tree is read back as the left
operand of whatever operators follow it. -/
theorem read_print (h : S.ReadBy G leaf follow) (t : OpTree β α) {rest : List τ}
    (hf : follow rest) :
    G.term (S.printTight t ++ rest) = some (G.value leaf t, rest) ∧
      G.expression 0 (S.print t ++ rest) = G.operators 0 (G.value leaf t) rest := by
  induction t generalizing rest with
  | leaf a =>
    refine ⟨h.term_atom a hf, ?_⟩
    rw [print, Grammar.expression_eq, h.term_atom a hf]
    rfl
  | neg t ih =>
    have ht := h.term_neg (ih hf).1
    refine ⟨ht, ?_⟩
    rw [print, List.cons_append, Grammar.expression_eq, ht]
    rfl
  | node b l r ihl ihr =>
    have hp {rest : List τ} (hf : follow rest) :
        G.expression 0 (S.print (.node b l r) ++ rest) =
          G.operators 0 (G.value leaf (.node b l r)) rest := by
      rw [print, List.append_assoc, List.cons_append, (ihl (h.follow_bin b _)).2]
      exact Grammar.operators_cons (h.bin b) (expression_tight (ihr hf).1)
    refine ⟨?_, hp hf⟩
    rw [printTight_node, List.cons_append, List.append_assoc, List.singleton_append]
    apply h.term_bracketed
    rw [hp (h.follow_closing rest)]
    exact Grammar.operators_stop (.inr h.closing_bin)

/-- The parser inverts the minimal-bracket printer. -/
theorem expression_print (h : S.ReadBy G leaf follow) (t : OpTree β α) (hf : follow rest)
    (hb : ∀ t ts, rest = t :: ts → G.binSign t = none) :
    G.expression 0 (S.print t ++ rest) = some (G.value leaf t, rest) := by
  rw [(h.read_print t hf).2]
  cases rest with
  | nil => rfl
  | cons t rest => exact Grammar.operators_stop (.inr (hb t rest rfl))

end Signs.ReadBy
end Dhttp.Lib
