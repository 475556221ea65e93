import Dhttp.Access.RuleSyntax

namespace Dhttp.Access
open Dhttp.Lib
set_option autoImplicit true

variable {R : RegexLib}

/-- A text that a constructor accepts, with what it makes of it. -/
structure Written {ε σ α : Type} (read : σ → Except ε α) where
  source : σ
  value : α
  accepted : read source = .ok value

/-- A header, query or method group of an infix rule. -/
inductive Group (R : RegexLib) where
  | header (t : OpTree Junction (Written (headerOf R)))
  | query (t : OpTree Junction (Written (queryOf R)))
  | method (t : OpTree Junction (Written (methodOf R)))

inductive Profile (R : RegexLib) where
  | any
  | clientName (name : Written (clientNameOf R))

inductive Clause (R : RegexLib) where
  | none
  | withPatterns (t : OpTree Junction (Group R))
  | withoutPatterns (t : OpTree Junction (Group R))

structure InfixRule (R : RegexLib) where
  profile : Profile R
  clause : Clause R

/-- The group as an expression over atoms. -/
def Group.tree : Group R → OpTree Junction (AtomicLocationRuleExpr R)
  | .header t => t.map fun w => .header w.value
  | .query t => t.map fun w => .query w.value
  | .method t => t.map fun w => .method w.value

def Profile.atom : Profile R → AtomicLocationRuleExpr R
  | .any => .any
  | .clientName name => .clientName name.value

def InfixRule.tree (rule : InfixRule R) : OpTree Junction (AtomicLocationRuleExpr R) :=
  match rule.clause with
  | .none => .leaf rule.profile.atom
  | .withPatterns t => .node .and (.leaf rule.profile.atom) (t.bind Group.tree)
  | .withoutPatterns t => .node .and (.leaf rule.profile.atom) (.neg (t.bind Group.tree))

def word (s : String) : Token := .unquoted (text s)

def Junction.token : Junction → Token
  | .and => word "and"
  | .or => word "or"

/-- Expressions are printed with these signs around the tokens of the atoms. -/
def ruleSigns (atom : α → List Token) : Signs Token Junction α where
  neg := word "not"
  bin := Junction.token
  opening := .symbol '('
  closing := .symbol ')'
  atom := atom

/-- An operand of a scope keyword: an atom, or an expression in brackets. -/
def printScoped (atom : α → List Token) : OpTree Junction α → List Token
  | .leaf a => atom a
  | t => .symbol '(' :: ((ruleSigns atom).print t ++ [.symbol ')'])

def printPattern (w : Written (methodOf R)) : List Token := [.quoted w.source]

def printKv : Text × Option Text → List Token
  | (k, none) => [.quoted k]
  | (k, some v) => [.quoted k, .symbol ':', .quoted v]

/-- A negated pattern needs no brackets here. -/
def printMethod : OpTree Junction (Written (methodOf R)) → List Token
  | .neg (.leaf w) => word "not" :: printPattern w
  | t => printScoped printPattern t

def Group.print : Group R → List Token
  | .header t => word "header" :: printScoped (fun w => printKv w.source) t
  | .query t => word "query" :: printScoped (fun w => printKv w.source) t
  | .method t => word "method" :: printMethod t

def Profile.print : Profile R → List Token
  | .any => [word "*?"]
  | .clientName name => [.quoted name.source]

def InfixRule.print (rule : InfixRule R) : List Token :=
  rule.profile.print ++
    match rule.clause with
    | .none => []
    | .withPatterns t => word "with" :: (ruleSigns Group.print).print t
    | .withoutPatterns t => word "without" :: (ruleSigns Group.print).print t

/-- What may follow a key: its optional value is not taken from here. -/
def NoValue (ts : List Token) : Prop := ∀ t ∈ ts.head?, t.eqStr ":" = false

theorem noValue_token (j : Junction) (ts : List Token) : NoValue (j.token :: ts) := by
  rintro t ⟨⟩
  cases j <;> rfl

theorem noValue_closing (ts : List Token) : NoValue (.symbol ')' :: ts) := by
  rintro t ⟨⟩
  rfl

theorem pattern_read (lit : Text) (ts : List Token) :
    pattern.read (.quoted lit :: ts) = some (lit, ts) := rfl

theorem kvPattern_read_value (k v : Text) (ts : List Token) :
    kvPattern.read (.quoted k :: .symbol ':' :: .quoted v :: ts) = some ((k, some v), ts) := rfl

theorem kvPattern_read (lits : Text × Option Text) (h : NoValue ts) :
    kvPattern.read (printKv lits ++ ts) = some (lits, ts) := by
  rcases lits with ⟨k, _ | v⟩
  · cases ts with
    | nil => rfl
    | cons t ts =>
      change kvPatternText (.quoted k :: t :: ts) = _
      rw [kvPatternText, patternText]
      simp only [h t rfl, Bool.false_eq_true, if_false]
  · exact kvPattern_read_value k v ts

section Composite

variable {r : TokenRule (ExprsResult R α)} {atom : γ → List Token} {leaf : γ → ExprsResult R α}

theorem readBy_composite (ho : ∀ ts, r.read (.symbol '(' :: ts) = none)
    (hr : ∀ a ts, NoValue ts → r.read (atom a ++ ts) = some (leaf a, ts))
    (hc : ∀ a, ∃ t ts, atom a = t :: ts ∧ t.ikeyword "not" = false) :
    (ruleSigns atom).ReadBy r.composite leaf NoValue where
  neg := rfl
  bin j := by cases j <;> rfl
  opening := rfl
  closing := rfl
  opening_neg := rfl
  opening_atom := ho
  closing_bin := rfl
  atom := hr
  atom_cons := hc
  follow_bin j ts := noValue_token j ts
  follow_closing ts := noValue_closing ts

theorem value_composite (f : γ → OpTree Junction α) (h : ∀ a, leaf a = .ok ⟨listing (f a)⟩)
    (t : OpTree Junction γ) : r.composite.value leaf t = .ok ⟨listing (t.bind f)⟩ := by
  induction t with
  | leaf a => exact h a
  | neg t ih =>
    rw [Grammar.value, ih]
    rfl
  | node j l r ihl ihr =>
    rw [Grammar.value, ihl, ihr]
    rfl

theorem bracketed_read (h : r.read ts = some (x, .symbol ')' :: rest)) :
    r.bracketed.read (.symbol '(' :: ts) = some (x, rest) := by
  simp only [TokenRule.bracketed, afterKeyword, h]
  rfl

theorem orElse_read {r r' : TokenRule V} (h : r.read ts = some p) :
    (r.orElse r').read ts = some p := by
  change (r.read ts <|> r'.read ts) = _
  rw [h]
  rfl

theorem orElse_read_none {r r' : TokenRule V} (h : r.read ts = none) :
    (r.orElse r').read ts = r'.read ts := by
  change (r.read ts <|> r'.read ts) = _
  rw [h]
  rfl

theorem map_read (f : V → W) (r : TokenRule V) (ts : List Token) :
    (r.map f).read ts = (r.read ts).map fun p => (f p.1, p.2) := rfl

theorem after_read {r : TokenRule V} {p : Token → Bool} (h : p t = true) (ts : List Token) :
    (r.after p).read (t :: ts) = r.read ts := if_pos h

theorem after_read_none {r : TokenRule V} {p : Token → Bool} (h : p t = false)
    (ts : List Token) : (r.after p).read (t :: ts) = none := if_neg (Bool.eq_false_iff.1 h)

/-- Scope keywords read back what `printScoped` writes. -/
theorem scoped_read (hs : (ruleSigns atom).ReadBy r.composite leaf NoValue)
    (hq : ∀ a, ∃ lit ts, atom a = .quoted lit :: ts) (t : OpTree Junction γ) (hf : NoValue rest) :
    r.bracketedCompositeOrAtomic.read (printScoped atom t ++ rest) =
      some (r.composite.value leaf t, rest) := by
  have hb {t : OpTree Junction γ} : r.bracketedCompositeOrAtomic.read
      (.symbol '(' :: ((ruleSigns atom).print t ++ [.symbol ')']) ++ rest) =
        some (r.composite.value leaf t, rest) := by
    rw [List.cons_append, List.append_assoc, List.singleton_append]
    refine orElse_read (bracketed_read ?_)
    exact hs.expression_print t (noValue_closing rest) fun u us he => by
      rw [← (List.cons.inj he).1]
      rfl
  cases t with
  | leaf a =>
    obtain ⟨lit, ts, he⟩ := hq a
    have ha := hs.atom a rest hf
    refine (orElse_read_none ?_).trans ha
    rw [printScoped, he]
    rfl
  | neg t => exact hb
  | node j l r => exact hb

end Composite

theorem atomRule_read {p : TokenRule σ} {read : σ → Except (InvalidPatternExpr R) α}
    (f : α → AtomicLocationRuleExpr R) (w : Written read)
    (h : p.read ts = some (w.source, rest)) :
    (atomRule R f (p.map read)).read ts = some (.ok (Exprs.single (f w.value)), rest) := by
  simp only [atomRule, TokenRule.map, h, Option.map_some, w.accepted]
  rfl

theorem readBy_kv {read : Text × Option Text → Except (InvalidPatternExpr R) α}
    (f : α → AtomicLocationRuleExpr R) :
    (ruleSigns fun w : Written read => printKv w.source).ReadBy
      (atomRule R f (kvPattern.map read)).composite (fun w => .ok (Exprs.single (f w.value)))
      NoValue := by
  refine readBy_composite (fun ts => rfl) (fun w ts h => ?_) fun w => ?_
  · exact atomRule_read f w (kvPattern_read w.source h)
  · rcases w.source with ⟨k, _ | v⟩ <;> exact ⟨_, _, rfl, rfl⟩

theorem readBy_method :
    (ruleSigns printPattern).ReadBy
      (atomRule R .method (methodPattern R)).possiableNegativeExpr.composite
      (fun w => .ok (Exprs.single (.method w.value))) NoValue := by
  refine readBy_composite (fun ts => rfl) (fun w ts _ => ?_) fun w => ⟨_, _, rfl, rfl⟩
  refine (orElse_read_none rfl).trans ?_
  exact atomRule_read .method w (pattern_read w.source ts)

theorem value_atoms {r : TokenRule (ExprsResult R (AtomicLocationRuleExpr R))}
    {read : σ → Except (InvalidPatternExpr R) α} (f : α → AtomicLocationRuleExpr R)
    (t : OpTree Junction (Written read)) :
    r.composite.value (fun w => .ok (Exprs.single (f w.value))) t =
      .ok ⟨listing (t.map fun w => f w.value)⟩ := by
  rw [← OpTree.bind_leaf]
  exact value_composite (fun w : Written read => .leaf (f w.value)) (fun w => rfl) t

theorem scoped_kv {α : Type} {read : Text × Option Text → Except (InvalidPatternExpr R) α}
    (f : α → AtomicLocationRuleExpr R) (t : OpTree Junction (Written read)) (hf : NoValue rest) :
    (atomRule R f (kvPattern.map read)).bracketedCompositeOrAtomic.read
        (printScoped (fun w => printKv w.source) t ++ rest) =
      some (.ok ⟨listing (t.map fun w => f w.value)⟩, rest) := by
  rw [scoped_read (readBy_kv f) (fun w => ?_) t hf, value_atoms]
  rcases w.source with ⟨k, _ | v⟩ <;> exact ⟨_, _, rfl⟩

theorem scoped_method (t : OpTree Junction (Written (methodOf R))) (hf : NoValue rest) :
    (atomRule R .method (methodPattern R)).possiableNegativeExpr.bracketedCompositeOrAtomic.read
        (printMethod t ++ rest) =
      some (.ok ⟨listing (t.map fun w => .method w.value)⟩, rest) := by
  have hs (t : OpTree Junction (Written (methodOf R))) :
      (atomRule R .method
        (methodPattern R)).possiableNegativeExpr.bracketedCompositeOrAtomic.read
          (printScoped printPattern t ++ rest) =
        some (.ok ⟨listing (t.map fun w => .method w.value)⟩, rest) := by
    rw [scoped_read readBy_method (fun w => ⟨_, _, rfl⟩) t hf, value_atoms]
  cases t with
  | leaf w => exact hs (.leaf w)
  | node j l r => exact hs (.node j l r)
  | neg t =>
    cases t with
    | neg t => exact hs (.neg (.neg t))
    | node j l r => exact hs (.neg (.node j l r))
    | leaf w =>
      refine (orElse_read_none rfl).trans (orElse_read ?_)
      rw [printMethod, List.cons_append, after_read rfl, map_read, methodPattern, printPattern,
        List.singleton_append, atomRule_read .method w (pattern_read w.source rest)]
      rfl

/-- A printed group is read back as its listing. -/
theorem locationPatterns_read (g : Group R) (hf : NoValue rest) :
    (locationPatterns R).read (g.print ++ rest) = some (.ok ⟨listing g.tree⟩, rest) := by
  cases g with
  | header t =>
    refine orElse_read (orElse_read ?_)
    rw [Group.print, List.cons_append, after_read rfl]
    exact scoped_kv .header t hf
  | query t =>
    refine orElse_read ((orElse_read_none (after_read_none rfl _)).trans ?_)
    rw [after_read rfl]
    exact scoped_kv .query t hf
  | method t =>
    have hn : (((atomRule R .header (headerPattern R)).bracketedCompositeOrAtomic.after
          (Token.ikeyword "header")).orElse
        ((atomRule R .query (queryPattern R)).bracketedCompositeOrAtomic.after
          (Token.ikeyword "query"))).read ((Group.method t).print ++ rest) = none :=
      (orElse_read_none (after_read_none rfl _)).trans (after_read_none rfl _)
    refine (orElse_read_none hn).trans ?_
    rw [Group.print, List.cons_append, after_read rfl]
    exact scoped_method t hf

theorem readBy_locationPatterns :
    (ruleSigns Group.print).ReadBy (locationPatterns R).composite
      (fun g => .ok ⟨listing g.tree⟩) NoValue := by
  refine readBy_composite (fun ts => rfl) (fun g ts h => locationPatterns_read g h) fun g => ?_
  cases g <;> exact ⟨_, _, rfl, rfl⟩

theorem expression_locationPatterns (t : OpTree Junction (Group R)) :
    (locationPatterns R).expression.read ((ruleSigns Group.print).print t) =
      some (.ok ⟨listing (t.bind Group.tree)⟩, []) := by
  have hf : NoValue [] := by rintro u ⟨⟩
  have h := readBy_locationPatterns.expression_print t hf (by rintro u us ⟨⟩)
  rw [List.append_nil, value_composite Group.tree fun g => rfl] at h
  exact h

theorem locationProfile_read (p : Profile R) (ts : List Token) :
    (locationProfile R).read (p.print ++ ts) = some (.ok p.atom, ts) := by
  cases p with
  | any => exact orElse_read rfl
  | clientName name =>
    refine (orElse_read_none rfl).trans ?_
    rw [Profile.print, List.singleton_append, clientNameAtom, clientName, map_read, map_read,
      pattern_read]
    simp only [Option.map_some, name.accepted]
    rfl

theorem with_read (t : OpTree Junction (Group R)) :
    (locationPatterns R).expression.withClause.read
        (word "with" :: (ruleSigns Group.print).print t) =
      some (.ok ⟨listing (t.bind Group.tree)⟩, []) :=
  orElse_read ((after_read rfl _).trans (expression_locationPatterns t))

theorem without_read (t : OpTree Junction (Group R)) :
    (locationPatterns R).expression.withClause.read
        (word "without" :: (ruleSigns Group.print).print t) =
      some (.ok ⟨listing (t.bind Group.tree).neg⟩, []) := by
  refine (orElse_read_none (after_read_none rfl _)).trans ?_
  rw [after_read rfl, map_read, expression_locationPatterns]
  rfl

/-- The parser inverts the printer of infix rules. -/
theorem infixLocationRuleExprs_print (rule : InfixRule R) :
    infixLocationRuleExprs R rule.print = some (.ok ⟨listing rule.tree⟩) := by
  obtain ⟨profile, clause⟩ := rule
  rw [infixLocationRuleExprs, InfixRule.print, locationProfile_read]
  cases clause with
  | none => rfl
  | withPatterns t =>
    simp only [with_read]
    rfl
  | withoutPatterns t =>
    simp only [without_read]
    rfl

theorem spellable_print {atom : α → List Token} (t : OpTree Junction α)
    (h : t.All fun a => ∀ u ∈ atom a, u.spellable = true) :
    ∀ u ∈ (ruleSigns atom).print t, u.spellable = true :=
  ((ruleSigns atom).forall_mem_print (P := fun u => u.spellable = true) rfl
    (fun j => by cases j <;> rfl) rfl rfl t h).1

theorem spellable_printScoped {atom : α → List Token}
    (h : ∀ a, ∀ u ∈ atom a, u.spellable = true) (t : OpTree Junction α) :
    ∀ u ∈ printScoped atom t, u.spellable = true := by
  have hb (t : OpTree Junction α) :
      ∀ u ∈ .symbol '(' :: ((ruleSigns atom).print t ++ [.symbol ')']), u.spellable = true := by
    intro u hu
    rcases List.mem_cons.1 hu with rfl | hu
    · rfl
    · rcases List.mem_append.1 hu with hu | hu
      · exact spellable_print t (t.all_of_forall h) u hu
      · rw [List.mem_singleton.1 hu]
        rfl
  cases t with
  | leaf a => exact h a
  | neg t => exact hb t.neg
  | node j l r => exact hb (.node j l r)

theorem spellable_printKv (lits : Text × Option Text) :
    ∀ u ∈ printKv lits, u.spellable = true := by
  rcases lits with ⟨k, _ | v⟩ <;> simp [printKv, Token.spellable]

theorem spellable_printMethod (t : OpTree Junction (Written (methodOf R))) :
    ∀ u ∈ printMethod t, u.spellable = true := by
  have hp (w : Written (methodOf R)) : ∀ u ∈ printPattern w, u.spellable = true := by
    simp [printPattern, Token.spellable]
  rw [printMethod.eq_def]
  split
  · rename_i w
    intro u hu
    rcases List.mem_cons.1 hu with rfl | hu
    · rfl
    · exact hp w u hu
  · exact spellable_printScoped hp t

theorem Group.spellable_print (g : Group R) : ∀ u ∈ g.print, u.spellable = true := by
  cases g with
  | header t =>
    exact List.forall_mem_cons.2 ⟨rfl, spellable_printScoped (fun w => spellable_printKv _) t⟩
  | query t =>
    exact List.forall_mem_cons.2 ⟨rfl, spellable_printScoped (fun w => spellable_printKv _) t⟩
  | method t => exact List.forall_mem_cons.2 ⟨rfl, spellable_printMethod t⟩

theorem InfixRule.spellable_print (rule : InfixRule R) :
    ∀ u ∈ rule.print, u.spellable = true := by
  obtain ⟨profile, clause⟩ := rule
  have hp : ∀ u ∈ profile.print, u.spellable = true := by
    cases profile <;> simp [Profile.print, Token.spellable]; decide
  have ht (t : OpTree Junction (Group R)) :=
    Access.spellable_print t (t.all_of_forall Group.spellable_print)
  intro u hu
  rcases List.mem_append.1 hu with hu | hu
  · exact hp u hu
  · cases clause with
    | none => cases hu
    | withPatterns t =>
      rcases List.mem_cons.1 hu with rfl | hu
      · rfl
      · exact ht t u hu
    | withoutPatterns t =>
      rcases List.mem_cons.1 hu with rfl | hu
      · rfl
      · exact ht t u hu

/-- The tokens of a printed rule are lexed back. -/
theorem InfixRule.lex_print (rule : InfixRule R) :
    TokenStream.new (spell rule.print) = some rule.print :=
  TokenStream.new_spell rule.spellable_print

/-- Every value a rule can return satisfies `P`. -/
def TokenRule.Yields (r : TokenRule V) (P : V → Prop) : Prop :=
  ∀ ts x rest, r.read ts = some (x, rest) → P x

namespace TokenRule.Yields

theorem map {r : TokenRule V} {P : W → Prop} {f : V → W} (h : r.Yields fun x => P (f x)) :
    (r.map f).Yields P := by
  intro ts x rest hr
  obtain ⟨p, hp, he⟩ := Option.map_eq_some_iff.1 hr
  cases he
  exact h ts p.1 p.2 hp

theorem orElse {r r' : TokenRule V} {P : V → Prop} (h : r.Yields P) (h' : r'.Yields P) :
    (r.orElse r').Yields P := by
  intro ts x rest hr
  simp only [TokenRule.orElse, Option.orElse_eq_orElse, Option.orElse_eq_or,
    Option.or_eq_some_iff] at hr
  rcases hr with hr | ⟨-, hr⟩
  · exact h ts x rest hr
  · exact h' ts x rest hr

theorem after {r : TokenRule V} {p : Token → Bool} {P : V → Prop} (h : r.Yields P) :
    (r.after p).Yields P := by
  intro ts x rest hr
  cases ts with
  | nil => cases hr
  | cons t ts => exact h ts x rest (Option.ite_none_right_eq_some.1 hr).2

theorem bracketed {r : TokenRule V} {P : V → Prop} (h : r.Yields P) : r.bracketed.Yields P := by
  intro ts x rest hr
  cases ts with
  | nil => cases hr
  | cons t ts =>
    simp only [TokenRule.bracketed, afterKeyword, Option.ite_none_right_eq_some] at hr
    obtain ⟨-, hr⟩ := hr
    split at hr
    · rename_i hb
      cases (Option.ite_none_right_eq_some.1 hr).2
      exact h _ _ _ hb
    · cases hr

end TokenRule.Yields

/-- The result is an invalid pattern or the listing of a tree whose atoms satisfy `Q`. -/
def Listed (Q : α → Prop) (x : ExprsResult R α) : Prop :=
  ∀ e, x = .ok e → ∃ t : OpTree Junction α, t.All Q ∧ e = ⟨listing t⟩

section Listed

variable {Q : α → Prop}

theorem Listed.negate {x : ExprsResult R α} (h : Listed Q x) : Listed Q (x.map Exprs.negate) := by
  intro e he
  obtain ⟨e', rfl, rfl⟩ := ok_of_map he
  obtain ⟨t, ht, rfl⟩ := h e' rfl
  exact ⟨.neg t, ht, rfl⟩

theorem Listed.join {x y : ExprsResult R α} (j : Junction) (hx : Listed Q x) (hy : Listed Q y) :
    Listed Q (x.bind fun x => y.map (Exprs.join j x)) := by
  intro e he
  obtain ⟨e', rfl, he⟩ := ok_of_bind he
  obtain ⟨e'', rfl, rfl⟩ := ok_of_map he
  obtain ⟨t, ht, rfl⟩ := hx e' rfl
  obtain ⟨u, hu, rfl⟩ := hy e'' rfl
  exact ⟨.node j t u, ⟨ht, hu⟩, rfl⟩

theorem Listed.single {x : Except (InvalidPatternExpr R) α} (h : ∀ a, x = .ok a → Q a) :
    Listed Q (x.map Exprs.single) := by
  intro e he
  obtain ⟨a, rfl, rfl⟩ := ok_of_map he
  exact ⟨.leaf a, h a rfl, rfl⟩

variable {r : TokenRule (ExprsResult R α)}

theorem listed_expression (h : r.Yields (Listed Q)) : r.expression.Yields (Listed Q) :=
  fun _ _ _ hr => (Grammar.climb_invariant (fun _ => Listed.negate) (fun j _ _ => Listed.join j)
    (fun {ts x rest} ha => h ts x rest ha) _).1 hr

theorem listed_bracketedCompositeOrAtomic (h : r.Yields (Listed Q)) :
    r.bracketedCompositeOrAtomic.Yields (Listed Q) :=
  (listed_expression h).bracketed.orElse h

theorem listed_negated (h : r.Yields (Listed Q)) :
    (r.map fun x => x.map Exprs.negate).Yields (Listed Q) :=
  .map fun ts x rest hr => (h ts x rest hr).negate

theorem listed_possiableNegativeExpr (h : r.Yields (Listed Q)) :
    r.possiableNegativeExpr.Yields (Listed Q) :=
  (listed_negated h).after.orElse h

theorem listed_withClause (h : r.Yields (Listed Q)) : r.withClause.Yields (Listed Q) :=
  h.after.orElse (listed_negated h).after

end Listed

/-- `Q` holds of every atom the parser can build. -/
structure HoldsOfAtoms (Q : AtomicLocationRuleExpr R → Prop) : Prop where
  any : Q .any
  clientName : ∀ {s c}, clientNameOf R s = .ok c → Q (.clientName c)
  method : ∀ {s m}, methodOf R s = .ok m → Q (.method m)
  header : ∀ {s h}, headerOf R s = .ok h → Q (.header h)
  query : ∀ {s q}, queryOf R s = .ok q → Q (.query q)

section HoldsOfAtoms

variable {Q : AtomicLocationRuleExpr R → Prop}

theorem listed_atomRule {p : TokenRule σ} {read : σ → Except (InvalidPatternExpr R) α}
    {f : α → AtomicLocationRuleExpr R} (h : ∀ {s a}, read s = .ok a → Q (f a)) :
    (atomRule R f (p.map read)).Yields (Listed Q) := by
  refine .map (.map fun ts s rest _ => ?_)
  intro e he
  obtain ⟨a, ha, rfl⟩ := ok_of_map he
  exact ⟨.leaf (f a), h ha, rfl⟩

theorem listed_locationPatterns (hQ : HoldsOfAtoms Q) :
    (locationPatterns R).Yields (Listed Q) :=
  ((listed_bracketedCompositeOrAtomic (listed_atomRule hQ.header)).after.orElse
    (listed_bracketedCompositeOrAtomic (listed_atomRule hQ.query)).after).orElse
    (listed_bracketedCompositeOrAtomic
      (listed_possiableNegativeExpr (listed_atomRule hQ.method))).after

theorem locationProfile_holds (hQ : HoldsOfAtoms Q) :
    (locationProfile R).Yields fun x => ∀ a, x = .ok a → Q a := by
  refine .orElse ?_ (.map (.map fun ts s rest _ a ha => ?_))
  · intro ts x rest hr a ha
    cases ts with
    | nil => cases hr
    | cons t ts =>
      cases (Option.ite_none_right_eq_some.1 hr).2
      cases ha
      exact hQ.any
  · obtain ⟨c, hc, rfl⟩ := ok_of_map ha
    exact hQ.clientName hc

/-- Whatever the parser accepts is the listing of one tree. -/
theorem infixLocationRuleExprs_listed (hQ : HoldsOfAtoms Q)
    (h : infixLocationRuleExprs R ts = some x) : Listed Q x := by
  rw [infixLocationRuleExprs] at h
  split at h
  · cases h
  · rename_i profile ts' hp
    have hprofile : Listed Q (profile.map Exprs.single) :=
      .single (locationProfile_holds hQ _ _ _ hp)
    split at h
    · rename_i patterns hw
      have hpatterns := listed_withClause (listed_expression (listed_locationPatterns hQ)) _ _ _ hw
      cases h
      intro e he
      obtain ⟨a, rfl, he⟩ := ok_of_bind he
      exact hprofile.join .and hpatterns e he
    · cases h
    · split at h
      · cases h
        exact hprofile
      · cases h

end HoldsOfAtoms

/-- The parser inverts the minimal-bracket printer of infix rules, and whatever it accepts is
the prefix listing of one expression tree. -/
theorem infixLocationRuleExprs_inverts_print (R : RegexLib) :
    (∀ rule : InfixRule R, ∃ ts, TokenStream.new (spell rule.print) = some ts ∧
      infixLocationRuleExprs R ts = some (.ok ⟨listing rule.tree⟩)) ∧
    ∀ ts exprs, infixLocationRuleExprs R ts = some (.ok exprs) →
      ∃ t : OpTree Junction (AtomicLocationRuleExpr R), exprs = ⟨listing t⟩ := by
  refine ⟨fun rule => ⟨rule.print, rule.lex_print, infixLocationRuleExprs_print rule⟩, ?_⟩
  intro ts exprs h
  have hQ : HoldsOfAtoms (R := R) fun _ => True :=
    ⟨trivial, fun _ => trivial, fun _ => trivial, fun _ => trivial, fun _ => trivial⟩
  obtain ⟨t, -, ht⟩ := infixLocationRuleExprs_listed hQ h exprs rfl
  exact ⟨t, ht⟩

end Dhttp.Access
