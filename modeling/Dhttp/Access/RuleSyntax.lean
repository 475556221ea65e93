import Dhttp.Lib.PrecedenceClimbing
import Dhttp.Access.StackRuns
import Dhttp.Access.Tokens

namespace Dhttp.Access
open Dhttp.Lib
set_option autoImplicit true

section Errors

variable (R : RegexLib)

inductive InvalidPatternExpr where
  | pattern (expr : String) (source : ParsePatternError R)
  | atomic (expr : String) (source : BuildAtomicPatternError R)

/-- The positions of lexing and parsing errors are left out. -/
inductive ParseExprsError where
  | pattern (source : InvalidPatternExpr R)
  | incomplete (input : Text)

inductive DeserializeExprsError where
  | lex (input : Text)
  | parse (input : Text)
  | patternParse (source : InvalidPatternExpr R)
  | invalidPolish (source : EvalPolishError)

/-- What a rule of the parser leaves: a value or an invalid pattern, and the tokens after it. -/
abbrev Parsed (α : Type) := Option (Except (InvalidPatternExpr R) α × List Token)

end Errors

def eqIgnoreAsciiCase (a b : Text) : Bool := a.map Char.toLower == b.map Char.toLower

namespace Token

def i (literal : String) : Token → Bool
  | .unquoted l => eqIgnoreAsciiCase l (text literal)
  | .quoted l => eqIgnoreAsciiCase l (text literal)
  | .symbol _ => false

def ikeyword (literal : String) : Token → Bool
  | .unquoted l => eqIgnoreAsciiCase l (text literal)
  | _ => false

def s (symbol : String) : Token → Bool
  | .symbol c => text symbol == [c]
  | _ => false

/-- `PartialEq<str>`, by which a literal of the grammar is compared. -/
def eqStr (other : String) : Token → Bool
  | .unquoted l => eqIgnoreAsciiCase l (text other)
  | .quoted l => eqIgnoreAsciiCase l (text other)
  | .symbol c => text other == [c]

def junction (t : Token) : Option Junction :=
  if t.ikeyword "and" then some .and else if t.ikeyword "or" then some .or else none

end Token

variable {R : RegexLib}

section Values

variable (R)

def patternOf (expr : String) (lit : Text) : Except (InvalidPatternExpr R) (NormalPattern R) :=
  (NormalPattern.fromStr R lit).mapError (.pattern expr)

def clientNameOf (lit : Text) : Except (InvalidPatternExpr R) (ClientName R) := do
  let pattern ← patternOf R "client_name_pattern" lit
  let pattern ← (ClientNamePattern.fromStr R pattern.pattern).mapError
    (.pattern "client_name_pattern")
  (ClientName.new pattern).mapError (.atomic "client_name_pattern")

def methodOf (lit : Text) : Except (InvalidPatternExpr R) (Method R) := do
  let pattern ← patternOf R "method_pattern" lit
  (Method.new pattern).mapError (.atomic "method_pattern")

/-- The default of an omitted value is built before the key is looked at. -/
def kvPatternOf (key value : String) : Text × Option Text →
    Except (InvalidPatternExpr R) (KVPattern R)
  | (k, some v) => do
    let k ← patternOf R key k
    let v ← patternOf R value v
    return ⟨k, v⟩
  | (k, none) => do
    let v ← patternOf R value (text "*")
    let k ← patternOf R key k
    return ⟨k, v⟩

def headerOf (lits : Text × Option Text) : Except (InvalidPatternExpr R) (Header R) := do
  let pattern ← kvPatternOf R "header_key" "header_value" lits
  ((KVPattern.newHeader pattern.key pattern.value).map .mk).mapError (.atomic "header_pattern")

def queryOf (lits : Text × Option Text) : Except (InvalidPatternExpr R) (Query R) := do
  let pattern ← kvPatternOf R "query_key" "query_value" lits
  ((KVPattern.newQuery pattern.key pattern.value).map .mk).mapError (.atomic "query_pattern")

end Values

def patternText : List Token → Option (Text × List Token)
  | .quoted lit :: ts => some (lit, ts)
  | .unquoted lit :: ts => some (lit, ts)
  | _ => none

/-- A key with a value after `":"`, else a key alone. -/
def kvPatternText (ts : List Token) : Option ((Text × Option Text) × List Token) :=
  match patternText ts with
  | none => none
  | some (k, t :: ts) =>
    if t.eqStr ":" then
      match patternText ts with
      | some (v, rest) => some ((k, some v), rest)
      | none => some ((k, none), t :: ts)
    else some ((k, none), t :: ts)
  | some (k, []) => some ((k, none), [])

/-- Rules of the grammar that read a token at least. -/
structure TokenRule (V : Type) where
  read : List Token → Option (V × List Token)
  consumes : ∀ {ts x rest}, read ts = some (x, rest) → rest.length < ts.length

theorem patternText_length (h : patternText ts = some (lit, rest)) :
    rest.length < ts.length := by
  rw [patternText.eq_def] at h
  split at h <;> cases h <;> exact Nat.lt_succ_self _

theorem kvPatternText_length (h : kvPatternText ts = some (lits, rest)) :
    rest.length < ts.length := by
  rw [kvPatternText] at h
  split at h
  · cases h
  · rename_i hk
    have hl := patternText_length hk
    rw [List.length_cons] at hl
    split at h
    · split at h
      · rename_i hv
        have hl' := patternText_length hv
        cases h
        omega
      · cases h
        exact hl
    · cases h
      exact hl
  · rename_i hk
    cases h
    exact patternText_length hk

/-- A rule with an action on its value. -/
def TokenRule.map (f : V → W) (r : TokenRule V) : TokenRule W where
  read ts := (r.read ts).map fun p => (f p.1, p.2)
  consumes h := by
    obtain ⟨p, hp, he⟩ := Option.map_eq_some_iff.1 h
    cases he
    exact r.consumes hp

def pattern : TokenRule Text := ⟨patternText, patternText_length⟩

def kvPattern : TokenRule (Text × Option Text) := ⟨kvPatternText, kvPatternText_length⟩

section Rules

variable (R)

def clientName : TokenRule (Except (InvalidPatternExpr R) (ClientName R)) :=
  pattern.map (clientNameOf R)

def methodPattern : TokenRule (Except (InvalidPatternExpr R) (Method R)) :=
  pattern.map (methodOf R)

def headerPattern : TokenRule (Except (InvalidPatternExpr R) (Header R)) :=
  kvPattern.map (headerOf R)

def queryPattern : TokenRule (Except (InvalidPatternExpr R) (Query R)) :=
  kvPattern.map (queryOf R)

end Rules

namespace Exprs

def single (e : α) : Exprs BooleanOperator α := ⟨[.expr e]⟩

def negate (x : Exprs BooleanOperator α) : Exprs BooleanOperator α :=
  ⟨.operator .not :: x.parts⟩

def join (j : Junction) (x y : Exprs BooleanOperator α) : Exprs BooleanOperator α :=
  ⟨.operator j.operator :: (x.parts ++ y.parts)⟩

end Exprs

/-- The values of expression rules. -/
abbrev ExprsResult (R : RegexLib) (α : Type) :=
  Except (InvalidPatternExpr R) (Exprs BooleanOperator α)

/-- A keyword, then what `next` reads. -/
def afterKeyword (p : Token → Bool) (next : List Token → Option (V × List Token)) :
    List Token → Option (V × List Token)
  | t :: ts => if p t then next ts else none
  | [] => none

theorem afterKeyword_length {next : List Token → Option (V × List Token)}
    (hn : ∀ {ts x rest}, next ts = some (x, rest) → rest.length < ts.length)
    (h : afterKeyword p next ts = some (x, rest)) : rest.length < ts.length := by
  cases ts with
  | nil => cases h
  | cons t ts =>
    rw [afterKeyword, Option.ite_none_right_eq_some] at h
    exact Nat.lt_succ_of_lt (hn h.2)

theorem orElse_length {r r' : List Token → Option (V × List Token)}
    (hr : ∀ {ts x rest}, r ts = some (x, rest) → rest.length < ts.length)
    (hr' : ∀ {ts x rest}, r' ts = some (x, rest) → rest.length < ts.length)
    (h : (r ts <|> r' ts) = some (x, rest)) : rest.length < ts.length := by
  simp only [Option.orElse_eq_orElse, Option.orElse_eq_or, Option.or_eq_some_iff] at h
  rcases h with h | ⟨-, h⟩
  · exact hr h
  · exact hr' h

namespace TokenRule

/-- Ordered choice. -/
def orElse (r r' : TokenRule V) : TokenRule V :=
  ⟨fun ts => r.read ts <|> r'.read ts, orElse_length r.consumes r'.consumes⟩

def after (p : Token → Bool) (r : TokenRule V) : TokenRule V :=
  ⟨afterKeyword p r.read, afterKeyword_length r.consumes⟩

/-- A single token that satisfies `p`. -/
def keyword (p : Token → Bool) (x : V) : TokenRule V where
  read := afterKeyword p fun ts => some (x, ts)
  consumes {ts y rest} h := by
    cases ts with
    | nil => cases h
    | cons t ts =>
      rw [afterKeyword, Option.ite_none_right_eq_some] at h
      cases h.2
      exact Nat.lt_succ_self _

/-- `precedence!`: `and` and `or` on one level, `not` on the next. -/
def composite (r : TokenRule (ExprsResult R α)) : Grammar Token Junction (ExprsResult R α) where
  negSign := Token.ikeyword "not"
  binSign := Token.junction
  opening := Token.s "("
  closing := Token.s ")"
  negate x := x.map Exprs.negate
  join j x y := x.bind fun x => y.map (Exprs.join j x)
  atom := r.read
  consumes := r.consumes

/-- A whole `composite`. -/
def expression (r : TokenRule (ExprsResult R α)) : TokenRule (ExprsResult R α) :=
  ⟨r.composite.expression 0, fun h => Grammar.climb_length h⟩

def bracketed (r : TokenRule V) : TokenRule V where
  read := afterKeyword (Token.s "(") fun ts =>
    match r.read ts with
    | some (x, u :: rest) => if u.s ")" then some (x, rest) else none
    | _ => none
  consumes := afterKeyword_length fun {ts x rest} h => by
    split at h
    · rename_i hr
      have hl := r.consumes hr
      obtain ⟨-, he⟩ := Option.ite_none_right_eq_some.1 h
      cases he
      exact Nat.lt_of_succ_lt hl
    · cases h

def bracketedCompositeOrAtomic (r : TokenRule (ExprsResult R α)) : TokenRule (ExprsResult R α) :=
  r.expression.bracketed.orElse r

def possiableNegativeExpr (r : TokenRule (ExprsResult R α)) : TokenRule (ExprsResult R α) :=
  ((r.map fun x => x.map Exprs.negate).after (Token.ikeyword "not")).orElse r

/-- `with`, or `without` for the negation. -/
def withClause (r : TokenRule (ExprsResult R α)) : TokenRule (ExprsResult R α) :=
  (r.after (Token.ikeyword "with")).orElse
    ((r.map fun x => x.map Exprs.negate).after (Token.ikeyword "without"))

end TokenRule

section Grammar

variable (R)

/-- A pattern rule as an expression of one part. -/
def atomRule (f : α → AtomicLocationRuleExpr R)
    (r : TokenRule (Except (InvalidPatternExpr R) α)) :
    TokenRule (ExprsResult R (AtomicLocationRuleExpr R)) :=
  r.map fun x => x.map fun a => Exprs.single (f a)

def locationPatterns : TokenRule (ExprsResult R (AtomicLocationRuleExpr R)) :=
  (((atomRule R .header (headerPattern R)).bracketedCompositeOrAtomic.after
      (Token.ikeyword "header")).orElse
    ((atomRule R .query (queryPattern R)).bracketedCompositeOrAtomic.after
      (Token.ikeyword "query"))).orElse
    ((atomRule R .method (methodPattern R)).possiableNegativeExpr.bracketedCompositeOrAtomic.after
      (Token.ikeyword "method"))

def any : TokenRule (Except (InvalidPatternExpr R) (AtomicLocationRuleExpr R)) :=
  .keyword (Token.ikeyword "*?") (.ok .any)

def clientNameAtom : TokenRule (Except (InvalidPatternExpr R) (AtomicLocationRuleExpr R)) :=
  (clientName R).map fun x => x.map .clientName

def locationProfile : TokenRule (Except (InvalidPatternExpr R) (AtomicLocationRuleExpr R)) :=
  (any R).orElse (clientNameAtom R)

/-- The whole stream has to be read. -/
def infixLocationRuleExprs (ts : List Token) :
    Option (ExprsResult R (AtomicLocationRuleExpr R)) :=
  match (locationProfile R).read ts with
  | none => none
  | some (profile, ts) =>
    match (locationPatterns R).expression.withClause.read ts with
    | some (patterns, []) =>
      some (profile.bind fun profile => patterns.map (Exprs.join .and (Exprs.single profile)))
    | some (_, _ :: _) => none
    | none => if ts = [] then some (profile.map Exprs.single) else none

def atomicLocationRuleExpr :
    TokenRule (Except (InvalidPatternExpr R) (AtomicLocationRuleExpr R)) :=
  ((any R).orElse
    (((((headerPattern R).map fun x => x.map .header).after (Token.i "header")).orElse
      ((((queryPattern R).map fun x => x.map .query).after (Token.ikeyword "query")).orElse
        (((methodPattern R).map fun x => x.map .method).after (Token.ikeyword "method")))).after
      (Token.ikeyword "with"))).orElse
    (clientNameAtom R)

def locationRuleExprPart : TokenRule
    (Except (InvalidPatternExpr R) (Part BooleanOperator (AtomicLocationRuleExpr R))) :=
  (((TokenRule.keyword (Token.ikeyword "not") (.ok (.operator .not))).orElse
    (TokenRule.keyword (Token.ikeyword "and") (.ok (.operator .and)))).orElse
    (TokenRule.keyword (Token.ikeyword "or") (.ok (.operator .or)))).orElse
    ((atomicLocationRuleExpr R).map fun x => x.map .expr)

/-- The greedy repetition of a rule, with the fuel its input needs. -/
def TokenRule.many (r : TokenRule V) : Nat → List Token → List V × List Token
  | 0, ts => ([], ts)
  | fuel + 1, ts =>
    match r.read ts with
    | none => ([], ts)
    | some (x, rest) => let p := r.many fuel rest; (x :: p.1, p.2)

def polishLocationRuleExprs (ts : List Token) :
    Option (ExprsResult R (AtomicLocationRuleExpr R)) :=
  match (locationRuleExprPart R).many ts.length ts with
  | (exprs, []) => some ((exprs.mapM id).map .mk)
  | _ => none

structure LocationRuleExprs where
  infixText : Text
  polish : Exprs BooleanOperator (AtomicLocationRuleExpr R)

def LocationRuleExprs.fromStr (input : Text) :
    Except (ParseExprsError R) (LocationRuleExprs R) :=
  match TokenStream.new input with
  | none => .error (.incomplete input)
  | some ts =>
    match infixLocationRuleExprs R ts with
    | none => .error (.incomplete input)
    | some (.error source) => .error (.pattern source)
    | some (.ok polish) => .ok ⟨input, polish⟩

variable {R}

/-- Each part followed by a space. -/
def Exprs.serialize (exprs : Exprs BooleanOperator (AtomicLocationRuleExpr R)) : Text :=
  exprs.parts.flatMap fun part =>
    part.display BooleanOperator.display AtomicLocationRuleExpr.display ++ text " "

variable (R)

def Exprs.deserialize (polish : Text) : Except (DeserializeExprsError R)
    (Exprs BooleanOperator (AtomicLocationRuleExpr R)) :=
  match TokenStream.new polish with
  | none => .error (.lex polish)
  | some ts =>
    match polishLocationRuleExprs R ts with
    | none => .error (.parse polish)
    | some (.error source) => .error (.patternParse source)
    | some (.ok exprs) =>
      match exprs.validateArity with
      | .error source => .error (.invalidPolish source)
      | .ok () => .ok exprs

end Grammar

end Dhttp.Access
