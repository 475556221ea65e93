import Dhttp.Access.InfixRoundTrip
import Dhttp.Access.LiteralLib
import Dhttp.Lib.Fallible

namespace Dhttp.Access
open Dhttp.Lib
set_option autoImplicit true

variable {R : RegexLib}

/-- The constructors of the parser give the atom again from the texts it displays. -/
def Readable : AtomicLocationRuleExpr R → Prop
  | .any => True
  | .clientName c => clientNameOf R c.pattern.pattern = .ok c
  | .method m => methodOf R m.pattern.pattern = .ok m
  | .header h => headerOf R (h.pattern.key.pattern, some h.pattern.value.pattern) = .ok h
  | .query q => queryOf R (q.pattern.key.pattern, some q.pattern.value.pattern) = .ok q

theorem patternOf_ok (h : patternOf R expr lit = .ok p) :
    NormalPattern.fromStr R lit = .ok p ∧ p.pattern = lit :=
  ⟨ok_of_mapError h, NormalPattern.fromStr_pattern (ok_of_mapError h)⟩

theorem clientNameOf_stored (h : clientNameOf R s = .ok c) :
    clientNameOf R c.pattern.pattern = .ok c := by
  rw [clientNameOf] at h
  obtain ⟨p, hp, h⟩ := ok_of_bind h
  obtain ⟨q, hq, h⟩ := ok_of_bind h
  have hn := h
  have hc := ok_of_mapError h
  rw [ClientName.new] at hc
  obtain ⟨-, -, hc⟩ := ok_of_bind hc
  cases hc
  obtain ⟨hs, p', hp', he⟩ := namePatternFromStr_stored (ok_of_mapError hq)
  have hs' : ClientNamePattern.fromStr R q.pattern = .ok q := hs
  rw [clientNameOf, patternOf, hp']
  change (ClientNamePattern.fromStr R p'.pattern).mapError _ >>= _ = _
  rw [he, hs']
  exact hn

theorem methodOf_stored (h : methodOf R s = .ok m) : methodOf R m.pattern.pattern = .ok m := by
  have h' := h
  rw [methodOf] at h
  obtain ⟨p, hp, h⟩ := ok_of_bind h
  have hm := ok_of_mapError h
  rw [Method.new] at hm
  obtain ⟨-, -, hm⟩ := ok_of_bind hm
  cases hm
  rw [(patternOf_ok hp).2]
  exact h'

theorem kvPatternOf_stored (h : kvPatternOf R key value lits = .ok p) :
    kvPatternOf R key value (p.key.pattern, some p.value.pattern) = .ok p := by
  have hk {k v : Text} {kp vp : NormalPattern R} (hk : patternOf R key k = .ok kp)
      (hv : patternOf R value v = .ok vp) :
      kvPatternOf R key value (kp.pattern, some vp.pattern) = .ok ⟨kp, vp⟩ := by
    rw [(patternOf_ok hk).2, (patternOf_ok hv).2, kvPatternOf, hk]
    change patternOf R value v >>= _ = _
    rw [hv]
    rfl
  rcases lits with ⟨k, _ | v⟩
  · rw [kvPatternOf] at h
    obtain ⟨vp, hvp, h⟩ := ok_of_bind h
    obtain ⟨kp, hkp, h⟩ := ok_of_bind h
    cases h
    exact hk hkp hvp
  · rw [kvPatternOf] at h
    obtain ⟨kp, hkp, h⟩ := ok_of_bind h
    obtain ⟨vp, hvp, h⟩ := ok_of_bind h
    cases h
    exact hk hkp hvp

theorem headerOf_stored (h : headerOf R lits = .ok hd) :
    headerOf R (hd.pattern.key.pattern, some hd.pattern.value.pattern) = .ok hd := by
  rw [headerOf] at h
  obtain ⟨p, hp, h⟩ := ok_of_bind h
  obtain ⟨p', hp', rfl⟩ := ok_of_map (ok_of_mapError h)
  obtain ⟨-, -, rfl⟩ := KVPattern.new_validated hp'
  rw [headerOf, kvPatternOf_stored hp]
  exact h

theorem queryOf_stored (h : queryOf R lits = .ok q) :
    queryOf R (q.pattern.key.pattern, some q.pattern.value.pattern) = .ok q := by
  rw [queryOf] at h
  obtain ⟨p, hp, h⟩ := ok_of_bind h
  obtain ⟨p', hp', rfl⟩ := ok_of_map (ok_of_mapError h)
  obtain ⟨-, -, rfl⟩ := KVPattern.new_validated hp'
  rw [queryOf, kvPatternOf_stored hp]
  exact h

theorem holdsOfAtoms_readable : HoldsOfAtoms (R := R) Readable where
  any := trivial
  clientName := clientNameOf_stored
  method := methodOf_stored
  header := headerOf_stored
  query := queryOf_stored

/-- The tokens of a displayed part. -/
def partTokens : Part BooleanOperator (AtomicLocationRuleExpr R) → List Token
  | .operator op => [.unquoted op.display]
  | .expr .any => [word "*?"]
  | .expr (.clientName c) => [.quoted c.pattern.pattern]
  | .expr (.method m) => [word "With", word "Method", .quoted m.pattern.pattern]
  | .expr (.header h) => [word "With", word "Header", .quoted h.pattern.key.pattern, .symbol ':',
      .quoted h.pattern.value.pattern]
  | .expr (.query q) => [word "With", word "Query", .quoted q.pattern.key.pattern, .symbol ':',
      .quoted q.pattern.value.pattern]

theorem new_word {s : String} (hs : (word s).spellable = true) (rest : Text) :
    TokenStream.new (text s ++ ' ' :: rest) = (TokenStream.new rest).map (word s :: ·) := by
  change TokenStream.new ((word s).spelling ++ _) = _
  rw [TokenStream.new_spelling hs (by rintro c ⟨⟩; rfl), TokenStream.new_space rfl]

theorem new_quotedKv (k v : Text) (rest : Text) :
    TokenStream.new (text "\"" ++ escapeText k ++ text "\":\"" ++ escapeText v ++ text "\"" ++
        ' ' :: rest) =
      (TokenStream.new rest).map ([.quoted k, .symbol ':', .quoted v] ++ ·) := by
  have he : text "\"" ++ escapeText k ++ text "\":\"" ++ escapeText v ++ text "\"" ++ ' ' :: rest =
      (Token.quoted k).spelling ++ ((Token.symbol ':').spelling ++
        ((Token.quoted v).spelling ++ ' ' :: rest)) := by
    simp [Token.spelling, text]
  rw [he, TokenStream.new_quoted, TokenStream.new_symbol rfl, TokenStream.new_quoted,
    TokenStream.new_space rfl]
  cases TokenStream.new rest <;> rfl

theorem new_quotedPattern (s : Text) (rest : Text) :
    TokenStream.new (text "\"" ++ escapeText s ++ text "\"" ++ ' ' :: rest) =
      (TokenStream.new rest).map ([.quoted s] ++ ·) := by
  have he : text "\"" ++ escapeText s ++ text "\"" ++ ' ' :: rest =
      (Token.quoted s).spelling ++ ' ' :: rest := by
    simp [Token.spelling, text]
  rw [he, TokenStream.new_quoted, TokenStream.new_space rfl]
  rfl

/-- A displayed part is lexed into its tokens. -/
theorem new_part (p : Part BooleanOperator (AtomicLocationRuleExpr R)) (rest : Text) :
    TokenStream.new (p.display BooleanOperator.display AtomicLocationRuleExpr.display ++
        ' ' :: rest) =
      (TokenStream.new rest).map (partTokens p ++ ·) := by
  have hw (s s' : String) (hs : (word s).spellable = true) (hs' : (word s').spellable = true)
      (body rest : Text) (us : List Token)
      (h : TokenStream.new (body ++ ' ' :: rest) = (TokenStream.new rest).map (us ++ ·)) :
      TokenStream.new (text s ++ ' ' :: (text s' ++ ' ' :: (body ++ ' ' :: rest))) =
        (TokenStream.new rest).map (word s :: word s' :: us ++ ·) := by
    rw [new_word hs, new_word hs', h]
    cases TokenStream.new rest <;> rfl
  rcases p with op | (_ | c | m | h | q)
  · cases op <;> exact new_word rfl rest
  · exact new_word rfl rest
  · exact new_quotedPattern c.pattern.pattern rest
  · exact hw "With" "Method" rfl rfl _ rest _ (new_quotedPattern _ rest)
  · exact hw "With" "Header" rfl rfl _ rest _ (new_quotedKv _ _ rest)
  · exact hw "With" "Query" rfl rfl _ rest _ (new_quotedKv _ _ rest)

theorem new_serialize (parts : List (Part BooleanOperator (AtomicLocationRuleExpr R))) :
    TokenStream.new (Exprs.serialize ⟨parts⟩) = some (parts.flatMap partTokens) := by
  induction parts with
  | nil => rfl
  | cons p parts ih =>
    have hs : Exprs.serialize ⟨p :: parts⟩ =
        p.display BooleanOperator.display AtomicLocationRuleExpr.display ++
          ' ' :: Exprs.serialize ⟨parts⟩ := by
      rw [Exprs.serialize, List.flatMap_cons, List.append_assoc]
      rfl
    rw [hs, new_part, ih]
    rfl

/-- The atom of a part, if it has one, is readable. -/
def Part.Readable : Part BooleanOperator (AtomicLocationRuleExpr R) → Prop
  | .operator _ => True
  | .expr a => Access.Readable a

theorem readable_listing {t : OpTree Junction (AtomicLocationRuleExpr R)} (h : t.All Readable) :
    ∀ p ∈ listing t, p.Readable := by
  induction t with
  | leaf a =>
    intro p hp
    rw [List.mem_singleton.1 hp]
    exact h
  | neg t ih => exact List.forall_mem_cons.2 ⟨trivial, ih h⟩
  | node j l r ihl ihr =>
    refine List.forall_mem_cons.2 ⟨trivial, fun p hp => ?_⟩
    rcases List.mem_append.1 hp with hp | hp
    · exact ihl h.1 p hp
    · exact ihr h.2 p hp

theorem clientNameAtom_read (h : clientNameOf R lit = .ok c) (ts : List Token) :
    (clientNameAtom R).read (.quoted lit :: ts) = some (.ok (.clientName c), ts) := by
  rw [clientNameAtom, clientName, map_read, map_read, pattern_read]
  simp only [Option.map_some, h]
  rfl

theorem map_read_ok {p : TokenRule σ} {read : σ → Except (InvalidPatternExpr R) α}
    (f : α → AtomicLocationRuleExpr R) (hp : p.read ts = some (lits, rest))
    (h : read lits = .ok a) :
    ((p.map read).map fun x => x.map f).read ts = some (.ok (f a), rest) := by
  rw [map_read, map_read, hp]
  simp only [Option.map_some, h]
  rfl

theorem atomicLocationRuleExpr_read {a : AtomicLocationRuleExpr R} (h : Readable a)
    (ts : List Token) :
    (atomicLocationRuleExpr R).read (partTokens (.expr a) ++ ts) = some (.ok a, ts) := by
  cases a with
  | any => exact orElse_read (orElse_read rfl)
  | clientName c => exact (orElse_read_none rfl).trans (clientNameAtom_read h ts)
  | method m =>
    refine orElse_read ((orElse_read_none rfl).trans ?_)
    refine (after_read rfl _).trans ((orElse_read_none rfl).trans ((orElse_read_none rfl).trans ?_))
    exact (after_read rfl _).trans (map_read_ok .method (pattern_read _ ts) h)
  | header hd =>
    refine orElse_read ((orElse_read_none rfl).trans ?_)
    refine (after_read rfl _).trans (orElse_read ((after_read rfl _).trans ?_))
    exact map_read_ok .header (kvPattern_read_value _ _ ts) h
  | query q =>
    refine orElse_read ((orElse_read_none rfl).trans ?_)
    refine (after_read rfl _).trans ((orElse_read_none rfl).trans (orElse_read ?_))
    exact (after_read rfl _).trans (map_read_ok .query (kvPattern_read_value _ _ ts) h)

/-- The tokens of a part are read back as that part. -/
theorem locationRuleExprPart_read {p : Part BooleanOperator (AtomicLocationRuleExpr R)}
    (h : p.Readable) (ts : List Token) :
    (locationRuleExprPart R).read (partTokens p ++ ts) = some (.ok p, ts) := by
  rcases p with op | a
  · cases op with
    | not => exact orElse_read (orElse_read (orElse_read rfl))
    | and => exact orElse_read (orElse_read ((orElse_read_none rfl).trans rfl))
    | or => exact orElse_read ((orElse_read_none rfl).trans rfl)
  · refine (orElse_read_none ?_).trans ?_
    · cases a <;> rfl
    · rw [map_read, atomicLocationRuleExpr_read h]
      rfl

theorem partTokens_ne_nil (p : Part BooleanOperator (AtomicLocationRuleExpr R)) :
    0 < (partTokens p).length := by
  rcases p with op | (_ | c | m | h | q) <;> exact Nat.succ_pos _

theorem many_read {parts : List (Part BooleanOperator (AtomicLocationRuleExpr R))}
    (h : ∀ p ∈ parts, p.Readable) (hf : (parts.flatMap partTokens).length ≤ fuel) :
    (locationRuleExprPart R).many fuel (parts.flatMap partTokens) = (parts.map .ok, []) := by
  induction parts generalizing fuel with
  | nil => cases fuel <;> rfl
  | cons p parts ih =>
    have hp := partTokens_ne_nil p
    rw [List.flatMap_cons, List.length_append] at hf
    cases fuel with
    | zero => omega
    | succ fuel =>
      have hl : (parts.flatMap partTokens).length ≤ fuel := by omega
      rw [List.flatMap_cons, TokenRule.many,
        locationRuleExprPart_read (h p (List.mem_cons_self ..))]
      simp only [ih (fun q hq => h q (List.mem_cons_of_mem p hq)) hl]
      rfl

/-- The stored form of an expression over readable atoms is read back unchanged. -/
theorem deserialize_serialize {t : OpTree Junction (AtomicLocationRuleExpr R)}
    (h : t.All Readable) :
    Exprs.deserialize R (Exprs.serialize ⟨listing t⟩) = .ok ⟨listing t⟩ := by
  rw [Exprs.deserialize, new_serialize]
  simp only [polishLocationRuleExprs, many_read (readable_listing h) (Nat.le_refl _),
    mapM_ok.2 (List.map_id _), Except.map, Exprs.validateArity_listing]

theorem fromStr_listed (h : LocationRuleExprs.fromStr R input = .ok e) :
    ∃ t : OpTree Junction (AtomicLocationRuleExpr R), t.All Readable ∧ e.polish = ⟨listing t⟩ := by
  rw [LocationRuleExprs.fromStr] at h
  split at h
  · cases h
  · split at h
    · cases h
    · cases h
    · rename_i hi
      cases h
      exact infixLocationRuleExprs_listed holdsOfAtoms_readable hi _ rfl

/-- An expression read from its infix form survives being stored in Polish notation. -/
theorem fromStr_serialize_deserialize (R : RegexLib) (input : Text) (e : LocationRuleExprs R)
    (h : LocationRuleExprs.fromStr R input = .ok e) :
    Exprs.deserialize R e.polish.serialize = .ok e.polish := by
  obtain ⟨t, ht, he⟩ := fromStr_listed h
  rw [he, deserialize_serialize ht]

theorem fromStr_print (rule : InfixRule R) : LocationRuleExprs.fromStr R (spell rule.print) =
    .ok ⟨spell rule.print, ⟨listing rule.tree⟩⟩ := by
  rw [LocationRuleExprs.fromStr, rule.lex_print]
  simp only [infixLocationRuleExprs_print]

theorem literalMethod (word : Text) (hw : word.all isWordChar = true)
    (ha : httpMethodLanguage.accepts (Literal.bytes ⟨word, true⟩) = true) :
    methodOf literalLib (text "= " ++ word) = .ok ⟨literalPattern word⟩ := by
  rw [methodOf, patternOf, literalPattern_fromStr word hw]
  change (Method.new (literalPattern word)).mapError _ = _
  rw [Method.new,
    literal_validate PatternInputLanguage.searchable_httpMethod (literalPattern word) hw ha]
  rfl

theorem fromStr_serialize_deserialize_get : ∃ e,
    LocationRuleExprs.fromStr literalLib (text "*? with method \"= GET\" ") = .ok e ∧
      Exprs.deserialize literalLib e.polish.serialize = .ok e.polish := by
  have hm := literalMethod (text "GET") (by decide) PatternInputLanguage.accepts_get
  have h := fromStr_print (R := literalLib)
    ⟨.any, .withPatterns (.leaf (.method (.leaf ⟨_, _, hm⟩)))⟩
  exact ⟨_, h, fromStr_serialize_deserialize literalLib _ _ h⟩

end Dhttp.Access
