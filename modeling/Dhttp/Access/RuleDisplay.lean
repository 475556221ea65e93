import Mathlib
import Dhttp.Access.RuleRows

namespace Dhttp.Access
open Dhttp.Lib
set_option autoImplicit true

variable {R : RegexLib}

/-- A trailing suffix is written as `~` unless it is the whole name. -/
def displayName (pattern : Text) : Text :=
  match stripSuffix dhttpSuffix pattern with
  | some lead => if lead = [] then pattern else lead ++ ['~']
  | none => pattern

def LocationRuleExprs.display (e : LocationRuleExprs R) : Text :=
  match e.polish.parts with
  | [.expr (.clientName name)] => displayName name.pattern.pattern
  | _ => e.infixText

section Lexing

theorem all_whitespace_of_new (h : TokenStream.new s = some []) : s.all isWhitespace = true := by
  rw [TokenStream.new_eq] at h
  split at h
  · rename_i hd
    exact List.all_eq_true.2 (List.dropWhile_eq_nil_iff.1 hd)
  · split at h
    · cases h
    · obtain ⟨ts, -, he⟩ := Option.map_eq_some_iff.1 h
      cases he

/-- What the lexer takes for the characters of a quoted token is at least as long as they are. -/
theorem quotedChars_source (s : Text) : ∃ source, s = source ++ (quotedChars s).2 ∧
    (quotedChars s).1.length ≤ source.length ∧ (quotedChars s).1 ⊆ source := by
  fun_induction quotedChars s with
  | case1 => exact ⟨[], rfl, Nat.le_refl _, List.Subset.refl _⟩
  | case2 rest p ih =>
    obtain ⟨source, hs, hl, hsub⟩ := ih
    refine ⟨'\\' :: '"' :: source, ?_, ?_, ?_⟩
    · exact congrArg (fun s => '\\' :: '"' :: s) hs
    · exact Nat.le_succ_of_le (Nat.succ_le_succ hl)
    · intro c hc
      rcases List.mem_cons.1 hc with rfl | hc
      · simp
      · exact List.mem_cons_of_mem _ (List.mem_cons_of_mem _ (hsub hc))
  | case3 rest p ih =>
    obtain ⟨source, hs, hl, hsub⟩ := ih
    refine ⟨'\\' :: '\\' :: source, ?_, ?_, ?_⟩
    · exact congrArg (fun s => '\\' :: '\\' :: s) hs
    · exact Nat.le_succ_of_le (Nat.succ_le_succ hl)
    · intro c hc
      rcases List.mem_cons.1 hc with rfl | hc
      · simp
      · exact List.mem_cons_of_mem _ (List.mem_cons_of_mem _ (hsub hc))
  | case4 => exact ⟨[], rfl, Nat.le_refl _, List.Subset.refl _⟩
  | case5 c rest _ _ _ p ih =>
    obtain ⟨source, hs, hl, hsub⟩ := ih
    refine ⟨c :: source, ?_, ?_, ?_⟩
    · exact congrArg (c :: ·) hs
    · exact Nat.succ_le_succ hl
    · exact List.cons_subset_cons c hsub

/-- A source that is one quoted token: white space, quotes around the characters, white space. -/
theorem new_quoted_source (h : TokenStream.new s = some [.quoted lit]) :
    ∃ before source after, s = before ++ '"' :: (source ++ '"' :: after) ∧
      before.all isWhitespace = true ∧ after.all isWhitespace = true ∧
      lit.length ≤ source.length ∧ lit ⊆ source := by
  rw [TokenStream.new_eq] at h
  split at h
  · cases h
  · rename_i c s' hd
    have hs := List.takeWhile_append_dropWhile (p := isWhitespace) (l := s)
    have hbefore : (s.takeWhile isWhitespace).all isWhitespace = true := List.all_takeWhile
    rw [hd] at hs
    split at h
    · cases h
    · rename_i t rest ht
      obtain ⟨ts, hrest, he⟩ := Option.map_eq_some_iff.1 h
      cases he
      have hq : quotedString (c :: s') = some (.quoted lit, rest) := by
        simp only [token, Option.orElse_eq_orElse, Option.orElse_eq_or,
          Option.or_eq_some_iff] at ht
        rcases ht with hq | ⟨-, hu | ⟨-, hy⟩⟩
        · exact hq
        · rw [unquotedString] at hu
          split at hu <;> cases hu
        · rw [symbol.eq_def] at hy
          split at hy
          · split at hy <;> cases hy
          · cases hy
      rw [quotedString.eq_def] at hq
      split at hq
      · rename_i hopen
        cases hopen
        split at hq
        · rename_i hchars
          cases hq
          obtain ⟨source, hsource, hl, hsub⟩ := quotedChars_source s'
          rw [hchars] at hsource hl hsub
          refine ⟨s.takeWhile isWhitespace, source, rest, ?_, hbefore,
            all_whitespace_of_new hrest, hl, hsub⟩
          rw [← hsource]
          exact hs.symm
        · cases hq
      · cases hq

theorem unquotedString_some {s rest : Text} (h : unquotedString s = some (.unquoted lit, rest)) :
    lit ≠ [] ∧ lit.all isUnquotedChar = true := by
  rw [unquotedString] at h
  split at h
  · cases h
  · rename_i c s' hs
    cases h
    rw [← hs]
    constructor
    · rw [hs]
      exact List.cons_ne_nil c s'
    · exact List.all_takeWhile

theorem new_unquoted_source (h : TokenStream.new s = some [.unquoted lit]) :
    lit ≠ [] ∧ lit.all isUnquotedChar = true := by
  rw [TokenStream.new_eq] at h
  split at h
  · cases h
  · split at h
    · cases h
    · rename_i t rest ht
      obtain ⟨ts, -, he⟩ := Option.map_eq_some_iff.1 h
      cases he
      simp only [token, Option.orElse_eq_orElse, Option.orElse_eq_or, Option.or_eq_some_iff] at ht
      rcases ht with hq | ⟨-, hu | ⟨-, hy⟩⟩
      · rw [quotedString.eq_def] at hq
        split at hq
        · split at hq <;> cases hq
        · cases hq
      · exact unquotedString_some hu
      · rw [symbol.eq_def] at hy
        split at hy
        · split at hy <;> cases hy
        · cases hy

end Lexing

section Names

theorem clientNameOf_pattern (h : clientNameOf R lit = .ok name) :
    name.pattern.pattern = canonicalizeNamePattern lit := by
  rw [clientNameOf] at h
  obtain ⟨p, hp, h⟩ := ok_of_bind h
  obtain ⟨q, hq, h⟩ := ok_of_bind h
  have hc := ok_of_mapError h
  rw [ClientName.new] at hc
  obtain ⟨-, -, hc⟩ := ok_of_bind hc
  cases hc
  have hf := ok_of_mapError hq
  rw [(patternOf_ok hp).2, ClientNamePattern.fromStr, namePatternFromStr] at hf
  obtain ⟨p', hp', hf⟩ := ok_of_bind hf
  obtain ⟨n, hn, rfl⟩ := ok_of_map hp'
  obtain ⟨-, -, hf⟩ := ok_of_bind hf
  cases hf
  exact NormalPattern.fromStr_pattern hn

theorem canonicalize_of_no_space (h : ' ' ∉ s) :
    canonicalizeNamePattern s = expandNameGlobOrExact s := by
  rw [canonicalizeNamePattern, splitOnce_eq_none.2 h]

/-- The name patterns whose displayed text is one word for the lexer, and not `*?`. -/
def Retypable (pattern : Text) : Prop :=
  pattern ≠ [] ∧ pattern.all isUnquotedChar = true ∧ pattern ≠ text "*?"

theorem no_space_of_unquoted {s : Text} (h : s.all isUnquotedChar = true) : ' ' ∉ s := by
  intro hm
  exact absurd (List.all_eq_true.1 h _ hm) (by decide)

theorem all_expandName {s : Text} (h : s.all isUnquotedChar = true) :
    (expandNameGlobOrExact s).all isUnquotedChar = true := by
  rw [expandNameGlobOrExact, replace, List.all_flatMap]
  apply List.all_eq_true.2
  intro c hc
  split
  · decide
  · rw [List.all_cons, List.all_eq_true.1 h c hc]
    rfl

theorem expandName_ne_nil {s : Text} (h : s ≠ []) : expandNameGlobOrExact s ≠ [] := by
  intro he
  have hne : dhttpSuffix ≠ [] := by decide
  have hl : s.length ≤ (replace '~' dhttpSuffix s).length := length_le_replace hne s
  rw [← expandNameGlobOrExact, he] at hl
  exact h (List.eq_nil_of_length_eq_zero (Nat.le_zero.1 hl))

end Names

section Words

theorem toLower_of_lt {c d : Char} (h : c.toLower = d) (hd : d.toNat < 97) : c = d := by
  rw [Char.toLower] at h
  split at h
  · rename_i hu
    have hv := congrArg (fun c => c.val.toNat) h
    have hle := UInt32.le_iff_toNat_le.1 hu.1
    have hge := UInt32.le_iff_toNat_le.1 hu.2
    simp at hle hge hv
    omega
  · exact h

theorem ikeyword_any (h : Token.ikeyword "*?" (.unquoted s) = true) : s = text "*?" := by
  have hs : s.map Char.toLower = ['*', '?'] := eq_of_beq h
  obtain ⟨a, s, rfl, ha, hs⟩ := List.map_eq_cons_iff.1 hs
  obtain ⟨b, s, rfl, hb, hs⟩ := List.map_eq_cons_iff.1 hs
  rw [List.map_eq_nil_iff.1 hs, toLower_of_lt ha (by decide), toLower_of_lt hb (by decide)]
  rfl

/-- One bare word is read as a client name. -/
theorem fromStr_word {s : Text} (hn : s ≠ []) (hu : s.all isUnquotedChar = true)
    (hs : s ≠ text "*?") (hc : clientNameOf R s = .ok name) :
    LocationRuleExprs.fromStr R s = .ok ⟨s, .single (.clientName name)⟩ := by
  have hts : TokenStream.new s = some [.unquoted s] := by
    have hend : ∀ c ∈ ([] : Text).head?, isUnquotedChar c = false := fun c hc => by cases hc
    have hnew := TokenStream.new_unquoted hn hu hend
    rw [List.append_nil] at hnew
    exact hnew
  have hany : (any R).read [.unquoted s] = none := by
    apply if_neg
    intro hk
    exact hs (ikeyword_any hk)
  have hprofile : (locationProfile R).read [.unquoted s] = some (.ok (.clientName name), []) := by
    refine (orElse_read_none hany).trans ?_
    have hread : pattern.read [.unquoted s] = some (s, []) := rfl
    rw [clientNameAtom, clientName, map_read, map_read, hread]
    simp only [Option.map_some, hc]
    rfl
  rw [LocationRuleExprs.fromStr, hts]
  simp only [infixLocationRuleExprs, hprofile]
  rfl

/-- A rule that is a client name was read from one word or one quoted text. -/
theorem infix_clientName {ts : List Token} {x : Exprs BooleanOperator (AtomicLocationRuleExpr R)}
    (h : infixLocationRuleExprs R ts = some (.ok x)) (hx : x.parts = [.expr (.clientName name)]) :
    ∃ lit, (ts = [.unquoted lit] ∨ ts = [.quoted lit]) ∧ clientNameOf R lit = .ok name := by
  rw [infixLocationRuleExprs] at h
  split at h
  · cases h
  · rename_i profile rest hprofile
    split at h
    · obtain ⟨atom, -, h⟩ := ok_of_bind (Option.some.inj h)
      obtain ⟨patterns, -, rfl⟩ := ok_of_map h
      cases hx
    · cases h
    · obtain ⟨hrest, h⟩ := Option.ite_none_right_eq_some.1 h
      obtain ⟨atom, rfl, rfl⟩ := ok_of_map (Option.some.inj h)
      cases hx
      rw [hrest] at hprofile
      change ((any R).read ts <|> (clientNameAtom R).read ts) = _ at hprofile
      simp only [Option.orElse_eq_orElse, Option.orElse_eq_or, Option.or_eq_some_iff] at hprofile
      rcases hprofile with hany | ⟨-, hname⟩
      · cases ts with
        | nil => cases hany
        | cons t ts =>
          obtain ⟨-, he⟩ := Option.ite_none_right_eq_some.1 hany
          cases he
      · rw [clientNameAtom, clientName, map_read, map_read, Option.map_map,
          Option.map_eq_some_iff] at hname
        obtain ⟨⟨lit, ts'⟩, hread, he⟩ := hname
        obtain ⟨hlit, rfl⟩ := Prod.mk.inj he
        obtain ⟨name', hlit, hname⟩ := ok_of_map hlit
        cases hname
        have hread : patternText ts = some (lit, []) := hread
        rw [patternText.eq_def] at hread
        split at hread
        · cases hread
          exact ⟨lit, .inr rfl, hlit⟩
        · cases hread
          exact ⟨lit, .inl rfl, hlit⟩
        · cases hread

end Words

section Display

/-- The characters of the suffix and `~` mean themselves in a glob: where the one ends a glob
that compiles, so can the other. -/
def RegexLib.PlainSuffix (R : RegexLib) : Prop :=
  ∀ lead regex, globPattern R false (lead ++ dhttpSuffix) = .ok regex →
    ∃ regex', globPattern R false (lead ++ ['~']) = .ok regex'

theorem fromStr_ok (h : LocationRuleExprs.fromStr R input = .ok e) :
    e.infixText = input ∧ ∃ ts, TokenStream.new input = some ts ∧
      infixLocationRuleExprs R ts = some (.ok e.polish) := by
  rw [LocationRuleExprs.fromStr] at h
  split at h
  · cases h
  · rename_i ts hts
    split at h
    · cases h
    · cases h
    · rename_i hi
      cases h
      exact ⟨rfl, ts, hts, hi⟩

theorem stored_clientName (h : LocationRuleExprs.fromStr R input = .ok e)
    (he : e.polish.parts = [.expr (.clientName name)]) :
    clientNameOf R name.pattern.pattern = .ok name := by
  obtain ⟨t, ht, hp⟩ := fromStr_listed h
  rw [hp] at he
  cases t with
  | leaf a =>
    cases he
    exact ht
  | neg t => cases he
  | node j l r => cases he

/-- Client names with the same canonical text are the same. -/
theorem clientNameOf_congr (h : clientNameOf R s = .ok name)
    (hp : patternOf R "client_name_pattern" s' = .ok p)
    (hc : canonicalizeNamePattern s' = canonicalizeNamePattern s) :
    clientNameOf R s' = .ok name := by
  rw [clientNameOf] at h
  obtain ⟨q, hq, h⟩ := ok_of_bind h
  rw [(patternOf_ok hq).2, ClientNamePattern.fromStr, namePatternFromStr, ← hc] at h
  rw [clientNameOf, hp]
  change (ClientNamePattern.fromStr R p.pattern).mapError _ >>= _ = _
  rw [(patternOf_ok hp).2, ClientNamePattern.fromStr, namePatternFromStr]
  exact h

theorem globPattern_of_patternOf {s : Text} (hs : ' ' ∉ s) : (∃ p, patternOf R expr s = .ok p) ↔
    ∃ regex, globPattern R false s = .ok regex := by
  rw [patternOf, NormalPattern.fromStr, splitOnce_eq_none.2 hs]
  constructor
  · intro h
    obtain ⟨p, hp⟩ := h
    obtain ⟨regex, hr, -⟩ := ok_of_map (ok_of_mapError hp)
    exact ⟨regex, hr⟩
  · intro h
    obtain ⟨regex, hr⟩ := h
    simp only [hr]
    exact ⟨_, rfl⟩

/-- The shortened name is read as the whole one. -/
theorem clientNameOf_displayName (hR : R.PlainSuffix) {t : Text} (h : clientNameOf R t = .ok name)
    (hu : t.all isUnquotedChar = true) (hc : canonicalizeNamePattern t = t) :
    clientNameOf R (displayName t) = .ok name := by
  rw [displayName]
  split
  · rename_i lead hlead
    split
    · exact h
    · have ht : t = lead ++ dhttpSuffix := stripSuffix_eq_some.1 hlead
      have hspace : ' ' ∉ t := no_space_of_unquoted hu
      have htilde : '~' ∉ t := by
        rw [← hc, canonicalize_of_no_space hspace]
        exact not_mem_replace (by decide) t
      rw [ht, List.mem_append, not_or] at hspace htilde
      have hshort : ' ' ∉ lead ++ ['~'] := by
        rw [List.mem_append, not_or]
        exact ⟨hspace.1, by decide⟩
      have hcanonical : canonicalizeNamePattern (lead ++ ['~']) = canonicalizeNamePattern t := by
        rw [hc, canonicalize_of_no_space hshort, expandNameGlobOrExact, replace_append,
          replace_of_not_mem _ htilde.1, ht]
        rfl
      have hglob : ∃ p, patternOf R "client_name_pattern" (lead ++ ['~']) = .ok p := by
        apply (globPattern_of_patternOf hshort).2
        have hname := h
        rw [clientNameOf] at hname
        obtain ⟨q, hq, -⟩ := ok_of_bind hname
        obtain ⟨regex, hr⟩ := (globPattern_of_patternOf (no_space_of_unquoted hu)).1 ⟨q, hq⟩
        rw [ht] at hr
        exact hR lead regex hr
      obtain ⟨p, hp⟩ := hglob
      exact clientNameOf_congr h hp hcanonical
  · exact h

theorem Retypable.displayName {t : Text} (h : Retypable t) : Retypable (displayName t) := by
  rw [Access.displayName]
  split
  · rename_i lead hlead
    split
    · exact h
    · obtain ⟨-, hu, -⟩ := h
      rw [stripSuffix_eq_some.1 hlead, List.all_append, Bool.and_eq_true] at hu
      refine ⟨List.append_ne_nil_of_right_ne_nil _ (List.cons_ne_nil _ _), ?_, ?_⟩
      · rw [List.all_append, hu.1]
        rfl
      · intro he
        have hlast := congrArg List.getLast? he
        rw [List.getLast?_concat] at hlast
        cases hlast
  · exact h

/-- A displayed name does not end in a quote, so no quoted text is displayed. -/
theorem displayName_quoted {t : Text} {before source after : Text}
    (h : displayName t = before ++ '"' :: (source ++ '"' :: after))
    (ha : after.all isWhitespace = true) : displayName t = t := by
  rw [displayName] at h ⊢
  split
  · rename_i lead hlead
    split
    · rfl
    · rename_i hne
      rw [hlead] at h
      simp only [if_neg hne] at h
      have hlast := congrArg List.getLast? h
      rw [List.getLast?_concat, ← List.cons_append, ← List.append_assoc,
        List.getLast?_append_cons] at hlast
      rcases List.mem_cons.1 (List.mem_of_getLast? hlast.symm) with hc | hc
      · cases hc
      · exact absurd (List.all_eq_true.1 ha _ hc) (by decide)
  · rfl

/-- No canonical text is read back from a quoted text that it displays. -/
theorem displayName_not_quoted {t lit : Text} (ht : t = canonicalizeNamePattern lit) :
    TokenStream.new (displayName t) ≠ some [.quoted lit] := by
  intro h
  obtain ⟨before, source, after, he, hb, ha, hl, hsub⟩ := new_quoted_source h
  rw [displayName_quoted he ha] at he
  have hhead (c : Char) (rest : Text) (hc : t = c :: rest) : c = '"' ∨ isWhitespace c = true := by
    rw [he] at hc
    cases before with
    | nil => exact .inl (List.cons.inj hc).1.symm
    | cons d before =>
      rw [← (List.cons.inj hc).1]
      exact .inr (List.all_eq_true.1 hb d List.mem_cons_self)
  have hno (c : Char) (rest : Text) (hc : t = c :: rest) (hq : c ≠ '"')
      (hw : isWhitespace c = false) : False := by
    rcases hhead c rest hc with hc | hc
    · exact hq hc
    · rw [hw] at hc
      cases hc
  rw [canonicalizeNamePattern] at ht
  split at ht
  · exact hno _ _ ht (by decide) (by decide)
  · exact hno _ _ ht (by decide) (by decide)
  · exact hno _ _ ht (by decide) (by decide)
  · exact hno _ _ ht (by decide) (by decide)
  · have htilde : '~' ∉ lit := by
      intro hm
      have hmem : '~' ∈ t := by
        rw [he]
        exact List.mem_append_right _
          (List.mem_cons_of_mem _ (List.mem_append_left _ (hsub hm)))
      rw [ht] at hmem
      exact not_mem_replace (by decide) lit hmem
    rw [expandNameGlobOrExact, replace_of_not_mem _ htilde] at ht
    have hlen := congrArg List.length he
    rw [ht] at hlen
    simp only [List.length_append, List.length_cons] at hlen
    omega

theorem display_clientName {e : LocationRuleExprs R}
    (he : e.polish.parts = [.expr (.clientName name)]) :
    e.display = displayName name.pattern.pattern := by
  rw [LocationRuleExprs.display, he]

/-- A part equal to a client name is one with the same pattern. -/
theorem parts_eq_clientName {x : Exprs BooleanOperator (AtomicLocationRuleExpr R)}
    {y : Exprs BooleanOperator (AtomicLocationRuleExpr R)} (h : (x == y) = true)
    (hy : y.parts = [.expr (.clientName name)]) :
    ∃ name', x.parts = [.expr (.clientName name')] ∧
      name'.pattern.pattern = name.pattern.pattern := by
  have hp : (x.parts == y.parts) = true := h
  rw [hy] at hp
  generalize x.parts = parts at hp
  cases parts with
  | nil => cases hp
  | cons part rest =>
    rw [List.cons_beq_cons, Bool.and_eq_true] at hp
    obtain ⟨hpart, hrest⟩ := hp
    cases rest with
    | cons => cases hrest
    | nil =>
      cases part with
      | operator => cases hpart
      | expr a =>
        cases a with
        | clientName name' =>
          have hq : (name'.pattern == name.pattern) = true := hpart
          exact ⟨name', rfl, (Pattern.beq_iff.1 hq).2⟩
        | _ => cases hpart

theorem polish_beq_refl (x : Exprs BooleanOperator (AtomicLocationRuleExpr R)) :
    (x == x) = true := by
  change (x.parts == x.parts) = true
  exact beq_self_eq_true _

/-- A printed rule can be typed back, unless it is a client name that does not print as one word. -/
theorem fromStr_display_iff (hR : R.PlainSuffix) {input : Text} {e : LocationRuleExprs R}
    (h : LocationRuleExprs.fromStr R input = .ok e) :
    (∃ e', LocationRuleExprs.fromStr R e.display = .ok e' ∧ (e'.polish == e.polish) = true) ↔
      ∀ name, e.polish.parts = [.expr (.clientName name)] → Retypable name.pattern.pattern := by
  constructor
  · intro ⟨e', h', hsame⟩ name he
    have hd := display_clientName he
    have hcanonical : ∀ lit name', clientNameOf R lit = .ok name' →
        name'.pattern.pattern = name.pattern.pattern →
          name.pattern.pattern = canonicalizeNamePattern lit := by
      intro lit name' hlit hp
      rw [← hp]
      exact clientNameOf_pattern hlit
    obtain ⟨name', hparts, hp⟩ := parts_eq_clientName hsame he
    obtain ⟨-, ts, hts, hi⟩ := fromStr_ok h'
    obtain ⟨lit, hlit, hname⟩ := infix_clientName hi hparts
    have ht := hcanonical lit name' hname hp
    rw [hd] at hts
    rcases hlit with rfl | rfl
    · obtain ⟨hn, hu⟩ := new_unquoted_source hts
      rw [canonicalize_of_no_space (no_space_of_unquoted hu)] at ht
      refine ⟨?_, ?_, ?_⟩
      · rw [ht]
        exact expandName_ne_nil hn
      · rw [ht]
        exact all_expandName hu
      · intro hstar
        have hshown : e.display = text "*?" := by
          rw [hd, hstar]
          rfl
        rw [hshown] at h'
        have hany : LocationRuleExprs.fromStr R (text "*?") = .ok ⟨text "*?", .single .any⟩ := rfl
        rw [hany] at h'
        cases h'
        cases hparts
    · exact absurd hts (displayName_not_quoted ht)
  · intro hname
    by_cases he : ∃ name, e.polish.parts = [.expr (.clientName name)]
    · obtain ⟨name, he⟩ := he
      have hstored := stored_clientName h he
      have hretype := hname name he
      have hword := hretype.displayName
      have hcanonical := (clientNameOf_pattern hstored).symm
      have hread := clientNameOf_displayName hR hstored hretype.2.1 hcanonical
      rw [display_clientName he]
      refine ⟨_, fromStr_word hword.1 hword.2.1 hword.2.2 hread, ?_⟩
      have hp : e.polish = .single (.clientName name) := congrArg Exprs.mk he
      rw [hp]
      exact polish_beq_refl _
    · have hd : e.display = e.infixText := by
        rw [LocationRuleExprs.display]
        split
        · rename_i name hparts
          exact absurd ⟨name, hparts⟩ he
        · rfl
      rw [hd, (fromStr_ok h).1]
      exact ⟨e, h, polish_beq_refl _⟩

/-- The text between the anchors of an expression, without its escapes. -/
def anchoredText (regex : Text) : Bytes :=
  ((regex.drop 1).dropLast.filter (· ≠ '\\')).map Char.toUInt8

/-- An instance of the libraries to which every glob is literal text; dots and tildes are escaped
in the expression that it compiles to. -/
def literalGlobs : RegexLib where
  Regex := Text
  RegexError := Unit
  GlobError := Unit
  BuildError := Unit
  new s := .ok s
  newCaseInsensitive _ := .error ()
  escape s := s
  asStr s := s
  isMatch regex s := literalMatch (anchoredText regex) true s
  glob _ s := .ok (text "(?-u)^" ++
    s.flatMap (fun c => if c = '.' ∨ c = '~' then ['\\', c] else [c]) ++ text "$")
  dense s := .ok (literalDfa (anchoredText s) true)

theorem literalGlobs_plainSuffix : literalGlobs.PlainSuffix := fun _ _ _ => ⟨_, rfl⟩

theorem literalGlobs_validate {L : PatternInputLanguage} (hL : L.Searchable)
    (p : Pattern literalGlobs Kind) (ha : L.accepts (anchoredText p.regex) = true) :
    validateReachable L p = .ok () :=
  if_pos ((literalDfa_intersects _ hL _).2 ⟨_, ha, beq_self_eq_true _⟩)

/-- A full name is printed as its shorthand and read back from that. -/
theorem fromStr_display_iff_alice : ∃ e,
    LocationRuleExprs.fromStr literalGlobs (text "alice.dhttp.net") = .ok e ∧
      e.display = text "alice~" ∧
      ∃ e', LocationRuleExprs.fromStr literalGlobs (text "alice~") = .ok e' ∧
        (e'.polish == e.polish) = true := by
  let name : ClientNamePattern literalGlobs :=
    ⟨⟨.glob⟩, text "^alice\\.dhttp\\.net$", text "alice.dhttp.net"⟩
  have hv : validateReachable clientNameLanguage name = .ok () :=
    literalGlobs_validate PatternInputLanguage.searchable_clientName name (by decide)
  have hf : ClientNamePattern.fromStr literalGlobs (text "alice.dhttp.net") = .ok name := by
    change (validateReachable clientNameLanguage name).mapError _ >>= _ = _
    rw [hv]
    rfl
  have hname : clientNameOf literalGlobs (text "alice.dhttp.net") = .ok ⟨name⟩ := by
    change (ClientNamePattern.fromStr literalGlobs (text "alice.dhttp.net")).mapError _ >>= _ = _
    rw [hf]
    change (ClientName.new name).mapError _ = _
    rw [ClientName.new, hv]
    rfl
  have h := fromStr_word (by decide) (by decide) (by decide) hname
  refine ⟨_, h, rfl, (fromStr_display_iff literalGlobs_plainSuffix h).2 ?_⟩
  intro found he
  cases he
  exact ⟨by decide, by decide, by decide⟩

theorem literalClientName (word : Text) (hw : word.all isWordChar = true)
    (ha : clientNameLanguage.accepts (Literal.bytes ⟨word, true⟩) = true) :
    clientNameOf literalLib (text "= " ++ word) =
      .ok ⟨(literalPattern word).mapKind .mk⟩ := by
  have hp := literalPattern_fromStr word hw
  have hword : '~' ∉ word := by
    intro hm
    exact absurd (List.all_eq_true.1 hw _ hm) (by decide)
  have hc : canonicalizeNamePattern (text "= " ++ word) = text "= " ++ word := by
    change text "= " ++ expandNameGlobOrExact word = _
    rw [expandNameGlobOrExact, replace_of_not_mem _ hword]
  have hv : validateReachable clientNameLanguage
      ((literalPattern word).mapKind ClientNamePatternKind.mk) = .ok () :=
    literal_validate PatternInputLanguage.searchable_clientName _ hw ha
  have hf : ClientNamePattern.fromStr literalLib (text "= " ++ word) =
      .ok ((literalPattern word).mapKind .mk) := by
    rw [ClientNamePattern.fromStr, namePatternFromStr, hc, hp]
    change (validateReachable _ _).mapError _ >>= _ = _
    rw [hv]
    rfl
  rw [clientNameOf, patternOf, hp]
  change (ClientNamePattern.fromStr literalLib (text "= " ++ word)).mapError _ >>= _ = _
  rw [hf]
  change (ClientName.new _).mapError _ = _
  rw [ClientName.new, hv]
  rfl

/-- The exact name of one client, quoted, prints as two words. -/
theorem fromStr_display_quoted : ∃ e,
    LocationRuleExprs.fromStr literalLib (text "\"= alice\"") = .ok e ∧
      ¬ ∃ e', LocationRuleExprs.fromStr literalLib e.display = .ok e' ∧
        (e'.polish == e.polish) = true := by
  obtain ⟨name, hname, hpattern⟩ : ∃ name, clientNameOf literalLib (text "= alice") = .ok name ∧
      name.pattern.pattern = text "= alice" :=
    ⟨_, literalClientName (text "alice") (by decide) (by decide), rfl⟩
  have hts : TokenStream.new (text "\"= alice\"") = some [.quoted (text "= alice")] := by decide
  have hprofile : (locationProfile literalLib).read [.quoted (text "= alice")] =
      some (.ok (.clientName name), []) := by
    refine (orElse_read_none rfl).trans ?_
    rw [clientNameAtom, clientName, map_read, map_read]
    change some (Except.map _ (clientNameOf literalLib (text "= alice")), _) = _
    rw [hname]
    rfl
  have h : LocationRuleExprs.fromStr literalLib (text "\"= alice\"") =
      .ok ⟨text "\"= alice\"", .single (.clientName name)⟩ := by
    rw [LocationRuleExprs.fromStr, hts]
    simp only [infixLocationRuleExprs, hprofile]
    rfl
  refine ⟨_, h, ?_⟩
  intro hread
  obtain ⟨e', h', -⟩ := hread
  rw [display_clientName rfl, hpattern] at h'
  cases h'

end Display

end Dhttp.Access
