import Dhttp.Access.Atoms

namespace Dhttp.Access
open Dhttp.Lib
set_option autoImplicit true

inductive Token where
  | unquoted (s : Text)
  | quoted (s : Text)
  | symbol (c : Char)
  deriving Repr, DecidableEq

/-- `char::is_whitespace`: the Unicode property `White_Space`. -/
def isWhitespace (c : Char) : Bool :=
  (0x09 ≤ c.toNat && c.toNat ≤ 0x0D) || (0x2000 ≤ c.toNat && c.toNat ≤ 0x200A) ||
    [0x20, 0x85, 0xA0, 0x1680, 0x2028, 0x2029, 0x202F, 0x205F, 0x3000].contains c.toNat

def isUnquotedChar (c : Char) : Bool := !(isWhitespace c || [':', '(', ')', '"'].contains c)

/-- `quoted_char()*`, greedy, with the escapes tried first. -/
def quotedChars : Text → Text × Text
  | [] => ([], [])
  | '\\' :: '"' :: rest => let p := quotedChars rest; ('"' :: p.1, p.2)
  | '\\' :: '\\' :: rest => let p := quotedChars rest; ('\\' :: p.1, p.2)
  | c :: rest =>
    if c = '"' then ([], c :: rest)
    else let p := quotedChars rest; (c :: p.1, p.2)

def quotedString : Text → Option (Token × Text)
  | '"' :: rest =>
    match quotedChars rest with
    | (chars, '"' :: rest) => some (.quoted chars, rest)
    | _ => none
  | _ => none

def unquotedString (source : Text) : Option (Token × Text) :=
  match source.takeWhile isUnquotedChar with
  | [] => none
  | c :: s => some (.unquoted (c :: s), source.dropWhile isUnquotedChar)

def symbol : Text → Option (Token × Text)
  | c :: rest => if ['(', ')', ':'].contains c then some (.symbol c, rest) else none
  | [] => none

def token (source : Text) : Option (Token × Text) :=
  quotedString source <|> unquotedString source <|> symbol source

/-- Tokens with white space around them, up to the end of the source. -/
def tokens : Nat → Text → Option (List Token)
  | 0, _ => none
  | fuel + 1, source =>
    match source.dropWhile isWhitespace with
    | [] => some []
    | c :: source =>
      match token (c :: source) with
      | none => none
      | some (t, rest) => (tokens fuel rest).map (t :: ·)

def TokenStream.new (source : Text) : Option (List Token) := tokens (source.length + 1) source

theorem quotedChars_plain (hq : c ≠ '"') (hb : c ≠ '\\') (rest : Text) :
    quotedChars (c :: rest) = (c :: (quotedChars rest).1, (quotedChars rest).2) := by
  rw [quotedChars]
  · exact if_neg hq
  · exact fun _ h => absurd h hb
  · exact fun _ h => absurd h hb

theorem quotedChars_length (s : Text) : (quotedChars s).2.length ≤ s.length := by
  fun_induction quotedChars s with
  | case1 => exact Nat.le_refl _
  | case2 rest p ih => exact Nat.le_trans ih (Nat.le_add_right _ 2)
  | case3 rest p ih => exact Nat.le_trans ih (Nat.le_add_right _ 2)
  | case4 => exact Nat.le_refl _
  | case5 c rest _ _ _ p ih => exact Nat.le_trans ih (Nat.le_succ _)

theorem token_length (h : token s = some (t, rest)) : rest.length < s.length := by
  simp only [token, Option.orElse_eq_orElse, Option.orElse_eq_or, Option.or_eq_some_iff] at h
  rcases h with h | ⟨-, h | ⟨-, h⟩⟩
  · rw [quotedString.eq_def] at h
    split at h
    · rename_i rest'
      split at h
      · rename_i hq
        have hl := quotedChars_length rest'
        rw [hq] at hl
        cases h
        exact Nat.le_trans hl (Nat.le_succ _)
      · cases h
    · cases h
  · rw [unquotedString] at h
    split at h
    · cases h
    · rename_i c s' hs
      have hl := congrArg List.length (List.takeWhile_append_dropWhile (p := isUnquotedChar)
        (l := s))
      rw [hs, List.length_append, List.length_cons] at hl
      cases h
      omega
  · rw [symbol.eq_def] at h
    split at h
    · split at h
      · cases h
        exact Nat.lt_succ_self _
      · cases h
    · cases h

theorem tokens_stable (h : source.length < fuel) : tokens fuel source = TokenStream.new source := by
  suffices ∀ fuel source, source.length < fuel → tokens fuel source = tokens (fuel + 1) source by
    rw [TokenStream.new]
    induction h with
    | refl => rfl
    | step h ih => rw [← this _ source h, ih]
  clear h
  intro fuel
  induction fuel with
  | zero => exact fun _ h => absurd h (Nat.not_lt_zero _)
  | succ fuel ih =>
    intro source h
    have hd := (List.dropWhile_sublist (l := source) isWhitespace).length_le
    rw [tokens, tokens]
    split
    · rfl
    · rename_i hs
      split
      · rfl
      · rename_i ht
        have hl := token_length ht
        rw [hs] at hd
        rw [ih _ (by omega)]

/-- A token stream is one token after the white space, and the stream of the rest. -/
theorem TokenStream.new_eq (source : Text) : TokenStream.new source =
    match source.dropWhile isWhitespace with
    | [] => some []
    | c :: source =>
      match token (c :: source) with
      | none => none
      | some (t, rest) => (TokenStream.new rest).map (t :: ·) := by
  have hd := (List.dropWhile_sublist (l := source) isWhitespace).length_le
  rw [TokenStream.new, tokens]
  split
  · rfl
  · rename_i hs
    split
    · rfl
    · rename_i ht
      have hl := token_length ht
      rw [hs] at hd
      rw [tokens_stable (by omega)]

theorem TokenStream.new_space (hc : isWhitespace c = true) (rest : Text) :
    TokenStream.new (c :: rest) = TokenStream.new rest := by
  rw [TokenStream.new_eq, TokenStream.new_eq rest, List.dropWhile_cons_of_pos hc]

theorem TokenStream.new_token (hc : isWhitespace c = false)
    (ht : token (c :: source) = some (t, rest)) :
    TokenStream.new (c :: source) = (TokenStream.new rest).map (t :: ·) := by
  rw [TokenStream.new_eq, List.dropWhile_cons_of_neg (by simp [hc])]
  simp only [ht]

theorem escapeText_cons (c : Char) (s : Text) :
    escapeText (c :: s) =
      (if c = '\\' then text "\\\\" else if c = '"' then text "\\\"" else [c]) ++ escapeText s := by
  simp only [escapeText, replace_cons, replace_append]
  congr 1
  split
  · rfl
  · simp only [replace_cons, replace_nil, List.append_nil]

/-- The lexer undoes the escaping of a quoted text. -/
theorem quotedChars_escapeText (s rest : Text) :
    quotedChars (escapeText s ++ '"' :: rest) = (s, '"' :: rest) := by
  induction s with
  | nil => rfl
  | cons c s ih =>
    rw [escapeText_cons, List.append_assoc]
    split
    · subst_vars
      change quotedChars ('\\' :: '\\' :: (escapeText s ++ '"' :: rest)) = _
      rw [quotedChars, ih]
    · split
      · subst_vars
        change quotedChars ('\\' :: '"' :: (escapeText s ++ '"' :: rest)) = _
        rw [quotedChars, ih]
      · rename_i hb hq
        rw [List.singleton_append, quotedChars_plain hq hb, ih]

/-- How a token is written. -/
def Token.spelling : Token → Text
  | .unquoted s => s
  | .quoted s => '"' :: (escapeText s ++ ['"'])
  | .symbol c => [c]

theorem TokenStream.new_quoted (s rest : Text) :
    TokenStream.new ((Token.quoted s).spelling ++ rest) =
      (TokenStream.new rest).map (.quoted s :: ·) := by
  rw [Token.spelling, List.cons_append, List.append_assoc, List.singleton_append]
  refine TokenStream.new_token rfl ?_
  rw [token, quotedString, quotedChars_escapeText]
  rfl

theorem TokenStream.new_symbol (hc : ['(', ')', ':'].contains c = true) (rest : Text) :
    TokenStream.new ((Token.symbol c).spelling ++ rest) =
      (TokenStream.new rest).map (.symbol c :: ·) := by
  rw [Token.spelling, List.singleton_append]
  rcases (by simpa using hc : c = '(' ∨ c = ')' ∨ c = ':') with rfl | rfl | rfl <;>
    exact TokenStream.new_token rfl rfl

theorem TokenStream.new_unquoted (hs : s ≠ []) (hu : s.all isUnquotedChar = true)
    (hr : ∀ c ∈ rest.head?, isUnquotedChar c = false) :
    TokenStream.new ((Token.unquoted s).spelling ++ rest) =
      (TokenStream.new rest).map (.unquoted s :: ·) := by
  obtain ⟨c, s, rfl⟩ := List.exists_cons_of_ne_nil hs
  have hc : isUnquotedChar c = true := (List.all_eq_true.1 hu) c (List.mem_cons_self ..)
  have ht : (c :: s ++ rest).takeWhile isUnquotedChar = c :: s := by
    rw [List.takeWhile_append_of_pos (List.all_eq_true.1 hu)]
    cases rest with
    | nil => simp
    | cons d rest => simp [hr d rfl]
  have hd : (c :: s ++ rest).dropWhile isUnquotedChar = rest := by
    rw [List.dropWhile_append_of_pos (List.all_eq_true.1 hu)]
    cases rest with
    | nil => rfl
    | cons d rest => simp [hr d rfl]
  simp only [isUnquotedChar, Bool.not_eq_true', Bool.or_eq_false_iff] at hc
  refine TokenStream.new_token hc.1 ?_
  have hq : quotedString (c :: s ++ rest) = none := by
    rw [List.cons_append, quotedString]
    intro rest' he
    rw [(List.cons.inj he).1] at hc
    exact absurd hc.2 (by decide)
  change token (c :: s ++ rest) = _
  rw [token, hq, unquotedString, ht, hd]
  rfl

def Token.spellable : Token → Bool
  | .unquoted s => !s.isEmpty && s.all isUnquotedChar
  | .quoted _ => true
  | .symbol c => ['(', ')', ':'].contains c

theorem TokenStream.new_spelling {t : Token} (ht : t.spellable = true)
    (hr : ∀ c ∈ rest.head?, isUnquotedChar c = false) :
    TokenStream.new (t.spelling ++ rest) = (TokenStream.new rest).map (t :: ·) := by
  cases t with
  | unquoted s =>
    rw [Token.spellable, Bool.and_eq_true, Bool.not_eq_true', List.isEmpty_eq_false_iff] at ht
    exact TokenStream.new_unquoted ht.1 ht.2 hr
  | quoted s => exact TokenStream.new_quoted s rest
  | symbol c => exact TokenStream.new_symbol ht rest

/-- Tokens written one after the other, a space after each. -/
def spell (ts : List Token) : Text := ts.flatMap fun t => t.spelling ++ [' ']

/-- The lexer inverts the spelling of a token stream. -/
theorem TokenStream.new_spell (h : ∀ t ∈ ts, Token.spellable t = true) :
    TokenStream.new (spell ts) = some ts := by
  induction ts with
  | nil => rfl
  | cons t ts ih =>
    have hs : spell (t :: ts) = t.spelling ++ ' ' :: spell ts := by
      rw [spell, List.flatMap_cons, List.append_assoc]
      rfl
    rw [hs, TokenStream.new_spelling (h t (List.mem_cons_self ..)) (by rintro c ⟨⟩; rfl),
      TokenStream.new_space rfl, ih fun u hu => h u (List.mem_cons_of_mem t hu)]
    rfl

end Dhttp.Access
