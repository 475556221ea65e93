import Dhttp.Lib.Fallible
import Dhttp.Lib.TextSplitting
import Dhttp.Access.Reachability

namespace Dhttp.Access
open Dhttp.Lib
set_option autoImplicit true

/-- The regular-expression, glob and automaton libraries that patterns are built with. `glob`
gives the regular expression of a glob, case-insensitive or not, and `dense` the DFA of one. -/
structure RegexLib where
  Regex : Type
  RegexError : Type
  GlobError : Type
  BuildError : Type
  new : Text → Except RegexError Regex
  newCaseInsensitive : Text → Except RegexError Regex
  escape : Text → Text
  asStr : Regex → Text
  isMatch : Regex → Bytes → Bool
  glob : Bool → Text → Except GlobError Text
  dense : Text → Except BuildError Dfa

inductive NormalPatternKind where
  | exact
  | glob
  | regex
  deriving Repr, DecidableEq

structure ClientNamePatternKind where
  kind : NormalPatternKind
  deriving Repr, DecidableEq

structure DomainPatternKind where
  kind : NormalPatternKind
  deriving Repr, DecidableEq

inductive LocationPatternKind where
  | exact
  | literalPrefix
  | regex
  | normalPrefix
  | common
  deriving Repr, DecidableEq

def LocationPatternKind.priority : LocationPatternKind → Nat
  | .exact => 0
  | .literalPrefix => 1
  | .regex => 2
  | .normalPrefix => 3
  | .common => 4

variable (R : RegexLib)

structure Pattern (Kind : Type) where
  kind : Kind
  regex : R.Regex
  pattern : Text

abbrev NormalPattern := Pattern R NormalPatternKind

abbrev LocationPattern := Pattern R LocationPatternKind

abbrev ClientNamePattern := Pattern R ClientNamePatternKind

abbrev DomainPattern := Pattern R DomainPatternKind

inductive ReachabilityError where
  | compilePattern (pattern : Text) (source : R.BuildError)
  | emptyIntersection (domain : String) (pattern : Text)

inductive ParsePatternError where
  | invalidRegex (pattern : Text) (source : R.RegexError)
  | invalidGlob (source : R.GlobError)
  | unreachable (source : ReachabilityError R)

inductive ParseLocationPatternError where
  | unknownSymbol (symbol : Text) (expect : List Text)
  | invalidRegex (pattern : Text) (source : R.RegexError)
  | undefinedPrefixOrCommon (lead : Text)
  | unreachable (source : ReachabilityError R)

variable {R}

def Pattern.isMatch (p : Pattern R Kind) (s : Bytes) : Bool := R.isMatch p.regex s

def Pattern.mapKind (f : Kind → Kind') (p : Pattern R Kind) : Pattern R Kind' :=
  ⟨f p.kind, p.regex, p.pattern⟩

def validateReachable (L : PatternInputLanguage) (p : Pattern R Kind) :
    Except (ReachabilityError R) Unit :=
  match R.dense (R.asStr p.regex) with
  | .error source => .error (.compilePattern p.pattern source)
  | .ok dfa =>
    if dfa.intersects L then .ok () else .error (.emptyIntersection L.label p.pattern)

variable (R)

def globToRegex (glob : Text) : Except R.RegexError R.Regex :=
  R.new ((stripPrefix (text "(?-u)") glob).getD glob)

/-- The two ways a glob is compiled, with its errors. -/
def globPattern (caseInsensitive : Bool) (pattern : Text) :
    Except (ParsePatternError R) R.Regex :=
  match R.glob caseInsensitive pattern with
  | .error source => .error (.invalidGlob source)
  | .ok glob => (globToRegex R glob).mapError (.invalidRegex pattern)

def exactRegex (pattern : Text) : Except R.RegexError R.Regex :=
  R.new (text "^" ++ R.escape pattern ++ text "$")

def prefixRegex (pattern : Text) : Except R.RegexError R.Regex :=
  R.new (text "^" ++ R.escape pattern)

def NormalPattern.fromStr (pattern : Text) : Except (ParsePatternError R) (NormalPattern R) :=
  match splitOnce ' ' pattern with
  | some (['='], pat) =>
    ((exactRegex R pat).mapError (.invalidRegex pat)).map fun regex => ⟨.exact, regex, pattern⟩
  | some (['*'], pat) => (globPattern R true pat).map fun regex => ⟨.glob, regex, pattern⟩
  | some (['~'], pat) =>
    ((R.new pat).mapError (.invalidRegex pat)).map fun regex => ⟨.regex, regex, pattern⟩
  | some (['~', '*'], pat) =>
    ((R.newCaseInsensitive pat).mapError (.invalidRegex pat)).map fun regex =>
      ⟨.regex, regex, pattern⟩
  | _ => (globPattern R false pattern).map fun regex => ⟨.glob, regex, pattern⟩

/-- The `match` of `from_str`, before reachability is checked. -/
def LocationPattern.compile (pattern : Text) :
    Except (ParseLocationPatternError R) (LocationPattern R) :=
  match splitOnce ' ' pattern with
  | none =>
    if pattern = text "/" then
      ((R.new (text "^/")).mapError (.invalidRegex pattern)).map fun regex =>
        ⟨.common, regex, pattern⟩
    else if (text "/").isPrefixOf pattern then
      ((prefixRegex R pattern).mapError (.invalidRegex pattern)).map fun regex =>
        ⟨.normalPrefix, regex, pattern⟩
    else .error (.undefinedPrefixOrCommon (text "/"))
  | some (['='], pat) =>
    ((exactRegex R pat).mapError (.invalidRegex pat)).map fun regex => ⟨.exact, regex, pattern⟩
  | some (['^', '~'], pat) =>
    ((prefixRegex R pat).mapError (.invalidRegex pat)).map fun regex =>
      ⟨.literalPrefix, regex, pattern⟩
  | some (['~'], pat) =>
    ((R.new pat).mapError (.invalidRegex pat)).map fun regex => ⟨.regex, regex, pattern⟩
  | some (['~', '*'], pat) =>
    ((R.newCaseInsensitive pat).mapError (.invalidRegex pat)).map fun regex =>
      ⟨.regex, regex, pattern⟩
  | some (symbol, _) =>
    .error (.unknownSymbol symbol [text "=", text "^~", text "~", text "~*"])

def LocationPattern.fromStr (pattern : Text) :
    Except (ParseLocationPatternError R) (LocationPattern R) := do
  let pattern ← LocationPattern.compile R pattern
  (validateReachable locationPathLanguage pattern).mapError .unreachable
  return pattern

def dhttpSuffix : Text := text ".dhttp.net"

def expandNameGlobOrExact (input : Text) : Text := replace '~' dhttpSuffix input

def expandNameRegex (input : Text) : Text := replace '~' (text "\\.dhttp\\.net") input

def canonicalizeNamePattern (pattern : Text) : Text :=
  match splitOnce ' ' pattern with
  | some (['~'], regex) => text "~ " ++ expandNameRegex regex
  | some (['~', '*'], regex) => text "~* " ++ expandNameRegex regex
  | some (['='], exact) => text "= " ++ expandNameGlobOrExact exact
  | some (['*'], glob) => text "* " ++ expandNameGlobOrExact glob
  | _ => expandNameGlobOrExact pattern

/-- Client-name and domain patterns differ in their kind and their language only. -/
def namePatternFromStr (wrap : NormalPatternKind → Kind) (L : PatternInputLanguage) (s : Text) :
    Except (ParsePatternError R) (Pattern R Kind) := do
  let pattern ← (NormalPattern.fromStr R (canonicalizeNamePattern s)).map (Pattern.mapKind wrap)
  (validateReachable L pattern).mapError .unreachable
  return pattern

def ClientNamePattern.fromStr (s : Text) : Except (ParsePatternError R) (ClientNamePattern R) :=
  namePatternFromStr R .mk clientNameLanguage s

def DomainPattern.fromStr (s : Text) : Except (ParsePatternError R) (DomainPattern R) :=
  namePatternFromStr R .mk domainNameLanguage s

variable {R}

theorem NormalPattern.fromStr_pattern (h : NormalPattern.fromStr R s = .ok p) : p.pattern = s := by
  rw [fromStr] at h
  split at h <;>
  · obtain ⟨regex, -, rfl⟩ := ok_of_map h
    rfl

theorem LocationPattern.compile_pattern (h : LocationPattern.compile R s = .ok p) :
    p.pattern = s := by
  rw [compile] at h
  split at h
  · split at h
    · obtain ⟨regex, -, rfl⟩ := ok_of_map h
      rfl
    · split at h
      · obtain ⟨regex, -, rfl⟩ := ok_of_map h
        rfl
      · cases h
  all_goals
    first
    | cases h
    | obtain ⟨regex, -, rfl⟩ := ok_of_map h
      rfl

theorem canonicalize_of_not_mem (h : '~' ∉ s) : canonicalizeNamePattern s = s := by
  have hx {before after : Text} (hs : splitOnce ' ' s = some (before, after)) :
      '~' ∉ before ∧ '~' ∉ after ∧ before ++ ' ' :: after = s := by
    obtain ⟨-, rfl⟩ := splitOnce_eq_some.1 hs
    simp only [List.mem_append, List.mem_cons, not_or] at h
    exact ⟨h.1, h.2.2, rfl⟩
  rw [canonicalizeNamePattern]
  split
  · rename_i hs
    exact absurd (List.mem_singleton_self _) (hx hs).1
  · rename_i hs
    exact absurd (List.mem_cons_self ..) (hx hs).1
  · rename_i hs
    obtain ⟨-, ha, he⟩ := hx hs
    rw [expandNameGlobOrExact, replace_of_not_mem _ ha]
    exact he
  · rename_i hs
    obtain ⟨-, ha, he⟩ := hx hs
    rw [expandNameGlobOrExact, replace_of_not_mem _ ha]
    exact he
  · exact replace_of_not_mem _ h

theorem canonicalize_regex (t : Text) :
    canonicalizeNamePattern (text "~ " ++ t) = text "~ " ++ expandNameRegex t := rfl

theorem canonicalize_caseInsensitiveRegex (t : Text) :
    canonicalizeNamePattern (text "~* " ++ t) = text "~* " ++ expandNameRegex t := rfl

/-- Reading a canonical name pattern again expands nothing. -/
theorem canonicalize_canonicalize (s : Text) :
    canonicalizeNamePattern (canonicalizeNamePattern s) = canonicalizeNamePattern s := by
  have hr (t : Text) : expandNameRegex (expandNameRegex t) = expandNameRegex t :=
    replace_of_not_mem _ (not_mem_replace (by decide) t)
  have hg (t : Text) : '~' ∉ expandNameGlobOrExact t := not_mem_replace (by decide) t
  rw [canonicalizeNamePattern.eq_def s]
  split
  · rw [canonicalize_regex, hr]
  · rw [canonicalize_caseInsensitiveRegex, hr]
  · refine canonicalize_of_not_mem ?_
    rw [List.mem_append, not_or]
    exact ⟨by decide, hg _⟩
  · refine canonicalize_of_not_mem ?_
    rw [List.mem_append, not_or]
    exact ⟨by decide, hg _⟩
  · exact canonicalize_of_not_mem (hg s)

/-- An accepted name pattern is stored under its canonical text, which is accepted again. -/
theorem namePatternFromStr_stored {wrap : NormalPatternKind → Kind}
    (h : namePatternFromStr R wrap L s = .ok p) :
    namePatternFromStr R wrap L p.pattern = .ok p ∧
      ∃ q, NormalPattern.fromStr R p.pattern = .ok q ∧ q.pattern = p.pattern := by
  have h' := h
  rw [namePatternFromStr] at h
  obtain ⟨p', hp, h⟩ := ok_of_bind h
  obtain ⟨q, hq, rfl⟩ := ok_of_map hp
  obtain ⟨-, -, h⟩ := ok_of_bind h
  cases h
  have hs : q.pattern = canonicalizeNamePattern s := NormalPattern.fromStr_pattern hq
  have hc : (q.mapKind wrap).pattern = canonicalizeNamePattern s := hs
  refine ⟨?_, q, ?_, rfl⟩
  · rw [← h', hc, namePatternFromStr, canonicalize_canonicalize, ← namePatternFromStr]
  · rw [hc, hq]

end Dhttp.Access
