import Dhttp.Access.Patterns
import Dhttp.Access.StackMachine

namespace Dhttp.Access
open Dhttp.Lib
set_option autoImplicit true

section Types

variable (R : RegexLib)

inductive BuildAtomicPatternError where
  | unreachable (domain : String) (source : ReachabilityError R)

structure ClientName where
  pattern : ClientNamePattern R

structure Method where
  pattern : NormalPattern R

structure KVPattern where
  key : NormalPattern R
  value : NormalPattern R

structure Header where
  pattern : KVPattern R

structure Query where
  pattern : KVPattern R

inductive AtomicLocationRuleExpr where
  | any
  | clientName (pattern : ClientName R)
  | method (method : Method R)
  | header (header : Header R)
  | query (query : Query R)

end Types

variable {R : RegexLib}

def ClientName.new (pattern : ClientNamePattern R) :
    Except (BuildAtomicPatternError R) (ClientName R) := do
  (validateReachable clientNameLanguage pattern).mapError (.unreachable "client name")
  return ⟨pattern⟩

def Method.new (pattern : NormalPattern R) : Except (BuildAtomicPatternError R) (Method R) := do
  (validateReachable httpMethodLanguage pattern).mapError (.unreachable "HTTP method")
  return ⟨pattern⟩

/-- `KL` and `VL` are the languages of the keys and of the values. -/
def KVPattern.new (KL VL : PatternInputLanguage) (key value : NormalPattern R) :
    Except (BuildAtomicPatternError R) (KVPattern R) := do
  (validateReachable KL key).mapError (.unreachable KL.label)
  (validateReachable VL value).mapError (.unreachable VL.label)
  return ⟨key, value⟩

def KVPattern.newHeader (key value : NormalPattern R) :
    Except (BuildAtomicPatternError R) (KVPattern R) :=
  KVPattern.new headerNameLanguage headerValueLanguage key value

def KVPattern.newQuery (key value : NormalPattern R) :
    Except (BuildAtomicPatternError R) (KVPattern R) :=
  KVPattern.new queryKeyLanguage queryValueLanguage key value

theorem validated_of_mapError {x : Except ε Unit} {f : ε → ε'} {b : β} {g : Unit → Except ε' β}
    (h : x.mapError f >>= g = .ok b) : x = .ok () ∧ g () = .ok b := by
  obtain ⟨u, hu, hg⟩ := ok_of_bind h
  exact ⟨ok_of_mapError hu, hg⟩

theorem KVPattern.new_validated {KL VL : PatternInputLanguage} {key value : NormalPattern R}
    (h : KVPattern.new KL VL key value = .ok p) :
    validateReachable KL key = .ok () ∧ validateReachable VL value = .ok () ∧
      p = ⟨key, value⟩ := by
  rw [KVPattern.new] at h
  obtain ⟨hk, h⟩ := validated_of_mapError h
  obtain ⟨hv, h⟩ := validated_of_mapError h
  cases h
  exact ⟨hk, hv, rfl⟩

/-- The bytes of a path; the `http` crate admits 0x22, 0x7B and 0x7D as well. -/
def isHttpPathByte (b : UInt8) : Bool :=
  b == 0x21 || (0x24 ≤ b && b ≤ 0x3B) || b == 0x3D || (0x40 ≤ b && b ≤ 0x5F) ||
    (0x61 ≤ b && b ≤ 0x7A) || b == 0x7C || b == 0x7E

/-- The bytes of a query. -/
def isHttpQueryByte (b : UInt8) : Bool :=
  b == 0x21 || (0x24 ≤ b && b ≤ 0x3B) || b == 0x3D || (0x3F ≤ b && b ≤ 0x7E)

def isToken (chars s : Bytes) : Bool := !s.isEmpty && s.all chars.contains

def lowercaseTchars : Bytes := tchars.filter (!isAsciiUppercase ·)

def isHeaderValueByte (b : UInt8) : Bool := (0x20 ≤ b && b != 0x7F) || b == 0x09

/-- A request as the `http` crate can hold it; header names and values in iteration order. -/
structure Request where
  method : Bytes
  path : Bytes
  query : Option Bytes
  headers : List (Bytes × Bytes)
  method_token : isToken tchars method = true
  path_bytes : path.head? = some '/'.toUInt8 ∧ path.all isHttpPathByte = true
  query_bytes : ∀ q ∈ query, q.all isHttpQueryByte = true
  header_bytes : ∀ h ∈ headers, isToken lowercaseTchars h.1 = true ∧
    h.2.all isHeaderValueByte = true

/-- A request with the given method, header and query. -/
def Request.sample (method : Bytes) (query : Option Bytes) (headers : List (Bytes × Bytes))
    (hm : isToken tchars method = true) (hq : ∀ q ∈ query, q.all isHttpQueryByte = true)
    (hh : ∀ h ∈ headers, isToken lowercaseTchars h.1 = true ∧ h.2.all isHeaderValueByte = true) :
    Request where
  method := method
  path := asciiBytes "/"
  query := query
  headers := headers
  method_token := hm
  path_bytes := ⟨rfl, rfl⟩
  query_bytes := hq
  header_bytes := hh

structure HttpRequest where
  clientName : Option Bytes
  method : Bytes
  headers : List (Bytes × Bytes)
  queries : List (Bytes × Bytes)
  deriving Repr, DecidableEq

def splitPair (pair : Bytes) : Bytes × Bytes := (splitOnce '='.toUInt8 pair).getD (pair, [])

def splitQuery (q : Bytes) : List (Bytes × Bytes) := (splitAll '&'.toUInt8 q).map splitPair

def HttpRequest.new (clientName : Option Bytes) (request : Request) : HttpRequest where
  clientName := clientName
  method := request.method
  headers := request.headers
  queries := match request.query with
    | none => []
    | some q => splitQuery q

/-- `HeaderValue::to_str`: visible ASCII and tabs only. -/
def toStr (value : Bytes) : Option Bytes :=
  if value.all fun b => (0x20 ≤ b && b < 0x7F) || b == 0x09 then some value else none

def ClientName.eval (pattern : ClientName R) : Option Bytes → Except EvalError Bool
  | none => .error .missingClientName
  | some clientName => .ok (pattern.pattern.isMatch clientName)

def Method.eval (method : Method R) (m : Bytes) : Bool := method.pattern.isMatch m

def KVPattern.eval (pattern : KVPattern R) (pair : Bytes × Bytes) : Bool :=
  pattern.key.isMatch pair.1 && pattern.value.isMatch pair.2

def Header.eval (header : Header R) (pair : Bytes × Bytes) : Bool :=
  match toStr pair.2 with
  | none => false
  | some value => header.pattern.eval (pair.1, value)

def Query.eval (query : Query R) (pair : Bytes × Bytes) : Bool := query.pattern.eval pair

def AtomicLocationRuleExpr.eval (request : HttpRequest) :
    AtomicLocationRuleExpr R → Except EvalError Bool
  | .any => .ok true
  | .clientName c => c.eval request.clientName
  | .method m => .ok (m.eval request.method)
  | .header h => .ok (request.headers.any h.eval)
  | .query q => .ok (request.queries.any q.eval)

def escapeText (pattern : Text) : Text :=
  replace '"' (text "\\\"") (replace '\\' (text "\\\\") pattern)

def escapePattern (pat : Pattern R Kind) : Text := escapeText pat.pattern

def toQuotedEscapedPattern (pat : Pattern R Kind) : Text :=
  text "\"" ++ escapePattern pat ++ text "\""

def toQuotedEscapedKvPattern (pat : KVPattern R) : Text :=
  text "\"" ++ escapePattern pat.key ++ text "\":\"" ++ escapePattern pat.value ++ text "\""

def BooleanOperator.display : BooleanOperator → Text
  | .and => text "AND"
  | .or => text "OR"
  | .not => text "NOT"

def AtomicLocationRuleExpr.display : AtomicLocationRuleExpr R → Text
  | .any => text "*?"
  | .clientName c => toQuotedEscapedPattern c.pattern
  | .method m => text "With Method " ++ toQuotedEscapedPattern m.pattern
  | .header h => text "With Header " ++ toQuotedEscapedKvPattern h.pattern
  | .query q => text "With Query " ++ toQuotedEscapedKvPattern q.pattern

def Part.display (operator : Operator → Text) (expr : Expr → Text) : Part Operator Expr → Text
  | .operator op => operator op
  | .expr e => expr e

end Dhttp.Access
