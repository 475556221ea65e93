import Mathlib.Data.Fintype.Prod
import Mathlib.Data.Finite.Prod
import Dhttp.Lib.GraphSearch

namespace Dhttp.Access
open Dhttp.Lib
set_option autoImplicit true

/-- Pattern texts are lists of characters, the strings of a request lists of bytes. -/
abbrev Text := List Char

abbrev Bytes := List UInt8

def text (s : String) : Text := s.toList

def asciiBytes (s : String) : Bytes := s.toList.map Char.toUInt8

structure DomainState where
  kind : UInt16
  len : UInt16
  flags : UInt16
  deriving Repr, DecidableEq

instance : Finite DomainState :=
  Finite.of_injective (fun s : DomainState => (s.kind.toFin, s.len.toFin, s.flags.toFin)) (by
    rintro ⟨a, b, c⟩ ⟨a', b', c'⟩ h
    simp only [Prod.mk.injEq, UInt16.toFin_inj] at h
    obtain ⟨rfl, rfl, rfl⟩ := h
    rfl)

/-- `u16::checked_add(1)`. -/
def checkedSucc (n : UInt16) : Option UInt16 :=
  if n = 65535 then none else some (n + 1)

structure PatternInputLanguage where
  label : String
  start : DomainState
  step : DomainState → UInt8 → Option DomainState
  isAccept : DomainState → Bool
  alphabet : Bytes

namespace PatternInputLanguage

variable (L : PatternInputLanguage)

def run (state : DomainState) : Bytes → Option DomainState
  | [] => some state
  | byte :: input =>
    match L.step state byte with
    | none => none
    | some next => run next input

/-- The state accepts the rest of the input. -/
def acceptsFrom (state : DomainState) (input : Bytes) : Bool :=
  match L.run state input with
  | none => false
  | some final => L.isAccept final

def accepts (input : Bytes) : Bool := L.acceptsFrom L.start input

end PatternInputLanguage

def isAsciiDigit (byte : UInt8) : Bool := 0x30 ≤ byte && byte ≤ 0x39

def isAsciiUppercase (byte : UInt8) : Bool := 0x41 ≤ byte && byte ≤ 0x5A

def isAsciiLowercase (byte : UInt8) : Bool := 0x61 ≤ byte && byte ≤ 0x7A

def isAsciiAlphanumeric (byte : UInt8) : Bool :=
  isAsciiDigit byte || isAsciiUppercase byte || isAsciiLowercase byte

def isAsciiHexdigit (byte : UInt8) : Bool :=
  isAsciiDigit byte || (0x41 ≤ byte && byte ≤ 0x46) || (0x61 ≤ byte && byte ≤ 0x66)

def tchars : Bytes :=
  asciiBytes "!#$%&'*+-.^_`|~0123456789abcdefghijklmnopqrstuvwxyzABCDEFGHIJKLMNOPQRSTUVWXYZ"

def uriPathAlphabet : Bytes :=
  asciiBytes "ABCDEFGHIJKLMNOPQRSTUVWXYZabcdefghijklmnopqrstuvwxyz0123456789-._~!$&'()*+,;=:@%/"

def uriQueryKeyAlphabet : Bytes :=
  asciiBytes "ABCDEFGHIJKLMNOPQRSTUVWXYZabcdefghijklmnopqrstuvwxyz0123456789-._~!$'()*+,;:@%/?"

def uriQueryValueAlphabet : Bytes :=
  asciiBytes "ABCDEFGHIJKLMNOPQRSTUVWXYZabcdefghijklmnopqrstuvwxyz0123456789-._~!$'()*+,;=:@%/?"

def hostChars : Bytes :=
  asciiBytes "abcdefghijklmnopqrstuvwxyzABCDEFGHIJKLMNOPQRSTUVWXYZ0123456789-."

def fieldValueChars : Bytes :=
  asciiBytes "\t ABCDEFGHIJKLMNOPQRSTUVWXYZabcdefghijklmnopqrstuvwxyz0123456789!\"#$%&'()*+,-./:;<=>?@[\\]^_`\x7b|\x7d~"

def isUriUnreserved (byte : UInt8) : Bool :=
  isAsciiAlphanumeric byte || (asciiBytes "-._~").contains byte

def isUriSubDelim (byte : UInt8) : Bool := (asciiBytes "!$&'()*+,;=").contains byte

def isUriPcharPlain (byte : UInt8) : Bool :=
  isUriUnreserved byte || isUriSubDelim byte || (asciiBytes ":@").contains byte

def isUriPathPlainChar (byte : UInt8) : Bool := isUriPcharPlain byte || byte = '/'.toUInt8

def isUriQueryPlainChar (byte : UInt8) : Bool :=
  isUriPcharPlain byte || (asciiBytes "/?").contains byte

def isUriQueryKeyPlainChar (byte : UInt8) : Bool :=
  isUriQueryPlainChar byte && !(asciiBytes "&=").contains byte

def isUriQueryValuePlainChar (byte : UInt8) : Bool :=
  isUriQueryPlainChar byte && byte != '&'.toUInt8

/-- The host languages differ in their labels only. -/
def hostLanguage (label : String) : PatternInputLanguage where
  label := label
  start := ⟨0, 0, 0⟩
  step state byte :=
    match checkedSucc state.flags with
    | none => none
    | some total =>
      if total > 253 then none
      else if state.kind = 0 ∧ isAsciiAlphanumeric byte then some ⟨1, 1, total⟩
      else if (state.kind = 1 ∨ state.kind = 2) ∧ isAsciiAlphanumeric byte then
        match checkedSucc state.len with
        | none => none
        | some labelLen => if labelLen ≤ 63 then some ⟨1, labelLen, total⟩ else none
      else if (state.kind = 1 ∨ state.kind = 2) ∧ byte = '-'.toUInt8 then
        match checkedSucc state.len with
        | none => none
        | some labelLen => if labelLen ≤ 63 then some ⟨2, labelLen, total⟩ else none
      else if state.kind = 1 ∧ byte = '.'.toUInt8 then some ⟨0, 0, total⟩
      else none
  isAccept state := state.kind = 1
  alphabet := hostChars

def clientNameLanguage : PatternInputLanguage := hostLanguage "client name"

def domainNameLanguage : PatternInputLanguage := hostLanguage "domain"

/-- Nonempty strings over an alphabet. -/
def tokenLanguage (label : String) (chars : Bytes) : PatternInputLanguage where
  label := label
  start := ⟨0, 0, 0⟩
  step _ byte := if chars.contains byte then some ⟨0, 1, 0⟩ else none
  isAccept state := state.len = 1
  alphabet := chars

def httpMethodLanguage : PatternInputLanguage := tokenLanguage "HTTP method" tchars

def headerNameLanguage : PatternInputLanguage := tokenLanguage "header name" tchars

/-- All strings over an alphabet. -/
def stringLanguage (label : String) (chars : Bytes) : PatternInputLanguage where
  label := label
  start := ⟨0, 0, 0⟩
  step _ byte := if chars.contains byte then some ⟨0, 0, 0⟩ else none
  isAccept _ := true
  alphabet := chars

def headerValueLanguage : PatternInputLanguage := stringLanguage "header value" fieldValueChars

def locationPathLanguage : PatternInputLanguage where
  label := "location path"
  start := ⟨0, 0, 0⟩
  step state byte :=
    if state.kind = 0 ∧ byte = '/'.toUInt8 then some ⟨1, 0, 0⟩
    else if state.kind = 1 ∧ byte = '%'.toUInt8 then some ⟨2, 0, 0⟩
    else if state.kind = 1 ∧ isUriPathPlainChar byte then some ⟨1, 0, 0⟩
    else if state.kind = 2 ∧ isAsciiHexdigit byte then some ⟨3, 0, 0⟩
    else if state.kind = 3 ∧ isAsciiHexdigit byte then some ⟨1, 0, 0⟩
    else none
  isAccept state := state.kind = 1
  alphabet := uriPathAlphabet

/-- The query languages differ in their labels and their unescaped characters. -/
def queryLanguage (label : String) (plain : UInt8 → Bool) (alphabet : Bytes) :
    PatternInputLanguage where
  label := label
  start := ⟨0, 0, 0⟩
  step state byte :=
    if state.kind = 0 ∧ byte = '%'.toUInt8 then some ⟨1, 0, 0⟩
    else if state.kind = 0 ∧ plain byte then some ⟨0, 0, 0⟩
    else if state.kind = 1 ∧ isAsciiHexdigit byte then some ⟨2, 0, 0⟩
    else if state.kind = 2 ∧ isAsciiHexdigit byte then some ⟨0, 0, 0⟩
    else none
  isAccept state := state.kind = 0
  alphabet := alphabet

def queryKeyLanguage : PatternInputLanguage :=
  queryLanguage "query key" isUriQueryKeyPlainChar uriQueryKeyAlphabet

def queryValueLanguage : PatternInputLanguage :=
  queryLanguage "query value" isUriQueryValuePlainChar uriQueryValueAlphabet

/-- A dense DFA over bytes. `start` is its unanchored start state at the beginning of a text. -/
structure Dfa where
  size : Nat
  start : Option (Fin size)
  next : Fin size → UInt8 → Fin size
  nextEoi : Fin size → Fin size
  isMatch : Fin size → Bool
  isDead : Fin size → Bool

namespace Dfa

variable (d : Dfa)

/-- The states of the search: a pattern state, a domain state, and whether a match was seen. -/
abbrev Node : Type := Fin d.size × DomainState × Bool

/-- The flag of a dequeued state takes the state itself into account. -/
def seenMatch (node : d.Node) : Bool := node.2.2 || d.isMatch node.1

def isGoal (L : PatternInputLanguage) (node : d.Node) : Bool :=
  L.isAccept node.2.1 && (d.seenMatch node || d.isMatch (d.nextEoi node.1))

def successors (L : PatternInputLanguage) (node : d.Node) : List d.Node :=
  if d.isDead node.1 then []
  else L.alphabet.filterMap fun byte =>
    (L.step node.2.1 byte).map fun nextDomain =>
      let nextRegex := d.next node.1 byte
      (nextRegex, nextDomain, d.seenMatch node || d.isMatch nextRegex)

def intersects (L : PatternInputLanguage) : Bool :=
  match d.start with
  | none => false
  | some regexStart =>
    search (d.successors L) (d.isGoal L) ∅ [(regexStart, L.start, d.isMatch regexStart)]

end Dfa
end Dhttp.Access
