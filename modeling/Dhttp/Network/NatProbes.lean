import Dhttp.Lib.Interleaving
import Dhttp.Network.InterfaceSnapshot
import Dhttp.Network.NatHeartbeats

namespace Dhttp.Network
open Dhttp.Lib
set_option autoImplicit true

/-- What is read off an address. -/
structure AddressRules (A : Type) where
  isIpv4 : A → Bool
  port : A → BitVec 16
  isGloballyRoutable : EndpointAddr A → Bool

namespace AddressRules
variable {A : Type} (rules : AddressRules A)

/-- An outer address that a heartbeat takes over. -/
def usable (bound outer : A) : Bool :=
  rules.isIpv4 outer == rules.isIpv4 bound && rules.port outer != 0 &&
    rules.isGloballyRoutable (.direct outer)

/-- The servers of the socket's address family. -/
def familyOf (bound : A) (servers : List A) : List A :=
  servers.filter fun server => rules.isIpv4 server == rules.isIpv4 bound

/-- What the servers have answered, in their order; a failed one is left out. -/
def observed (bound : A) (servers : List A) (responses : List (Option A)) : List (A × A) :=
  (servers.zip responses).filterMap fun pair =>
    match pair.2 with
    | some outer => if rules.usable bound outer then some (pair.1, outer) else none
    | none => none

end AddressRules

/-- `HashMap::from_iter`: the last answer of a server counts. -/
def OuterAddrMappings.collect [DecidableEq A] (pairs : List (A × A)) : OuterAddrMappings A :=
  pairs.foldl (fun mappings pair =>
    ⟨insertKey pair.1 pair.2 mappings.entries, nodup_insertKey mappings.nodup pair.1 pair.2⟩)
    ⟨[], List.nodup_nil⟩

/-- A heartbeat waits for its tick (`due` says that it is there) or measures; on record, how often
`resume` had begun a stage again when it began to. -/
inductive Probe (A NatType : Type) where
  | initial
  | classifying (servers : List A)
  | heartbeat (servers : List A) (natType : Option NatType) (mappings : OuterAddrMappings A)
      (due : Bool) (measurement : Option ℕ)

namespace Probe
variable {A NatType : Type}

def servers : Probe A NatType → List A
  | initial => []
  | classifying servers | heartbeat servers .. => servers

def natType : Probe A NatType → Option NatType
  | initial | classifying _ => none
  | heartbeat _ natType .. => natType

def mappings : Probe A NatType → OuterAddrMappings A
  | initial | classifying _ => ⟨[], List.nodup_nil⟩
  | heartbeat _ _ mappings .. => mappings

/-- `resume`: an unfinished stage begins again, a measurement is dropped. -/
def resume : Probe A NatType → Probe A NatType
  | initial => initial
  | classifying servers => classifying servers
  | heartbeat servers natType mappings _ _ => heartbeat servers natType mappings true none

end Probe

/-- The NAT state of a binding with the registries and the socket that the dock has for its
address. On record: the classifications that were published, and the calls of `resume` that have
begun a stage again. -/
structure ProbedNat (A S NatType : Type) where
  probe : Probe A NatType
  polled : Bool
  registries : Registries A S
  docked : Option S
  classified : List NatType
  resumes : ℕ

def probedNat (NatType : Type) (registries : Registries A S) (docked : Option S) :
    ProbedNat A S NatType where
  probe := .initial
  polled := false
  registries := registries
  docked := docked
  classified := []
  resumes := 0

/-- A step that applies a measurement is the heartbeat of that. -/
inductive NatEvent (A S : Type) where
  | apply (beat : Heartbeat A S)
  | other

section Steps
variable {A S NatType : Type} [DecidableEq A] [DecidableEq S] [DecidableEq NatType]

/-- The binding of a probe; its type is not known before it is classified. -/
def NatBinding.probedAs (nat : NatBinding A S NatType) (natType : Option NatType) :
    NatBinding A S NatType := { nat with natType := natType }

namespace ProbedNat

def go (s : ProbedNat A S NatType) (probe : Probe A NatType) : ProbedNat A S NatType :=
  { s with probe := probe }

/-- `resume` returns early where the socket does not know its local address. -/
def resume (s : ProbedNat A S NatType) : Option A → ProbedNat A S NatType
  | none => s
  | some _ => { s.go s.probe.resume with resumes := s.resumes + 1 }

/-- What the heartbeats have made of the registries. -/
def applied (s : ProbedNat A S NatType) : NatState A S := ⟨s.registries, s.probe.mappings⟩

end ProbedNat

/-- A step of the future, of `resume`, of the clock, or of others. A poll begins with the look at
the dock; while it lasts, `resume` is kept out by the lock of the interfaces. Without the local
address of the socket, a poll has nothing to do. -/
inductive NatStep (rules : AddressRules A) (nat : NatBinding A S NatType) :
    ProbedNat A S NatType → NatEvent A S → ProbedNat A S NatType → Prop
  | poll {s : ProbedNat A S NatType} (hp : s.polled = false) (hd : s.docked = some nat.socket) :
    NatStep rules nat s .other { s with polled := true }
  | pend {s : ProbedNat A S NatType} (hp : s.polled = true) :
    NatStep rules nat s .other { s with polled := false }
  | discover {s : ProbedNat A S NatType} (servers : List A) (hp : s.polled = true)
      (hs : s.probe = .initial) (hf : rules.familyOf nat.bound servers ≠ []) :
    NatStep rules nat s .other (s.go (.classifying (rules.familyOf nat.bound servers)))
  /-- A failed classification is none. -/
  | classify {s : ProbedNat A S NatType} (natType : Option NatType) (hp : s.polled = true)
      (hs : s.probe = .classifying servers) :
    NatStep rules nat s .other
      { s.go (.heartbeat servers natType ⟨[], List.nodup_nil⟩ true none) with
        classified := s.classified ++ natType.toList }
  | measure {s : ProbedNat A S NatType} (hp : s.polled = true)
      (hs : s.probe = .heartbeat servers natType mappings true none) :
    NatStep rules nat s .other
      (s.go (.heartbeat servers natType mappings false (some s.resumes)))
  | apply {s : ProbedNat A S NatType} (responses : List (Option A)) (faults : Faults A)
      (order : IterationOrder (EndpointAddr A)) (hp : s.polled = true)
      (hs : s.probe = .heartbeat servers natType mappings due (some started))
      (hb : beat = ⟨s.docked, .collect (rules.observed nat.bound servers responses), faults,
        order⟩) :
    NatStep rules nat s (.apply beat)
      { s.go (.heartbeat servers natType
          (heartbeat (nat.probedAs natType) beat s.applied).2.mappings due none) with
        registries := (heartbeat (nat.probedAs natType) beat s.applied).2.registries }
  | tick {s : ProbedNat A S NatType}
      (hs : s.probe = .heartbeat servers natType mappings due measurement) :
    NatStep rules nat s .other (s.go (.heartbeat servers natType mappings true measurement))
  | resume {s : ProbedNat A S NatType} (localAddr : Option A) (hp : s.polled = false) :
    NatStep rules nat s .other (s.resume localAddr)
  | others {s : ProbedNat A S NatType} (docked : Option S)
      (hq : ∀ endpoint, registries.quic endpoint = some nat.socket ↔
        s.registries.quic endpoint = some nat.socket)
      (ho : ∀ endpoint, registries.outer endpoint = some nat.socket ↔
        s.registries.outer endpoint = some nat.socket) :
    NatStep rules nat s .other { s with registries := registries, docked := docked }

end Steps

end Dhttp.Network
