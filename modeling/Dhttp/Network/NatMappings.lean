import Mathlib
import Dhttp.Lib.OwnedRegistry
import Mathlib.Data.List.Dedup

namespace Dhttp.Network
open Dhttp.Lib
set_option autoImplicit true

/-- An endpoint of a socket, reached directly or through the agent that observed it. -/
inductive EndpointAddr (A : Type) where
  | direct (addr : A)
  | mediate (agent outer : A)
  deriving DecidableEq

/-- STUN server and the outer address it observed. -/
structure OuterAddrMappings (A : Type) where
  entries : List (A × A)
  nodup : (entries.map Prod.fst).Nodup

namespace OuterAddrMappings
variable {A : Type} [DecidableEq A]

def same (mappings mappings' : OuterAddrMappings A) : Bool :=
  mappings.entries.all (mappings'.entries.contains ·) &&
    mappings'.entries.all (mappings.entries.contains ·)

theorem mem_of_same {mappings mappings' : OuterAddrMappings A}
    (h : mappings.same mappings' = true) (pair : A × A) :
    pair ∈ mappings.entries ↔ pair ∈ mappings'.entries := by
  simp only [same, Bool.and_eq_true, List.all_eq_true, List.contains_iff_mem] at h
  exact ⟨h.1 pair, h.2 pair⟩

end OuterAddrMappings

/-- The order in which a hash table yields its elements. -/
structure IterationOrder (α : Type) where
  list : List α → List α
  perm : ∀ l, (list l).Perm l

/-- `Vec::dedup`. -/
def dedupSorted {α : Type} [DecidableEq α] : List α → List α
  | [] => []
  | a :: l => if (dedupSorted l).head? = some a then dedupSorted l else a :: dedupSorted l

theorem mem_dedupSorted {α : Type} [DecidableEq α] {a : α} {l : List α} :
    a ∈ dedupSorted l ↔ a ∈ l := by
  induction l with
  | nil => exact Iff.rfl
  | cons b l ih =>
    rw [dedupSorted, List.mem_cons]
    split
    · next h =>
      refine ⟨fun hm => .inr (ih.1 hm), fun hm => hm.elim (fun he => ?_) ih.2⟩
      rw [he]
      exact List.mem_of_head? h
    · rw [List.mem_cons, ih]

section Mapping
variable {A S NatType : Type} [DecidableEq A]

/-- What is fixed for a binding. -/
structure NatBinding (A S NatType : Type) where
  socket : S
  bound : A
  natType : Option NatType
  /-- The type that is published directly too. -/
  fullCone : NatType
  le : EndpointAddr A → EndpointAddr A → Bool

def registeredEndpoints (nat : NatBinding A S NatType) (mappings : OuterAddrMappings A) :
    List (EndpointAddr A) :=
  dedupSorted <| List.mergeSort (.direct nat.bound ::
    mappings.entries.flatMap fun pair => [.direct pair.2, .mediate pair.1 pair.2]) nat.le

variable {nat : NatBinding A S NatType} {mappings mappings' : OuterAddrMappings A}

theorem mem_registeredEndpoints :
    endpoint ∈ registeredEndpoints nat mappings ↔ endpoint = .direct nat.bound ∨
      ∃ pair ∈ mappings.entries, endpoint = .direct pair.2 ∨ endpoint = .mediate pair.1 pair.2 := by
  simp only [registeredEndpoints, mem_dedupSorted, List.mem_mergeSort, List.mem_cons,
    List.mem_flatMap, List.not_mem_nil, or_false]

theorem registeredEndpoints_congr
    (h : ∀ pair, pair ∈ mappings.entries ↔ pair ∈ mappings'.entries) :
    endpoint ∈ registeredEndpoints nat mappings ↔ endpoint ∈ registeredEndpoints nat mappings' := by
  simp only [mem_registeredEndpoints, h]

variable [DecidableEq NatType]

def publishedEndpoints (nat : NatBinding A S NatType) (mappings : OuterAddrMappings A) :
    List (EndpointAddr A) :=
  (mappings.entries.flatMap fun pair =>
    .mediate pair.1 pair.2 ::
      if nat.natType = some nat.fullCone then [.direct pair.2] else [])
    |>.filter (· ≠ .direct nat.bound) |>.dedup

theorem mem_publishedEndpoints :
    endpoint ∈ publishedEndpoints nat mappings ↔ endpoint ≠ .direct nat.bound ∧
      ∃ pair ∈ mappings.entries, endpoint = .mediate pair.1 pair.2 ∨
        nat.natType = some nat.fullCone ∧ endpoint = .direct pair.2 := by
  simp only [publishedEndpoints, List.mem_dedup, List.mem_filter, List.mem_flatMap, List.mem_cons,
    decide_eq_true_eq, List.mem_ite_nil_right, List.not_mem_nil, or_false]
  exact and_comm

/-- What is published is registered. -/
theorem published_registered
    (h : endpoint ∈ publishedEndpoints nat mappings) :
    endpoint ∈ registeredEndpoints nat mappings := by
  obtain ⟨-, pair, hm, he⟩ := mem_publishedEndpoints.1 h
  exact mem_registeredEndpoints.2 (.inr ⟨pair, hm, he.symm.imp_left And.right⟩)

theorem publishedEndpoints_congr
    (h : ∀ pair, pair ∈ mappings.entries ↔ pair ∈ mappings'.entries) :
    endpoint ∈ publishedEndpoints nat mappings ↔ endpoint ∈ publishedEndpoints nat mappings' := by
  simp only [mem_publishedEndpoints, h]

end Mapping

/-- The QUIC endpoints and the outer publications with the sockets they belong to. -/
structure Registries (A S : Type) where
  quic : Registry (EndpointAddr A) S
  outer : Registry (EndpointAddr A) S

/-- Failures injected into a call: of a registration, of a publication and of a registration
made again by the rollback. -/
structure Faults (A : Type) where
  register : EndpointAddr A → Bool
  publish : EndpointAddr A → Bool
  restore : EndpointAddr A → Bool

inductive MappingError (A : Type) where
  | notConnected
  | addrInUse (endpoint : EndpointAddr A)
  | registration (endpoint : EndpointAddr A)
  | publication (endpoint : EndpointAddr A)
  deriving DecidableEq

/-- A registration fails where another socket owns the endpoint, or by a fault. -/
def refusesRegistration {S : Type} [DecidableEq S] (socket : S) (fails : EndpointAddr A → Bool)
    (endpoint : EndpointAddr A) (owner : Option S) : Bool :=
  fails endpoint || owner.any (· ≠ socket)

/-- A publication fails where there is one already, or by a fault. -/
def refusesPublication {S : Type} (fails : EndpointAddr A → Bool) (endpoint : EndpointAddr A)
    (owner : Option S) : Bool :=
  fails endpoint || owner.isSome

theorem refusesRegistration_other {S : Type} [DecidableEq S] {socket other : S}
    (h : refusesRegistration socket fails endpoint (some other) = false) : other = socket := by
  simp only [refusesRegistration, Option.any_some, Bool.or_eq_false_iff, decide_eq_false_iff_not,
    ne_eq, not_not] at h
  exact h.2

theorem refusesPublication_other {fails : EndpointAddr A → Bool} {other : S} :
    refusesPublication fails endpoint (some other) = true := by
  rw [refusesPublication, Option.isSome_some, Bool.or_true]

section Update
variable {A : Type} [DecidableEq A] {S NatType : Type} [DecidableEq NatType]

/-- The registries hold just what the mappings call for. The publication of the bound address
is not this path's. -/
structure Applied (nat : NatBinding A S NatType) (mappings : OuterAddrMappings A)
    (s : Registries A S) : Prop where
  quic : ∀ endpoint,
    s.quic endpoint = some nat.socket ↔ endpoint ∈ registeredEndpoints nat mappings
  outer : ∀ endpoint, endpoint ≠ .direct nat.bound →
    (s.outer endpoint = some nat.socket ↔ endpoint ∈ publishedEndpoints nat mappings)

def SameForOthers (socket : S) (s s' : Registries A S) : Prop :=
  Registry.SameForOthers socket s.quic s'.quic ∧ Registry.SameForOthers socket s.outer s'.outer

variable {nat : NatBinding A S NatType} {previous refreshed : OuterAddrMappings A}
variable {s : Registries A S} {fails : EndpointAddr A → Bool}

/-- The publications added are taken back as if they had not been made. -/
theorem outer_rollback (ha : Applied nat previous s)
    (hk : ∀ endpoint ∈ keys, endpoint ∈ publishedEndpoints nat refreshed ∧
      endpoint ∉ publishedEndpoints nat previous) :
    ((Registry.enterAll (refusesPublication fails) nat.socket s.outer keys).registry.eraseAll
      (Registry.enterAll (refusesPublication fails) nat.socket s.outer keys).done) = s.outer := by
  have hothers : Registry.SameForOthers nat.socket s.outer
      (Registry.enterAll (refusesPublication fails) nat.socket s.outer keys).registry :=
    Registry.sameForOthers_enterAll fun _ _ h => absurd h (by rw [refusesPublication_other]; nofun)
  refine (hothers.trans (Registry.sameForOthers_eraseAll fun key hm =>
    Registry.enterAll_eq_owner.2 (.inl hm))).eq fun key => ?_
  rw [Registry.eraseAll_eq_owner, Registry.enterAll_eq_owner]
  refine ⟨fun h => h.2.resolve_left h.1, fun h => ⟨fun hm => ?_, .inr h⟩⟩
  obtain ⟨hnew, hold⟩ := hk key (Registry.enterAll_subset hm)
  exact hold ((ha.outer key (mem_publishedEndpoints.1 hnew).1).1 h)

variable [DecidableEq S]

/-- The previous endpoints are registered again and the publications added are removed. -/
def rollback (nat : NatBinding A S NatType) (faults : Faults A)
    (previous : OuterAddrMappings A) (added : List (EndpointAddr A)) (s : Registries A S) :
    Registries A S :=
  ⟨Registry.enterEach (refusesRegistration nat.socket faults.restore) nat.socket
    (s.quic.release nat.socket) (registeredEndpoints nat previous), s.outer.eraseAll added⟩

/-- `apply_outer_mappings` from `unregister` on. -/
def updateMappings (nat : NatBinding A S NatType) (order : IterationOrder (EndpointAddr A))
    (faults : Faults A) (previous refreshed : OuterAddrMappings A) (s : Registries A S) :
    Except (MappingError A) Unit × Registries A S :=
  let old := publishedEndpoints nat previous
  let new := publishedEndpoints nat refreshed
  let registered := Registry.enterAll (refusesRegistration nat.socket faults.register) nat.socket
    (s.quic.release nat.socket) (registeredEndpoints nat refreshed)
  match registered.refused with
  | some endpoint =>
    (.error (.registration endpoint),
      rollback nat faults previous [] ⟨registered.registry, s.outer⟩)
  | none =>
    let published := Registry.enterAll (refusesPublication faults.publish) nat.socket s.outer
      (order.list (new.filter (· ∉ old)))
    match published.refused with
    | some endpoint =>
      (.error (.publication endpoint),
        rollback nat faults previous published.done ⟨registered.registry, published.registry⟩)
    | none =>
      (.ok (), ⟨registered.registry,
        published.registry.eraseAll (order.list (old.filter (· ∉ new)))⟩)

/-- `apply_outer_mappings`; `found` is the socket the dock has for the bound address. -/
def applyOuterMappings (nat : NatBinding A S NatType) (order : IterationOrder (EndpointAddr A))
    (found : Option S) (faults : Faults A) (previous refreshed : OuterAddrMappings A)
    (s : Registries A S) : Except (MappingError A) Unit × Registries A S :=
  if found ≠ some nat.socket then (.error .notConnected, s)
  else if previous.same refreshed then (.ok (), s)
  else
    match (registeredEndpoints nat refreshed).find? fun endpoint =>
      (s.quic endpoint).any (· ≠ nat.socket) with
    | some endpoint => (.error (.addrInUse endpoint), s)
    | none => updateMappings nat order faults previous refreshed s

/-- What the rollback registers of the previous endpoints. -/
theorem quic_rollback {r : Registry (EndpointAddr A) S}
    (ha : Applied nat previous s) (ho : Registry.SameForOthers nat.socket s.quic r) :
    Registry.SameForOthers nat.socket s.quic
      (Registry.enterEach (refusesRegistration nat.socket fails) nat.socket
        (r.release nat.socket) (registeredEndpoints nat previous)) ∧
    ∀ endpoint, Registry.enterEach (refusesRegistration nat.socket fails) nat.socket
        (r.release nat.socket) (registeredEndpoints nat previous) endpoint = some nat.socket ↔
      endpoint ∈ registeredEndpoints nat previous ∧ fails endpoint = false := by
  have hs : Registry.SameForOthers nat.socket s.quic (r.release nat.socket) :=
    ho.trans (Registry.sameForOthers_release r nat.socket)
  refine ⟨hs.trans (Registry.sameForOthers_enterEach fun _ _ => refusesRegistration_other),
    fun endpoint => ?_⟩
  rw [Registry.enterEach_eq_owner, or_iff_left (Registry.release_owner r nat.socket endpoint)]
  refine and_congr_right fun hm => ?_
  -- an endpoint of this socket is nobody's after the release
  have hfree : r.release nat.socket endpoint = none := by
    cases hr : r.release nat.socket endpoint with
    | none => rfl
    | some other =>
      have hne : other ≠ nat.socket := fun he =>
        Registry.release_owner r nat.socket endpoint (by rw [hr, he])
      have hown := (hs endpoint other hne).1 hr
      exact absurd (Option.some.inj (hown.symm.trans ((ha.quic endpoint).2 hm))) hne
  rw [hfree, refusesRegistration, Option.any_none, Bool.or_false]

end Update

end Dhttp.Network
