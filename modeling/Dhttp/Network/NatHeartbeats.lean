import Dhttp.Network.NatMappings

namespace Dhttp.Network
open Dhttp.Lib
set_option autoImplicit true

section Order
variable {A : Type} [DecidableEq A] {order : IterationOrder (EndpointAddr A)}

theorem mem_additions {old new : List (EndpointAddr A)} :
    endpoint ∈ order.list (new.filter (· ∉ old)) ↔ endpoint ∈ new ∧ endpoint ∉ old := by
  rw [(order.perm _).mem_iff, List.mem_filter, decide_eq_true_eq]

theorem additions_nodup [DecidableEq NatType] (nat : NatBinding A S NatType)
    (mappings : OuterAddrMappings A) (old : List (EndpointAddr A)) :
    (order.list ((publishedEndpoints nat mappings).filter (· ∉ old))).Nodup :=
  (order.perm _).nodup_iff.2 ((List.nodup_dedup _).filter _)

end Order

/-- The registration of endpoints that no other socket has. -/
theorem quic_updated {A S : Type} [DecidableEq A] [DecidableEq S] {socket : S}
    {keys : List (EndpointAddr A)} {r : Registry (EndpointAddr A) S}
    (fails : EndpointAddr A → Bool)
    (hfree : ∀ endpoint ∈ keys, ∀ other, r endpoint = some other → other = socket)
    (hr : ∀ endpoint, r endpoint ≠ some socket) :
    match (Registry.enterAll (refusesRegistration socket fails) socket r keys).refused with
    | some _ => ∃ endpoint ∈ keys, fails endpoint = true
    | none => (∀ endpoint ∈ keys, fails endpoint = false) ∧ ∀ endpoint,
        (Registry.enterAll (refusesRegistration socket fails) socket r keys).registry
          endpoint = some socket ↔ endpoint ∈ keys := by
  have hself (endpoint : EndpointAddr A) :
      refusesRegistration socket fails endpoint (some socket) = fails endpoint := by
    simp [refusesRegistration]
  have hnone (endpoint : EndpointAddr A) (hm : endpoint ∈ keys) :
      refusesRegistration socket fails endpoint (r endpoint) = fails endpoint := by
    cases ho : r endpoint with
    | none => simp [refusesRegistration]
    | some other => exact absurd (hfree endpoint hm other ho ▸ ho) (hr endpoint)
  split
  · next endpoint hrefused =>
    obtain ⟨hm, h⟩ := Registry.enterAll_refused hrefused
    rw [hnone endpoint hm, hself] at h
    exact ⟨endpoint, hm, h.elim id And.right⟩
  · next hrefused =>
    constructor
    · intro endpoint hm
      have h := Registry.enterAll_accepted hrefused hm
      rw [hnone endpoint hm, hself] at h
      exact h.elim id And.right
    · intro endpoint
      rw [Registry.enterAll_eq_owner, Registry.enterAll_done hrefused,
        or_iff_left (hr endpoint)]

section Call
variable {A S NatType : Type} [DecidableEq A] [DecidableEq NatType]
variable {nat : NatBinding A S NatType} {previous refreshed : OuterAddrMappings A}
variable {s : Registries A S} {faults : Faults A} {order : IterationOrder (EndpointAddr A)}

/-- The call gets as far as changing the registries. -/
def Updates (nat : NatBinding A S NatType) (found : Option S)
    (previous refreshed : OuterAddrMappings A) (s : Registries A S) : Prop :=
  found = some nat.socket ∧ previous.same refreshed = false ∧
    ∀ endpoint ∈ registeredEndpoints nat refreshed, ∀ other,
      s.quic endpoint = some other → other = nat.socket

/-- A registration or a publication of the update fails. -/
def Fails (nat : NatBinding A S NatType) (faults : Faults A)
    (previous refreshed : OuterAddrMappings A) (s : Registries A S) : Prop :=
  (∃ endpoint ∈ registeredEndpoints nat refreshed, faults.register endpoint = true) ∨
    ∃ endpoint ∈ publishedEndpoints nat refreshed, endpoint ∉ publishedEndpoints nat previous ∧
      (faults.publish endpoint = true ∨ s.outer endpoint ≠ none)

/-- The registries after an update that has rolled back. -/
structure RolledBack (nat : NatBinding A S NatType) (faults : Faults A)
    (previous : OuterAddrMappings A) (s s' : Registries A S) : Prop where
  outer : s'.outer = s.outer
  others : Registry.SameForOthers nat.socket s.quic s'.quic
  quic : ∀ endpoint, s'.quic endpoint = some nat.socket ↔
    endpoint ∈ registeredEndpoints nat previous ∧ faults.restore endpoint = false

/-- Publishing what is new and withdrawing what is old gives what is called for. -/
theorem outer_updated (order : IterationOrder (EndpointAddr A)) (faults : Faults A)
    (refreshed : OuterAddrMappings A) (ha : Applied nat previous s) :
    let keys := order.list ((publishedEndpoints nat refreshed).filter
      (· ∉ publishedEndpoints nat previous))
    let published := Registry.enterAll (refusesPublication faults.publish) nat.socket s.outer keys
    match published.refused with
    | some _ => ∃ endpoint ∈ publishedEndpoints nat refreshed,
        endpoint ∉ publishedEndpoints nat previous ∧
          (faults.publish endpoint = true ∨ s.outer endpoint ≠ none)
    | none => (∀ endpoint ∈ publishedEndpoints nat refreshed,
          endpoint ∉ publishedEndpoints nat previous →
            faults.publish endpoint = false ∧ s.outer endpoint = none) ∧
        Registry.SameForOthers nat.socket s.outer (published.registry.eraseAll (order.list
          ((publishedEndpoints nat previous).filter (· ∉ publishedEndpoints nat refreshed)))) ∧
        ∀ endpoint, endpoint ≠ .direct nat.bound →
          (published.registry.eraseAll (order.list ((publishedEndpoints nat previous).filter
            (· ∉ publishedEndpoints nat refreshed))) endpoint = some nat.socket ↔
            endpoint ∈ publishedEndpoints nat refreshed) := by
  intro keys published
  have hnodup : keys.Nodup := additions_nodup nat refreshed _
  split
  · next endpoint hrefused =>
    obtain ⟨hm, h⟩ := Registry.enterAll_refused hrefused
    obtain ⟨hnew, hold⟩ := mem_additions.1 hm
    have hrefuses := h.resolve_right fun hn => hn.1 hnodup
    rw [refusesPublication, Bool.or_eq_true, Option.isSome_iff_ne_none] at hrefuses
    exact ⟨endpoint, hnew, hold, hrefuses⟩
  · next hrefused =>
    have hothers : Registry.SameForOthers nat.socket s.outer published.registry :=
      Registry.sameForOthers_enterAll fun _ _ h =>
        absurd h.symm (by rw [refusesPublication_other]; exact Bool.false_ne_true)
    have hown (endpoint : EndpointAddr A) : published.registry endpoint = some nat.socket ↔
        (endpoint ∈ publishedEndpoints nat refreshed ∧
          endpoint ∉ publishedEndpoints nat previous) ∨ s.outer endpoint = some nat.socket := by
      rw [Registry.enterAll_eq_owner, Registry.enterAll_done hrefused, mem_additions]
    refine ⟨fun endpoint hnew hold => ?_, ?_, fun endpoint hne => ?_⟩
    · have h := (Registry.enterAll_accepted hrefused (mem_additions.2 ⟨hnew, hold⟩)).resolve_right
        fun hn => hn.1 hnodup
      rw [refusesPublication, Bool.or_eq_false_iff, Option.isSome_eq_false_iff,
        Option.isNone_iff_eq_none] at h
      exact h
    · refine hothers.trans (Registry.sameForOthers_eraseAll fun endpoint hm => (hown endpoint).2 ?_)
      obtain ⟨hold, -⟩ := mem_additions.1 hm
      exact .inr ((ha.outer endpoint (mem_publishedEndpoints.1 hold).1).2 hold)
    · rw [Registry.eraseAll_eq_owner, mem_additions, hown, ha.outer endpoint hne]
      tauto

theorem Applied.congr (ha : Applied nat previous s) (h : previous.same refreshed = true) :
    Applied nat refreshed s := by
  have hm := OuterAddrMappings.mem_of_same h
  refine ⟨fun endpoint => (ha.quic endpoint).trans (registeredEndpoints_congr hm),
    fun endpoint hne => (ha.outer endpoint hne).trans (publishedEndpoints_congr hm)⟩

variable [DecidableEq S]

theorem rollback_eq (ha : Applied nat previous s)
    (hq : Registry.SameForOthers nat.socket s.quic quic) (ho : outer.eraseAll added = s.outer) :
    RolledBack nat faults previous s (rollback nat faults previous added ⟨quic, outer⟩) :=
  ⟨ho, (quic_rollback ha hq).1, (quic_rollback ha hq).2⟩

theorem updateMappings_cases (ha : Applied nat previous s)
    (hfree : ∀ endpoint ∈ registeredEndpoints nat refreshed, ∀ other,
      s.quic endpoint = some other → other = nat.socket)
    (h : updateMappings nat order faults previous refreshed s = (result, s')) :
    (¬ Fails nat faults previous refreshed s ∧ result = .ok () ∧ Applied nat refreshed s' ∧
      SameForOthers nat.socket s s') ∨
    (Fails nat faults previous refreshed s ∧ (∃ error, result = .error error) ∧
      RolledBack nat faults previous s s') := by
  have hq := quic_updated faults.register
    (fun endpoint hm other ho => hfree endpoint hm other (Registry.release_eq_some.1 ho).1)
    (Registry.release_owner s.quic nat.socket)
  have ho := outer_updated order faults refreshed ha
  have hothers : Registry.SameForOthers nat.socket s.quic
      (Registry.enterAll (refusesRegistration nat.socket faults.register) nat.socket
        (s.quic.release nat.socket) (registeredEndpoints nat refreshed)).registry :=
    (Registry.sameForOthers_release _ _).trans
      (Registry.sameForOthers_enterAll fun _ _ => refusesRegistration_other)
  rw [updateMappings] at h
  simp only at h ho
  split at h
  · next endpoint hrefused =>
    cases h
    rw [hrefused] at hq
    exact .inr ⟨.inl hq, ⟨_, rfl⟩, rollback_eq ha hothers rfl⟩
  · next hrefused =>
    rw [hrefused] at hq
    obtain ⟨hregister, hquic⟩ := hq
    split at h
    · next endpoint hpublish =>
      cases h
      rw [hpublish] at ho
      exact .inr ⟨.inr ho, ⟨_, rfl⟩, rollback_eq ha hothers
        (outer_rollback ha fun endpoint hm => mem_additions.1 hm)⟩
    · next hpublish =>
      cases h
      rw [hpublish] at ho
      obtain ⟨hpublished, houters, houter⟩ := ho
      refine .inl ⟨?_, rfl, ⟨hquic, houter⟩, hothers, houters⟩
      rintro (⟨endpoint, hm, hf⟩ | ⟨endpoint, hm, hold, hf⟩)
      · exact absurd (hregister endpoint hm) (by rw [hf]; nofun)
      · obtain ⟨hok, hfree⟩ := hpublished endpoint hm hold
        exact hf.elim (fun hf => absurd hok (by rw [hf]; nofun)) fun hf => hf hfree

/-- What a call does to the registries. -/
theorem applyOuterMappings_cases (ha : Applied nat previous s)
    (h : applyOuterMappings nat order found faults previous refreshed s = (result, s')) :
    (¬ Updates nat found previous refreshed s ∧ s' = s ∧
      ((∃ error, result = .error error) ∨ result = .ok () ∧ previous.same refreshed = true)) ∨
    (Updates nat found previous refreshed s ∧ ¬ Fails nat faults previous refreshed s ∧
      result = .ok () ∧ Applied nat refreshed s' ∧ SameForOthers nat.socket s s') ∨
    (Updates nat found previous refreshed s ∧ Fails nat faults previous refreshed s ∧
      (∃ error, result = .error error) ∧ RolledBack nat faults previous s s') := by
  rw [applyOuterMappings] at h
  split at h
  · next hfound =>
    cases h
    exact .inl ⟨fun hu => hfound hu.1, rfl, .inl ⟨_, rfl⟩⟩
  · next hfound =>
    split at h
    · next hsame =>
      cases h
      exact .inl ⟨fun hu => absurd hsame (by rw [hu.2.1]; nofun), rfl, .inr ⟨rfl, hsame⟩⟩
    · next hsame =>
      split at h
      · next endpoint hconflict =>
        cases h
        refine .inl ⟨fun hu => ?_, rfl, .inl ⟨_, rfl⟩⟩
        have hm := List.mem_of_find?_eq_some hconflict
        have howner := List.find?_some hconflict
        simp only [Option.any_eq_true_iff_get, decide_eq_true_eq] at howner
        obtain ⟨hsome, hne⟩ := howner
        exact hne (hu.2.2 endpoint hm _ (Option.some_get hsome).symm)
      · next hnone =>
        have hfree : ∀ endpoint ∈ registeredEndpoints nat refreshed, ∀ other,
            s.quic endpoint = some other → other = nat.socket := by
          intro endpoint hm other ho
          have hn := List.find?_eq_none.1 hnone endpoint hm
          rw [ho, Option.any_some, decide_eq_true_eq, not_not] at hn
          exact hn
        have hu : Updates nat found previous refreshed s :=
          ⟨not_not.1 hfound, Bool.not_eq_true _ ▸ hsame, hfree⟩
        exact .inr ((updateMappings_cases ha hfree h).imp (⟨hu, ·⟩) (⟨hu, ·⟩))

end Call

section Runs
variable {A S NatType : Type} [DecidableEq A] [DecidableEq S] [DecidableEq NatType]
variable {nat : NatBinding A S NatType}

/-- The registries and the mappings that were applied last. -/
structure NatState (A S : Type) where
  registries : Registries A S
  mappings : OuterAddrMappings A

/-- One heartbeat: what the dock and the servers answer, and what fails. -/
structure Heartbeat (A S : Type) where
  found : Option S
  refreshed : OuterAddrMappings A
  faults : Faults A
  order : IterationOrder (EndpointAddr A)

def heartbeat (nat : NatBinding A S NatType) (beat : Heartbeat A S) (s : NatState A S) :
    Except (MappingError A) Unit × NatState A S :=
  match applyOuterMappings nat beat.order beat.found beat.faults s.mappings beat.refreshed
    s.registries with
  | (.error error, registries) => (.error error, ⟨registries, s.mappings⟩)
  | (.ok (), registries) => (.ok (), ⟨registries, beat.refreshed⟩)

/-- No registration of a rollback fails. -/
def Restores (nat : NatBinding A S NatType) (beat : Heartbeat A S) (s : NatState A S) : Prop :=
  Updates nat beat.found s.mappings beat.refreshed s.registries →
    Fails nat beat.faults s.mappings beat.refreshed s.registries →
      ∀ endpoint ∈ registeredEndpoints nat s.mappings, beat.faults.restore endpoint = false

/-- A heartbeat applies the refreshed mappings, or nothing happens to this socket's endpoints;
and nothing happens to those of other sockets. -/
structure Atomic (nat : NatBinding A S NatType) (beat : Heartbeat A S) (s : NatState A S) :
    Prop where
  applied : (heartbeat nat beat s).1 = .ok () →
    Applied nat beat.refreshed (heartbeat nat beat s).2.registries
  unchanged : ∀ error, (heartbeat nat beat s).1 = .error error → ∀ endpoint,
    ((heartbeat nat beat s).2.registries.quic endpoint = some nat.socket ↔
      s.registries.quic endpoint = some nat.socket) ∧
    ((heartbeat nat beat s).2.registries.outer endpoint = some nat.socket ↔
      s.registries.outer endpoint = some nat.socket)
  others : SameForOthers nat.socket s.registries (heartbeat nat beat s).2.registries

/-- A heartbeat is atomic just where its rollback, if it has one, is complete. -/
theorem heartbeat_atomic_iff {s : NatState A S} (ha : Applied nat s.mappings s.registries) :
    Atomic nat beat s ↔ Restores nat beat s := by
  cases hout : applyOuterMappings nat beat.order beat.found beat.faults s.mappings beat.refreshed
      s.registries with
  | mk result registries =>
    have hbeat : (heartbeat nat beat s).1 = result ∧
        (heartbeat nat beat s).2.registries = registries := by
      rw [heartbeat, hout]
      cases result <;> exact ⟨rfl, rfl⟩
    obtain ⟨hresult, hregistries⟩ := hbeat
    obtain ⟨hu, rfl, hr⟩ | ⟨-, hf, hok, happlied, hothers⟩ | ⟨hu, hf, ⟨error, he⟩, hrolled⟩ :=
      applyOuterMappings_cases ha hout
    · refine iff_of_true ⟨fun hok => ?_, fun _ _ _ => ?_, ?_⟩ fun h => absurd h hu
      · rw [hregistries]
        obtain ⟨error, he⟩ | ⟨-, hsame⟩ := hr
        · rw [hresult, he] at hok
          cases hok
        · exact ha.congr hsame
      · rw [hregistries]
        exact ⟨Iff.rfl, Iff.rfl⟩
      · rw [hregistries]
        exact ⟨.refl _ _, .refl _ _⟩
    · refine iff_of_true ⟨fun _ => ?_, fun _ he => ?_, ?_⟩ fun _ h => absurd h hf
      · rw [hregistries]
        exact happlied
      · rw [hresult, hok] at he
        cases he
      · rw [hregistries]
        exact hothers
    · constructor
      · intro hatomic _ _ endpoint hm
        have hquic := (hatomic.unchanged error (hresult.trans he) endpoint).1
        rw [hregistries] at hquic
        exact ((hrolled.quic endpoint).1 (hquic.2 ((ha.quic endpoint).2 hm))).2
      · intro hrestores
        refine ⟨fun hok => ?_, fun _ _ endpoint => ?_, ?_⟩
        · rw [hresult, he] at hok
          cases hok
        · rw [hregistries, hrolled.outer, hrolled.quic, ha.quic]
          exact ⟨and_iff_left_of_imp (hrestores hu hf endpoint), Iff.rfl⟩
        · rw [hregistries]
          refine ⟨hrolled.others, ?_⟩
          rw [hrolled.outer]
          exact .refl _ _

/-- Runs of a binding: heartbeats, and changes made by others to endpoints of their own. -/
inductive Run (nat : NatBinding A S NatType) : NatState A S → Prop
  | start (hq : ∀ endpoint, registries.quic endpoint = some nat.socket ↔
        endpoint = .direct nat.bound)
      (ho : ∀ endpoint, registries.outer endpoint = some nat.socket →
        endpoint = .direct nat.bound) : Run nat ⟨registries, ⟨[], List.nodup_nil⟩⟩
  | beat (h : Run nat s) (hr : Restores nat beat s) : Run nat (heartbeat nat beat s).2
  | others (h : Run nat s)
      (hq : ∀ endpoint, registries.quic endpoint = some nat.socket ↔
        s.registries.quic endpoint = some nat.socket)
      (ho : ∀ endpoint, registries.outer endpoint = some nat.socket ↔
        s.registries.outer endpoint = some nat.socket) : Run nat ⟨registries, s.mappings⟩

theorem heartbeat_mappings_ok (h : (heartbeat nat beat s).1 = .ok ()) :
    (heartbeat nat beat s).2.mappings = beat.refreshed := by
  rw [heartbeat] at h ⊢
  split at h
  · cases h
  · rfl

theorem heartbeat_mappings_error (h : (heartbeat nat beat s).1 = .error error) :
    (heartbeat nat beat s).2.mappings = s.mappings := by
  rw [heartbeat] at h ⊢
  split at h
  · rfl
  · cases h

/-- After a failure the mappings applied before are still the ones in force. -/
theorem heartbeat_applied (ha : Applied nat s.mappings s.registries) (h : Atomic nat beat s) :
    Applied nat (heartbeat nat beat s).2.mappings (heartbeat nat beat s).2.registries := by
  cases hresult : (heartbeat nat beat s).1 with
  | ok _ =>
    rw [heartbeat_mappings_ok hresult]
    exact h.applied hresult
  | error error =>
    rw [heartbeat_mappings_error hresult]
    exact ⟨fun endpoint => (h.unchanged error hresult endpoint).1.trans (ha.quic endpoint),
      fun endpoint hne => (h.unchanged error hresult endpoint).2.trans (ha.outer endpoint hne)⟩

theorem Run.applied (h : Run nat s) :
    Applied nat s.mappings s.registries := by
  induction h with
  | start hq ho =>
    refine ⟨fun endpoint => ?_, fun endpoint hne => ?_⟩
    · rw [hq, mem_registeredEndpoints]
      simp
    · rw [mem_publishedEndpoints]
      exact iff_of_false (fun h => hne (ho endpoint h)) (by simp)
  | beat h hr ih => exact heartbeat_applied ih ((heartbeat_atomic_iff ih).2 hr)
  | others h hq ho ih =>
    exact ⟨fun endpoint => (hq endpoint).trans (ih.quic endpoint),
      fun endpoint hne => (ho endpoint).trans (ih.outer endpoint hne)⟩

/-- In every run without a failing rollback, what the path publishes is registered, and every
heartbeat is atomic. -/
theorem heartbeats_atomic (h : Run nat s) :
    Applied nat s.mappings s.registries ∧
    (∀ endpoint, endpoint ≠ .direct nat.bound → s.registries.outer endpoint = some nat.socket →
      s.registries.quic endpoint = some nat.socket) ∧
    ∀ beat, Restores nat beat s → Atomic nat beat s := by
  have ha := h.applied
  refine ⟨ha, fun endpoint hne ho => ?_, fun beat => (heartbeat_atomic_iff ha).2⟩
  exact (ha.quic endpoint).2 (published_registered ((ha.outer endpoint hne).1 ho))

end Runs

/-- A binding of socket 1 at address 10 behind a full cone. -/
def coneBinding : NatBinding Nat Nat Bool := ⟨1, 10, some true, true, fun _ _ => true⟩

def boundRegistries : Registries Nat Nat :=
  ⟨fun endpoint => if endpoint = .direct 10 then some 1 else none, fun _ => none⟩

def newState : NatState Nat Nat := ⟨boundRegistries, ⟨[], List.nodup_nil⟩⟩

/-- Server 20 observes address 30. -/
def observation (faults : Faults Nat) : Heartbeat Nat Nat :=
  ⟨some 1, ⟨[(20, 30)], List.nodup_singleton 20⟩, faults, ⟨id, .refl⟩⟩

theorem run_newState : Run coneBinding newState := by
  apply Run.start
  · intro endpoint
    change (if endpoint = .direct 10 then some 1 else none) = some 1 ↔ endpoint = .direct 10
    split
    · next h => exact iff_of_true rfl h
    · next h => exact iff_of_false nofun h
  · intro endpoint h
    cases h

theorem heartbeats_atomic_observation :
    let s := (heartbeat coneBinding (observation ⟨fun _ => false, fun _ => false, fun _ => false⟩)
      newState).2
    Applied coneBinding s.mappings s.registries ∧
    (∀ endpoint, endpoint ≠ .direct 10 → s.registries.outer endpoint = some 1 →
      s.registries.quic endpoint = some 1) ∧
    ∀ beat, Restores coneBinding beat s → Atomic coneBinding beat s :=
  heartbeats_atomic (run_newState.beat fun _ _ _ _ => rfl)

/-- The registration of the observed address fails, then that of the bound address when it is
to be restored. -/
def failingFaults : Faults Nat :=
  ⟨(· == .direct 30), fun _ => false, (· == .direct 10)⟩

/-- A failing heartbeat loses the bound address where the rollback fails as well. -/
theorem failed_heartbeat_not_atomic :
    Run coneBinding newState ∧ ¬ Atomic coneBinding (observation failingFaults) newState := by
  refine ⟨run_newState, fun h => ?_⟩
  have hrestores := (heartbeat_atomic_iff run_newState.applied).1 h
  have hu : Updates coneBinding (some 1) newState.mappings (observation failingFaults).refreshed
      boundRegistries := by
    refine ⟨rfl, by decide, fun endpoint _ other ho => ?_⟩
    change (if endpoint = .direct 10 then some 1 else none) = some other at ho
    split at ho
    · cases ho
      rfl
    · cases ho
  have hf : Fails coneBinding failingFaults newState.mappings
      (observation failingFaults).refreshed boundRegistries :=
    .inl ⟨.direct 30, mem_registeredEndpoints.2 (.inr ⟨(20, 30), List.mem_cons_self .., .inl rfl⟩),
      by decide⟩
  exact absurd (hrestores hu hf (.direct 10) (mem_registeredEndpoints.2 (.inl rfl))) (by decide)

end Dhttp.Network
