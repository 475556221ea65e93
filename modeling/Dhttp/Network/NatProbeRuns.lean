import Dhttp.Network.NatProbes

namespace Dhttp.Network
open Dhttp.Lib
set_option autoImplicit true

namespace Probe
variable {A NatType : Type}

def IsHeartbeat : Probe A NatType → Prop
  | initial | classifying _ => False
  | heartbeat .. => True

def measurement : Probe A NatType → Option ℕ
  | initial | classifying _ => none
  | heartbeat _ _ _ _ measurement => measurement

/-- The type that the heartbeats of a probe go by; before them any type does. -/
def GoesBy (natType : Option NatType) : Probe A NatType → Prop
  | initial | classifying _ => True
  | heartbeat _ found .. => found = natType

theorem resume_servers (probe : Probe A NatType) : probe.resume.servers = probe.servers := by
  cases probe <;> rfl

theorem resume_natType (probe : Probe A NatType) : probe.resume.natType = probe.natType := by
  cases probe <;> rfl

theorem resume_mappings (probe : Probe A NatType) : probe.resume.mappings = probe.mappings := by
  cases probe <;> rfl

theorem resume_measurement (probe : Probe A NatType) : probe.resume.measurement = none := by
  cases probe <;> rfl

theorem resume_isHeartbeat (probe : Probe A NatType) :
    probe.resume.IsHeartbeat ↔ probe.IsHeartbeat := by
  cases probe <;> rfl

theorem resume_goesBy (probe : Probe A NatType) (known : Option NatType) :
    probe.resume.GoesBy known ↔ probe.GoesBy known := by
  cases probe <;> rfl

theorem resume_initial (probe : Probe A NatType) : probe.resume = .initial ↔ probe = .initial := by
  cases probe with
  | initial => exact Iff.rfl
  | classifying | heartbeat => exact iff_of_false nofun nofun

end Probe

section Observations
variable {A : Type} {rules : AddressRules A}

theorem mem_collect [DecidableEq A] {pairs : List (A × A)}
    (h : pair ∈ (OuterAddrMappings.collect pairs).entries) : pair ∈ pairs := by
  have hsub : ∀ (rest : List (A × A)) (mappings : OuterAddrMappings A),
      (∀ found ∈ mappings.entries, found ∈ pairs) → (∀ found ∈ rest, found ∈ pairs) →
      ∀ found ∈ (rest.foldl (fun mappings pair => (⟨insertKey pair.1 pair.2 mappings.entries,
        nodup_insertKey mappings.nodup pair.1 pair.2⟩ : OuterAddrMappings A)) mappings).entries,
        found ∈ pairs := by
    intro rest
    induction rest with
    | nil => exact fun _ hm _ => hm
    | cons first rest ih =>
      intro mappings hm hr
      apply ih
      · intro found hf
        obtain hf | hf := List.mem_append.1 hf
        · exact hm found (List.mem_filter.1 hf).1
        · rw [List.mem_singleton.1 hf]
          exact hr first List.mem_cons_self
      · exact fun found hf => hr found (List.mem_cons_of_mem _ hf)
  exact hsub pairs ⟨[], List.nodup_nil⟩ nofun (fun _ => id) pair h

theorem mem_observed (h : pair ∈ rules.observed bound servers responses) :
    pair.1 ∈ servers ∧ rules.usable bound pair.2 = true := by
  obtain ⟨⟨server, response⟩, hm, hp⟩ := List.mem_filterMap.1 h
  cases response with
  | none => cases hp
  | some outer =>
    obtain ⟨hu, he⟩ := Option.ite_none_right_eq_some.1 hp
    cases he
    exact ⟨(List.of_mem_zip hm).1, hu⟩

end Observations

section Runs
variable {A S NatType : Type} [DecidableEq A] [DecidableEq S] [DecidableEq NatType]
variable {rules : AddressRules A} {nat : NatBinding A S NatType} {s s' t : ProbedNat A S NatType}

/-- No registration that a rollback makes fails. -/
def Restoring (nat : NatBinding A S NatType) (s : ProbedNat A S NatType) : NatEvent A S → Prop
  | .apply beat => Restores (nat.probedAs s.probe.natType) beat s.applied
  | .other => True

/-- What is kept of a NAT state all along. -/
structure ProbeInv (rules : AddressRules A) (nat : NatBinding A S NatType)
    (s : ProbedNat A S NatType) : Prop where
  heartbeats : ∀ natType, s.probe.GoesBy natType → Run (nat.probedAs natType) s.applied
  family : ∀ server ∈ s.probe.servers, rules.isIpv4 server = rules.isIpv4 nat.bound
  found : s.probe ≠ .initial → s.probe.servers ≠ []
  mappings : ∀ pair ∈ s.probe.mappings.entries,
    pair.1 ∈ s.probe.servers ∧ rules.usable nat.bound pair.2 = true
  classified : s.classified = s.probe.natType.toList
  current : ∀ started, s.probe.measurement = some started → started = s.resumes

theorem probeInv_start
    (hq : ∀ endpoint, registries.quic endpoint = some nat.socket ↔ endpoint = .direct nat.bound)
    (ho : ∀ endpoint, registries.outer endpoint = some nat.socket →
      endpoint = .direct nat.bound) (docked : Option S) :
    ProbeInv rules nat (probedNat NatType registries docked) where
  heartbeats _ _ := .start hq ho
  family := nofun
  found h := absurd rfl h
  mappings := nofun
  classified := rfl
  current := nofun

omit [DecidableEq A] in
theorem mem_familyOf {servers : List A} (h : server ∈ rules.familyOf bound servers) :
    rules.isIpv4 server = rules.isIpv4 bound :=
  beq_iff_eq.1 (List.mem_filter.1 h).2

/-- What a heartbeat leaves is what was there or what was observed. -/
theorem heartbeat_mappings (nat : NatBinding A S NatType) (beat : Heartbeat A S)
    (s : NatState A S) : (heartbeat nat beat s).2.mappings = s.mappings ∨
      (heartbeat nat beat s).2.mappings = beat.refreshed := by
  cases hr : (heartbeat nat beat s).1 with
  | ok _ => exact .inr (heartbeat_mappings_ok hr)
  | error e => exact .inl (heartbeat_mappings_error hr)

/-- A heartbeat goes on with its servers, its type and its mappings. -/
theorem probeInv_heartbeat (h : ProbeInv rules nat s)
    (hs : s.probe = .heartbeat servers natType mappings due measurement)
    (hm : ∀ started, measurement' = some started → started = s.resumes) :
    ProbeInv rules nat (s.go (.heartbeat servers natType mappings due' measurement')) := by
  obtain ⟨hrun, hfamily, hfound, hmappings, hclass, _⟩ := h
  rw [ProbedNat.applied, hs] at hrun
  rw [hs] at hfamily hfound hmappings hclass
  exact ⟨hrun, hfamily, fun _ => hfound nofun, hmappings, hclass, hm⟩

theorem probeInv_resume (h : ProbeInv rules nat s) : ProbeInv rules nat
    { s.go s.probe.resume with resumes := s.resumes + 1 } := by
  obtain ⟨hrun, hfamily, hfound, hmappings, hclass, _⟩ := h
  refine ⟨?_, ?_, ?_, ?_, ?_, ?_⟩
  · intro natType hg
    have hnext := hrun natType ((s.probe.resume_goesBy natType).1 hg)
    rw [ProbedNat.applied] at hnext ⊢
    change Run _ ⟨s.registries, s.probe.resume.mappings⟩
    rw [s.probe.resume_mappings]
    exact hnext
  · rw [← s.probe.resume_servers] at hfamily
    exact hfamily
  · rw [← s.probe.resume_servers] at hfound
    exact fun hn => hfound fun he => hn ((s.probe.resume_initial).2 he)
  · rw [← s.probe.resume_servers, ← s.probe.resume_mappings] at hmappings
    exact hmappings
  · rw [← s.probe.resume_natType] at hclass
    exact hclass
  · intro started hm
    exact nomatch (s.probe.resume_measurement).symm.trans hm

theorem probeInv_step (h : ProbeInv rules nat s) (ha : Restoring nat s e)
    (hs : NatStep rules nat s e s') : ProbeInv rules nat s' := by
  cases hs with
  | poll | pend =>
    exact ⟨h.heartbeats, h.family, h.found, h.mappings, h.classified, h.current⟩
  | discover servers hp hs hf =>
    have hrun := h.heartbeats
    have hclass := h.classified
    rw [ProbedNat.applied, hs] at hrun
    rw [hs] at hclass
    exact ⟨hrun, fun _ => mem_familyOf, fun _ => hf, nofun, hclass, nofun⟩
  | classify natType hp hs =>
    obtain ⟨hrun, hfamily, hfound, _, hclass, _⟩ := h
    have hstart := hrun natType
    rw [ProbedNat.applied, hs] at hstart
    rw [hs] at hfamily hfound hclass
    refine ⟨?_, hfamily, fun _ => hfound nofun, nofun, ?_, nofun⟩
    · intro other ho
      cases ho
      exact hstart trivial
    · change s.classified ++ natType.toList = natType.toList
      rw [hclass]
      rfl
  | measure hp hs => exact probeInv_heartbeat h hs fun _ he => (Option.some.inj he).symm
  | tick hs =>
    have hcurrent := h.current
    rw [hs] at hcurrent
    exact probeInv_heartbeat h hs hcurrent
  | @apply servers natType mappings due started beat _ responses faults order hp hs hb =>
    obtain ⟨hrun, hfamily, hfound, hmappings, hclass, _⟩ := h
    have hbeat : Restores (nat.probedAs natType) beat s.applied := by
      rw [Restoring, hs] at ha
      exact ha
    have hnext := (hrun natType (hs ▸ rfl)).beat hbeat
    have happlied : s.applied.mappings = mappings := by
      rw [ProbedNat.applied, hs]
      rfl
    rw [hs] at hfamily hfound hmappings hclass
    refine ⟨?_, hfamily, fun _ => hfound nofun, ?_, hclass, nofun⟩
    · intro other ho
      cases ho
      exact hnext
    · intro pair hm
      change pair ∈ (heartbeat _ beat s.applied).2.mappings.entries at hm
      obtain he | he := heartbeat_mappings (nat.probedAs natType) beat s.applied
      · rw [he, happlied] at hm
        exact hmappings pair hm
      · rw [he, hb] at hm
        exact mem_observed (mem_collect hm)
  | resume localAddr hp =>
    cases localAddr with
    | none => exact h
    | some _ => exact probeInv_resume h
  | others docked hq ho =>
    obtain ⟨hrun, hfamily, hfound, hmappings, hclass, hcurrent⟩ := h
    exact ⟨fun natType hg => (hrun natType hg).others hq ho, hfamily, hfound, hmappings, hclass,
      hcurrent⟩

/-- What holds of the NAT state of a binding however polls, resumes, ticks and others are
interleaved. -/
structure NatGuarantees (rules : AddressRules A) (nat : NatBinding A S NatType)
    (s : ProbedNat A S NatType) : Prop where
  /-- What the polls do to the registries is a run of heartbeats. -/
  heartbeats : Run (nat.probedAs s.probe.natType) s.applied
  applied : Applied (nat.probedAs s.probe.natType) s.probe.mappings s.registries
  servers : ∀ server ∈ s.probe.servers, rules.isIpv4 server = rules.isIpv4 nat.bound
  found : s.probe ≠ .initial → s.probe.servers ≠ []
  mappings : ∀ pair ∈ s.probe.mappings.entries,
    pair.1 ∈ s.probe.servers ∧ rules.usable nat.bound pair.2 = true
  /-- Nothing is published before the classification is over. -/
  unclassified : ¬ s.probe.IsHeartbeat → s.classified = [] ∧
    ∀ endpoint, s.registries.outer endpoint = some nat.socket → endpoint = .direct nat.bound
  classified : s.classified = s.probe.natType.toList
  current : ∀ started, s.probe.measurement = some started → started = s.resumes

theorem ProbeInv.guarantees (h : ProbeInv rules nat s) : NatGuarantees rules nat s := by
  have hgoes : s.probe.GoesBy s.probe.natType := by
    cases s.probe with
    | initial | classifying => trivial
    | heartbeat => rfl
  have hrun := h.heartbeats _ hgoes
  refine ⟨hrun, hrun.applied, h.family, h.found, h.mappings, fun hn => ?_, h.classified, h.current⟩
  have hnone : s.probe.natType = none ∧ s.probe.mappings.entries = [] := by
    cases hp : s.probe with
    | initial | classifying => exact ⟨rfl, rfl⟩
    | heartbeat =>
      rw [hp] at hn
      exact absurd trivial hn
  refine ⟨?_, fun endpoint ho => ?_⟩
  · rw [h.classified, hnone.1]
    rfl
  · by_contra hne
    have hpublished := (hrun.applied.outer endpoint hne).1 ho
    obtain ⟨_, pair, hm, _⟩ := mem_publishedEndpoints.1 hpublished
    change pair ∈ s.probe.mappings.entries at hm
    rw [hnone.2] at hm
    cases hm

/-- The servers stay what they are once they are found, and a heartbeat stays one of the type that
it began with. -/
structure SameNat (s t : ProbedNat A S NatType) : Prop where
  found : t.probe ≠ .initial
  servers : t.probe.servers = s.probe.servers
  heartbeat : s.probe.IsHeartbeat → t.probe.IsHeartbeat ∧ t.probe.natType = s.probe.natType ∧
    t.classified = s.classified

theorem sameNat_step (h : SameNat s t) (hs : NatStep rules nat t e s') : SameNat s s' := by
  obtain ⟨hfound, hservers, hbeat⟩ := h
  cases hs with
  | poll | pend | others => exact ⟨hfound, hservers, hbeat⟩
  | discover servers hp hs => exact absurd hs hfound
  | classify natType hp hs =>
    rw [hs] at hservers hbeat
    exact ⟨nofun, hservers, fun hb => (hbeat hb).1.elim⟩
  | measure hp hs | tick hs =>
    rw [hs] at hservers hbeat
    exact ⟨nofun, hservers, hbeat⟩
  | apply responses faults order hp hs =>
    rw [hs] at hservers hbeat
    exact ⟨nofun, hservers, hbeat⟩
  | resume localAddr hp =>
    cases localAddr with
    | none => exact ⟨hfound, hservers, hbeat⟩
    | some _ =>
      refine ⟨fun he => hfound ((t.probe.resume_initial).1 he), ?_, fun hb => ?_⟩
      · exact (t.probe.resume_servers).trans hservers
      · obtain ⟨hb, htype, hclass⟩ := hbeat hb
        exact ⟨(t.probe.resume_isHeartbeat).2 hb, (t.probe.resume_natType).trans htype, hclass⟩

/-- The machine of polls and resumes does to the registries what a run of heartbeats does, with
one classification for the life of the binding, with usable mappings of its own servers only, and
with no measurement from before the last resume that began it again. -/
theorem nat_machine_guarantees
    (hq : ∀ endpoint, registries.quic endpoint = some nat.socket ↔ endpoint = .direct nat.bound)
    (ho : ∀ endpoint, registries.outer endpoint = some nat.socket →
      endpoint = .direct nat.bound)
    (h : Reaches (NatStep rules nat) (Restoring nat) (probedNat NatType registries docked) s) :
    NatGuarantees rules nat s ∧ (s.probe ≠ .initial → ∀ t,
      Reaches (NatStep rules nat) (fun _ _ => True) s t → SameNat s t) := by
  have hinv := h.invariant (probeInv_start hq ho docked) fun _ _ _ hi ha hs =>
    probeInv_step hi ha hs
  refine ⟨hinv.guarantees, fun hfound t ht => ?_⟩
  have hsame : SameNat s s := ⟨hfound, rfl, fun hb => ⟨hb, rfl, rfl⟩⟩
  exact ht.invariant hsame fun _ _ _ hi _ hs => sameNat_step hi hs

end Runs

/-- Every address is an IPv4 one that can be reached. -/
def anyAddress : AddressRules Nat := ⟨fun _ => true, fun _ => 1, fun _ => true⟩

theorem boundRegistries_quic (endpoint : EndpointAddr Nat) :
    boundRegistries.quic endpoint = some 1 ↔ endpoint = .direct 10 := by
  change (if endpoint = .direct 10 then some 1 else none) = some 1 ↔ endpoint = .direct 10
  split
  · next h => exact iff_of_true rfl h
  · next h => exact iff_of_false nofun h

theorem boundRegistries_outer (endpoint : EndpointAddr Nat)
    (h : boundRegistries.outer endpoint = some 1) : endpoint = .direct 10 := by
  cases h

/-- The network is resumed behind the first heartbeat of a binding, at the second attempt. -/
theorem nat_machine_guarantees_resumed : ∃ s : ProbedNat Nat Nat Bool,
    s.probe.natType = some true ∧ s.classified = [true] ∧ s.resumes = 1 ∧
      NatGuarantees anyAddress coneBinding s ∧
      ∀ t, Reaches (NatStep anyAddress coneBinding) (fun _ _ => True) s t → SameNat s t := by
  have h := @Reaches.refl _ _ (NatStep anyAddress coneBinding) (Restoring coneBinding)
    (probedNat Bool boundRegistries (some 1))
  have h := h.tail (by trivial) (.poll rfl rfl)
  have h := h.tail (by trivial) (.discover [20] rfl rfl (by decide))
  have h := h.tail (by trivial) (.classify (some true) rfl rfl)
  have h := h.tail (by trivial) (.measure rfl rfl)
  have h := h.tail (by exact fun _ _ _ _ => rfl) (.apply [some 30]
    ⟨fun _ => false, fun _ => false, fun _ => false⟩ ⟨id, .refl⟩ rfl rfl rfl)
  have h := h.tail (by trivial) (.pend rfl)
  have h := h.tail (by trivial) (.resume none rfl)
  have h := h.tail (by trivial) (.resume (some 10) rfl)
  obtain ⟨hg, hsame⟩ := nat_machine_guarantees boundRegistries_quic boundRegistries_outer h
  exact ⟨_, rfl, rfl, rfl, hg, hsame nofun⟩

end Dhttp.Network
