import Dhttp.Lib.Interleaving
import Dhttp.Network.Reconciliation

namespace Dhttp.Network
open Dhttp.Lib Dhttp.Home
set_option autoImplicit true

inductive ResumeError where
  | stopped
  | watcher
  | enumeration

/-- Where a call of `resume` is; it waits for its new watcher without the lock. -/
inductive ResumePc where
  | idle
  | watching
  | returned (result : Except ResumeError Unit)
  | dropped

structure NetworkBinding where
  device : Text
  address : SocketAddr
  deriving DecidableEq

/-- The state under the mutex, taken once the task is gone (`ctx` is then what is left on record),
and the calls of `resume`. -/
structure Interfaces (S I : Type) where
  ctx : InterfacesCtx S
  present : Bool
  poisoned : Bool
  resume : I → ResumePc

/-- What a step does to the bindings. -/
inductive InterfacesEvent where
  | scan (snapshot : List Interface)
  | stop
  | other

/-- The interfaces before the first scan of `init`. -/
def newInterfaces (I : Type) (snapshot : List Interface) (stores : Stores S)
    (finished : S → Bool) : Interfaces S I where
  ctx := ⟨snapshot, [], stores, finished, [], []⟩
  present := true
  poisoned := false
  resume _ := .idle

section Steps
variable {S D I : Type} [DecidableEq S] [DecidableEq I]

namespace Interfaces

def go (s : Interfaces S I) (i : I) (pc : ResumePc) : Interfaces S I :=
  { s with resume := Function.update s.resume i pc }

def Usable (s : Interfaces S I) : Prop := s.present = true ∧ s.poisoned = false

/-- A scan of a snapshot. -/
def rescan (platform : Platform S D) (out : Outcomes S D) (snapshot : List Interface)
    (s : Interfaces S I) : Interfaces S I :=
  { s with ctx := scan platform out { s.ctx with snapshot := snapshot } }

def activeBindings (s : Interfaces S I) : Except ResumeError (List NetworkBinding) :=
  if s.poisoned || !s.present then .error .stopped
  else .ok (s.ctx.bindings.filterMap fun entry =>
    if live s.ctx entry.2 then some ⟨entry.1.name, entry.2.bound⟩ else none)

end Interfaces

/-- The drop of the context. -/
def InterfacesCtx.dropped (platform : Platform S D) (ctx : InterfacesCtx S) : InterfacesCtx S :=
  ctx.bindings.foldl (InterfacesCtx.remove platform) ctx

/-- A poll of the task, an operation of a call of `resume`, the end of the task, or what others do
to the stores; the order of the bindings is that of a hash map. -/
inductive InterfacesStep (platform : Platform S D) :
    Interfaces S I → InterfacesEvent → Interfaces S I → Prop
  /-- The snapshot is the old one unless the watcher has changed and the enumeration succeeds. -/
  | poll {s : Interfaces S I} (out : Outcomes S D) (snapshot : List Interface) (hu : s.Usable)
      (hn : NewSockets out { s.ctx with snapshot := snapshot }
        (wanted platform { s.ctx with snapshot := snapshot })) :
    InterfacesStep platform s (.scan snapshot) (s.rescan platform out snapshot)
  | watch {s : Interfaces S I} (hi : s.resume i = .idle) (hu : s.Usable) :
    InterfacesStep platform s .other (s.go i .watching)
  | watchFails {s : Interfaces S I} (hi : s.resume i = .idle) (hu : s.Usable) :
    InterfacesStep platform s .other (s.go i (.returned (.error .watcher)))
  | refuse {s : Interfaces S I} (hi : s.resume i = .idle ∨ s.resume i = .watching)
      (hu : ¬ s.Usable) :
    InterfacesStep platform s .other (s.go i (.returned (.error .stopped)))
  | refresh {s : Interfaces S I} (out : Outcomes S D) (snapshot : List Interface)
      (hi : s.resume i = .watching) (hu : s.Usable)
      (hn : NewSockets out { s.ctx with snapshot := snapshot }
        (wanted platform { s.ctx with snapshot := snapshot })) :
    InterfacesStep platform s (.scan snapshot)
      ((s.rescan platform out snapshot).go i (.returned (.ok ())))
  /-- Nothing is changed where the interfaces cannot be enumerated. -/
  | refreshFails {s : Interfaces S I} (hi : s.resume i = .watching) (hu : s.Usable) :
    InterfacesStep platform s .other (s.go i (.returned (.error .enumeration)))
  | dropResume {s : Interfaces S I} (hi : s.resume i = .idle ∨ s.resume i = .watching) :
    InterfacesStep platform s .other (s.go i .dropped)
  /-- A holder of the lock panics between its operations. -/
  | poison {s : Interfaces S I} (hp : s.present = true) :
    InterfacesStep platform s .other { s with poisoned := true }
  /-- The guard of the task takes the state, also from a poisoned lock. -/
  | stop {s : Interfaces S I} (hp : s.present = true) :
    InterfacesStep platform s .stop { s with ctx := s.ctx.dropped platform, present := false }
  | others {s : Interfaces S I} (finished : S → Bool) (hb : bindings.Perm s.ctx.bindings)
      (hr : ∀ socket ∈ s.ctx.created, (∀ entry ∈ s.ctx.bindings, entry.2.socket ≠ socket) →
        OwnsNothing stores socket) :
    InterfacesStep platform s .other { s with ctx :=
      ⟨s.ctx.snapshot, bindings, stores, finished, s.ctx.created, s.ctx.inserted⟩ }

end Steps

section Runs
variable {S D I : Type} [DecidableEq S] [DecidableEq I] {platform : Platform S D}
variable {s s' : Interfaces S I}

omit [DecidableEq S] in
theorem valid_snapshot {ctx : InterfacesCtx S} (h : Valid platform ctx)
    (snapshot : List Interface) : Valid platform { ctx with snapshot := snapshot } :=
  ⟨h.keys, h.bound, h.bounds, h.created, h.residue⟩

theorem dropped_bindings (platform : Platform S D) (ctx : InterfacesCtx S) :
    (ctx.dropped platform).bindings = [] := by
  rw [InterfacesCtx.dropped, (withdrawn_foldl ctx.bindings ctx).bindings, List.filter_eq_nil_iff]
  intro entry hm
  rw [decide_eq_true_eq, not_not]
  exact List.mem_map_of_mem hm

theorem dropped_created (platform : Platform S D) (ctx : InterfacesCtx S) :
    (ctx.dropped platform).created = ctx.created := by
  rw [InterfacesCtx.dropped, (withdrawn_foldl ctx.bindings ctx).rest]

/-- Nothing of any socket is left when the context is dropped. -/
theorem dropped_ownsNothing {ctx : InterfacesCtx S} (h : Valid platform ctx)
    (hm : socket ∈ ctx.created) : OwnsNothing (ctx.dropped platform).stores socket := by
  have hw : Withdrawn platform ctx.bindings ctx (ctx.dropped platform) :=
    withdrawn_foldl ctx.bindings ctx
  by_cases hb : ∃ entry ∈ ctx.bindings, entry.2.socket = socket
  · obtain ⟨entry, he, rfl⟩ := hb
    refine ⟨?_, ?_, ?_⟩
    · intro addr hd
      exact ((hw.dock addr _).1 hd).2 entry he rfl
    · intro endpoint hq
      exact ((hw.quic endpoint _).1 hq).2 entry he rfl
    · intro endpoint publication hp hs
      apply ((hw.book endpoint _).1 hp).2 entry he
      rw [hs, h.bound entry he]
  · have hnone := h.residue socket hm fun entry he hs => hb ⟨entry, he, hs⟩
    exact ⟨fun addr hd => hnone.1 addr ((hw.dock addr _).1 hd).1,
      fun endpoint hq => hnone.2.1 endpoint ((hw.quic endpoint _).1 hq).1,
      fun endpoint publication hp => hnone.2.2 endpoint _ ((hw.book endpoint _).1 hp).1⟩

/-- What is kept of the interfaces all along. -/
structure InterfacesInv (platform : Platform S D) (s : Interfaces S I) : Prop where
  valid : Valid platform s.ctx
  stopped : s.present = false → s.ctx.bindings = []

omit [DecidableEq S] [DecidableEq I] in
theorem interfacesInv_start (snapshot : List Interface) (stores : Stores S)
    (finished : S → Bool) : InterfacesInv platform (newInterfaces I snapshot stores finished) :=
  ⟨⟨.nil, nofun, .nil, nofun, nofun⟩, nofun⟩

omit [DecidableEq I] in
theorem rescan_valid (h : Valid platform s.ctx)
    (hn : NewSockets out { s.ctx with snapshot := snapshot }
      (wanted platform { s.ctx with snapshot := snapshot })) :
    Valid platform (s.rescan platform out snapshot).ctx :=
  (scan_grown (valid_snapshot h snapshot) hn).2.1

theorem interfacesInv_step (h : InterfacesInv platform s)
    (hs : InterfacesStep platform s e s') : InterfacesInv platform s' := by
  cases hs with
  | poll out snapshot hu hn | refresh out snapshot hi hu hn =>
    refine ⟨rescan_valid h.valid hn, fun hp => ?_⟩
    exact Bool.noConfusion (hu.1.symm.trans hp)
  | watch | watchFails | refuse | refreshFails | dropResume | poison =>
    exact ⟨h.valid, h.stopped⟩
  | stop hp =>
    have hnone := dropped_bindings platform s.ctx
    refine ⟨⟨?_, ?_, ?_, ?_, ?_⟩, fun _ => hnone⟩
    · rw [keys, hnone]
      exact .nil
    · rw [hnone]
      exact List.forall_mem_nil _
    · rw [hnone]
      exact .nil
    · rw [hnone]
      exact List.forall_mem_nil _
    · intro socket hm _
      rw [dropped_created] at hm
      exact dropped_ownsNothing h.valid hm
  | others finished hb hr =>
    have hv := h.valid
    refine ⟨⟨?_, ?_, ?_, ?_, ?_⟩, fun hp => ?_⟩
    · exact (hb.map Prod.fst).nodup_iff.2 hv.keys
    · exact fun entry hm => hv.bound entry (hb.mem_iff.1 hm)
    · exact (hb.map _).nodup_iff.2 hv.bounds
    · exact fun entry hm => hv.created entry (hb.mem_iff.1 hm)
    · exact fun socket hm hn => hr socket hm fun entry he => hn entry (hb.mem_iff.2 he)
    · rw [h.stopped hp] at hb
      exact List.perm_nil.1 hb

/-- What holds of the interfaces however polls, resumes and the end of the task are interleaved. -/
structure InterfacesGuarantees (platform : Platform S D) (s : Interfaces S I) : Prop where
  /-- What is reported is docked for a live socket of the network's own. -/
  reported : ∀ reports, s.activeBindings = .ok reports → (reports.map (·.address)).Nodup ∧
    ∀ report ∈ reports, ∃ socket ∈ s.ctx.created, platform.localAddr socket = report.address ∧
      s.ctx.finished socket = false ∧ s.ctx.stores.dock report.address = some socket
  withdrawn : ∀ socket ∈ s.ctx.created, (∀ entry ∈ s.ctx.bindings, entry.2.socket ≠ socket) →
    OwnsNothing s.ctx.stores socket
  stopped : s.present = false → s.activeBindings = .error .stopped ∧
    ∀ socket ∈ s.ctx.created, OwnsNothing s.ctx.stores socket

omit [DecidableEq I] in
theorem mem_activeBindings (h : s.activeBindings = .ok reports) :
    reports = (s.ctx.bindings.filter fun entry => live s.ctx entry.2).map
      fun entry => ⟨entry.1.name, entry.2.bound⟩ := by
  rw [Interfaces.activeBindings] at h
  obtain ⟨_, he⟩ | ⟨_, he⟩ := ite_eq_iff.1 h
  · cases he
  · rw [← Except.ok.inj he, ← List.filterMap_eq_map, ← List.filterMap_filter]
    rfl

omit [DecidableEq I] in
theorem InterfacesInv.guarantees (h : InterfacesInv platform s) :
    InterfacesGuarantees platform s := by
  refine ⟨fun reports hr => ?_, h.valid.residue, fun hp => ⟨?_, fun socket hm => ?_⟩⟩
  · rw [mem_activeBindings hr, List.map_map]
    refine ⟨h.valid.bounds.sublist (List.filter_sublist.map _), fun report hm => ?_⟩
    obtain ⟨entry, hentry, rfl⟩ := List.mem_map.1 hm
    obtain ⟨he, hl⟩ := List.mem_filter.1 hentry
    rw [live, Bool.and_eq_true, Bool.not_eq_true', beq_iff_eq] at hl
    exact ⟨entry.2.socket, h.valid.created entry he, (h.valid.bound entry he).symm, hl⟩
  · rw [Interfaces.activeBindings, hp]
    exact if_pos (Bool.or_true _)
  · apply h.valid.residue socket hm
    rw [h.stopped hp]
    exact List.forall_mem_nil _

/-- The calls of a stopped network fail, and it creates nothing any more. -/
structure Ended (s t : Interfaces S I) : Prop where
  stopped : t.present = false
  created : t.ctx.created = s.ctx.created
  resumed : ∀ i, t.resume i = .returned (.ok ()) → s.resume i = .returned (.ok ())

omit [DecidableEq S] in
theorem ended_go (h : Ended s t) (i : I) (hpc : pc ≠ .returned (.ok ())) :
    Ended s (t.go i pc) := by
  refine ⟨h.stopped, h.created, fun j hj => ?_⟩
  by_cases he : j = i
  · rw [he] at hj
    change Function.update t.resume i pc i = _ at hj
    rw [Function.update_self] at hj
    exact absurd hj hpc
  · change Function.update t.resume i pc j = _ at hj
    rw [Function.update_of_ne he] at hj
    exact h.resumed j hj

theorem ended_step (h : Ended s t) (hs : InterfacesStep platform t e t') : Ended s t' := by
  have hgone {P : Prop} (hp : t.present = true) : P := nomatch h.stopped.symm.trans hp
  cases hs with
  | poll out snapshot hu hn | refresh out snapshot hi hu hn => exact hgone hu.1
  | watch hi hu | watchFails hi hu | refreshFails hi hu => exact hgone hu.1
  | refuse => exact ended_go h _ nofun
  | dropResume => exact ended_go h _ nofun
  | poison hp | stop hp => exact hgone hp
  | others => exact ⟨h.stopped, h.created, h.resumed⟩

/-- The binding stays live, and every snapshot that is scanned still wants it. -/
def Keeps (platform : Platform S D) (entry : InterfaceAddress × Binding S) (s : Interfaces S I) :
    InterfacesEvent → Prop
  | .scan snapshot => live s.ctx entry.2 = true ∧
      entry.1 ∈ (interfaces platform.os platform.boundDevice snapshot).map Prod.fst
  | .stop => False
  | .other => True

omit [DecidableEq I] in
/-- A scan keeps the bindings that are live and wanted. -/
theorem rescan_kept (h : Valid platform s.ctx) (hm : entry ∈ s.ctx.bindings)
    (hk : Keeps platform entry s (.scan snapshot))
    (hn : NewSockets out { s.ctx with snapshot := snapshot }
      (wanted platform { s.ctx with snapshot := snapshot })) :
    entry ∈ (s.rescan platform out snapshot).ctx.bindings := by
  have hv := valid_snapshot h snapshot
  have ho : obsolete platform { s.ctx with snapshot := snapshot } entry = false := by
    have hlive : live { s.ctx with snapshot := snapshot } entry.2 = true := hk.1
    rw [obsolete, hlive, wanted, List.contains_iff_mem.2 hk.2]
    rfl
  exact (scan_grown hv hn).1.kept ((mem_withdrawn hv).2 ⟨hm, ho⟩)

theorem kept_step (h : InterfacesInv platform s) (hm : entry ∈ s.ctx.bindings)
    (hk : Keeps platform entry s e) (hs : InterfacesStep platform s e s') :
    entry ∈ s'.ctx.bindings := by
  cases hs with
  | poll out snapshot hu hn | refresh out snapshot hi hu hn =>
    exact rescan_kept h.valid hm hk hn
  | watch | watchFails | refuse | refreshFails | dropResume | poison => exact hm
  | stop => exact hk.elim
  | others finished hb hr => exact hb.mem_iff.2 hm

/-- The network reports only live sockets of its own and leaves nothing of a socket that it gives
up, at the latest when its task ends; its calls fail from then on; and a binding that stays live
and wanted keeps its socket through every poll and every resume. -/
theorem interfaces_lifecycle (h : Reaches (InterfacesStep platform) (fun _ _ => True)
      (newInterfaces I snapshot stores finished) s) :
    InterfacesGuarantees platform s ∧
    (s.present = false → ∀ t, Reaches (InterfacesStep platform) (fun _ _ => True) s t →
      Ended s t) ∧
    ∀ entry ∈ s.ctx.bindings, ∀ t,
      Reaches (InterfacesStep platform) (Keeps platform entry) s t → entry ∈ t.ctx.bindings := by
  have hinit : InterfacesInv platform (newInterfaces I snapshot stores finished) :=
    interfacesInv_start snapshot stores finished
  have hinv := h.invariant hinit fun _ _ _ hi _ hs => interfacesInv_step hi hs
  refine ⟨hinv.guarantees, fun hp t ht => ?_, fun entry hm t ht => ?_⟩
  · have hends : Ended s s := ⟨hp, rfl, fun _ hi => hi⟩
    exact ht.invariant hends fun _ _ _ hi _ hs => ended_step hi hs
  · have hkept := @Reaches.invariant _ _ _ _ _ _
      (fun t => InterfacesInv platform t ∧ entry ∈ t.ctx.bindings) ht ⟨hinv, hm⟩
      fun _ _ _ hi hk hs => ⟨interfacesInv_step hi.1 hs, kept_step hi.1 hi.2 hk hs⟩
    exact hkept.2

/-- The binding of the only interface outlives a resume. -/
theorem interfaces_lifecycle_resumed : ∃ s : Interfaces Nat Unit,
    s.resume () = .returned (.ok ()) ∧
      s.ctx.bindings = (scan oneAddress bindsOne oneInterface).bindings ∧
      InterfacesGuarantees oneAddress s := by
  have h := @Reaches.refl _ _ (InterfacesStep (I := Unit) oneAddress) (fun _ _ => True)
    (newInterfaces Unit oneInterface.snapshot emptyStores fun _ => false)
  have h := h.tail trivial (.poll bindsOne oneInterface.snapshot ⟨rfl, rfl⟩
    oneInterface_newSockets)
  have h := h.tail trivial (.watch (i := ()) rfl ⟨rfl, rfl⟩)
  have h := h.tail trivial (.refresh bindsNone oneInterface.snapshot (i := ()) rfl ⟨rfl, rfl⟩
    ⟨nofun, List.pairwise_singleton ..⟩)
  exact ⟨_, rfl, rfl, (interfaces_lifecycle h).1⟩

end Runs

end Dhttp.Network
