import Dhttp.Network.InterfaceScans

namespace Dhttp.Network
open Dhttp.Lib Dhttp.Home
set_option autoImplicit true

section Reconciliation
variable {S D : Type} [DecidableEq S] {platform : Platform S D} {out : Outcomes S D}

def withdrawn (platform : Platform S D) (ctx : InterfacesCtx S) : InterfacesCtx S :=
  (ctx.bindings.filter (obsolete platform ctx)).foldl (InterfacesCtx.remove platform) ctx

theorem withdrawn_withdrawn (platform : Platform S D) (ctx : InterfacesCtx S) :
    Withdrawn platform (ctx.bindings.filter (obsolete platform ctx)) ctx (withdrawn platform ctx) :=
  withdrawn_foldl _ ctx

theorem mem_withdrawn (hv : Valid platform ctx) :
    entry ∈ (withdrawn platform ctx).bindings ↔
      entry ∈ ctx.bindings ∧ obsolete platform ctx entry = false := by
  rw [(withdrawn_withdrawn platform ctx).bindings, List.mem_filter, decide_eq_true_eq]
  refine and_congr_right fun hm => ?_
  rw [← Bool.not_eq_true]
  refine not_congr ⟨fun hk => ?_, fun ho => ?_⟩
  · obtain ⟨other, ho, hk⟩ := List.mem_map.1 hk
    obtain ⟨hmo, ho⟩ := List.mem_filter.1 ho
    rw [hv.entry_eq_of_key hm hmo hk.symm]
    exact ho
  · exact List.mem_map_of_mem (List.mem_filter.2 ⟨hm, ho⟩)

theorem live_of_not_obsolete (ho : obsolete platform ctx entry = false) :
    live ctx entry.2 = true ∧ entry.1 ∈ (wanted platform ctx).map Prod.fst := by
  rw [obsolete, Bool.or_eq_false_iff, Bool.not_eq_false', Bool.not_eq_false',
    List.contains_iff_mem] at ho
  exact ho

theorem withdrawn_created : (withdrawn platform ctx).created = ctx.created := by
  rw [(withdrawn_withdrawn platform ctx).rest]

theorem withdrawn_inserted : (withdrawn platform ctx).inserted = ctx.inserted := by
  rw [(withdrawn_withdrawn platform ctx).rest]

/-- The withdrawal of bindings shows no difference for a socket that has none of them and is not
published at their addresses. -/
theorem withdrawn_sameFor
    (hs : ∀ entry ∈ ctx.bindings, obsolete platform ctx entry = true →
      entry.2.socket ≠ socket)
    (hb : ∀ entry ∈ ctx.bindings, obsolete platform ctx entry = true →
      ∀ endpoint outer, ctx.stores.book endpoint = some ⟨socket, outer⟩ →
        entry.2.bound ≠ platform.localAddr socket) :
    SameFor socket ctx.stores (withdrawn platform ctx).stores := by
  have hw := withdrawn_withdrawn platform ctx
  have hs' : ∀ entry ∈ ctx.bindings.filter (obsolete platform ctx), entry.2.socket ≠ socket :=
    fun entry hm => hs entry (List.mem_filter.1 hm).1 (List.mem_filter.1 hm).2
  refine ⟨fun addr => ?_, fun endpoint => ?_, fun endpoint outer => ?_⟩
  · exact (hw.dock addr socket).trans (and_iff_left hs')
  · exact (hw.quic endpoint socket).trans (and_iff_left hs')
  · refine (hw.book endpoint _).trans (and_iff_left_of_imp fun hp entry hm => ?_)
    exact hb entry (List.mem_filter.1 hm).1 (List.mem_filter.1 hm).2 endpoint outer hp

theorem withdrawn_ownsNothing (h : OwnsNothing ctx.stores socket) :
    OwnsNothing (withdrawn platform ctx).stores socket := by
  have hw := withdrawn_withdrawn platform ctx
  exact ⟨fun addr hd => h.1 addr ((hw.dock addr socket).1 hd).1,
    fun endpoint hq => h.2.1 endpoint ((hw.quic endpoint socket).1 hq).1,
    fun endpoint publication hb => h.2.2 endpoint publication ((hw.book endpoint _).1 hb).1⟩

theorem withdrawn_valid (hv : Valid platform ctx) :
    Valid platform (withdrawn platform ctx) ∧ Docked (withdrawn platform ctx) := by
  have hw := withdrawn_withdrawn platform ctx
  have hsub : (withdrawn platform ctx).bindings.Sublist ctx.bindings := by
    rw [hw.bindings]
    exact List.filter_sublist
  refine ⟨⟨hv.keys.sublist (hsub.map _), fun entry hm => hv.bound entry (hsub.subset hm),
    hv.bounds.sublist (hsub.map _), fun entry hm => ?_, fun socket hm hn => ?_⟩, fun entry hm => ?_⟩
  · rw [withdrawn_created]
    exact hv.created entry (hsub.subset hm)
  · rw [withdrawn_created] at hm
    by_cases hb : ∃ entry ∈ ctx.bindings, entry.2.socket = socket
    · obtain ⟨entry, he, rfl⟩ := hb
      have ho : obsolete platform ctx entry = true := by
        by_contra ho
        exact hn entry ((mem_withdrawn hv).2 ⟨he, Bool.eq_false_iff.2 ho⟩) rfl
      have hm := List.mem_filter.2 ⟨he, ho⟩
      refine ⟨fun addr hd => ((hw.dock addr _).1 hd).2 entry hm rfl,
        fun endpoint hq => ((hw.quic endpoint _).1 hq).2 entry hm rfl,
        fun endpoint publication hb hs => ((hw.book endpoint _).1 hb).2 entry hm ?_⟩
      rw [hs, hv.bound entry he]
    · refine withdrawn_ownsNothing (hv.residue socket hm fun entry he hs => hb ⟨entry, he, hs⟩)
  · obtain ⟨he, ho⟩ := (mem_withdrawn hv).1 hm
    have hlive := (live_of_not_obsolete ho).1
    rw [live, Bool.and_eq_true, beq_iff_eq] at hlive
    refine (hw.dock _ _).2 ⟨hlive.2, fun other ho' hs => ?_⟩
    obtain ⟨hmo, ho'⟩ := List.mem_filter.1 ho'
    rw [hv.entry_eq_of_socket hmo he hs, ho] at ho'
    cases ho'

theorem scan_grown (hv : Valid platform ctx) (hn : NewSockets out ctx (wanted platform ctx)) :
    Grown out (wanted platform ctx) (withdrawn platform ctx) (scan platform out ctx) ∧
      Valid platform (scan platform out ctx) ∧ Docked (scan platform out ctx) := by
  obtain ⟨hv', hd'⟩ := withdrawn_valid hv
  have hnew : NewSockets out (withdrawn platform ctx) (wanted platform ctx) := by
    refine ⟨fun device hm socket hb => ?_, hn.2⟩
    obtain ⟨hc, ho⟩ := hn.1 device hm socket hb
    exact ⟨by rw [withdrawn_created]; exact hc, withdrawn_ownsNothing ho⟩
  have hp := out.order.perm (wanted platform ctx)
  obtain ⟨hg, hscan⟩ := binds_grown hv' hd' (hnew.perm hp)
  exact ⟨hg.perm hp, hscan⟩

/-- What a scan is for. -/
structure Reconciled (platform : Platform S D) (out : Outcomes S D) (ctx ctx' : InterfacesCtx S) :
    Prop where
  /-- The bindings are wanted, and live or new. -/
  wanted : ∀ entry ∈ ctx'.bindings, entry.1 ∈ (wanted platform ctx).map Prod.fst ∧
    (entry ∈ ctx.bindings ∧ live ctx entry.2 = true ∨
      entry.2.socket ∉ ctx.created ∧ (∃ device, out.bind entry.1 device = some entry.2.socket) ∧
        ctx'.stores.dock entry.2.bound = some entry.2.socket)
  kept : ∀ entry ∈ ctx.bindings, live ctx entry.2 = true →
    entry.1 ∈ (Network.wanted platform ctx).map Prod.fst →
      entry ∈ ctx'.bindings ∧ SameFor entry.2.socket ctx.stores ctx'.stores
  /-- Only new sockets are published. -/
  inserted : ∃ inserted, ctx'.inserted = ctx.inserted ++ inserted ∧
    ∀ insertion ∈ inserted, insertion.1 ∉ ctx.created
  residue : ∀ socket ∈ ctx'.created, (∀ entry ∈ ctx'.bindings, entry.2.socket ≠ socket) →
    OwnsNothing ctx'.stores socket
  foreign : ∀ socket, socket ∉ ctx'.created → SameFor socket ctx.stores ctx'.stores

/-- No address of a binding to be removed has publications of a socket from elsewhere. -/
def UnsharedAddresses (platform : Platform S D) (ctx : InterfacesCtx S) : Prop :=
  ∀ entry ∈ ctx.bindings, obsolete platform ctx entry = true →
    ∀ endpoint publication, ctx.stores.book endpoint = some publication →
      publication.socket ∉ ctx.created →
        platform.localAddr publication.socket ≠ entry.2.bound

theorem withdrawn_sameFor_foreign (hv : Valid platform ctx) (hu : UnsharedAddresses platform ctx)
    (hs : socket ∉ ctx.created) : SameFor socket ctx.stores (withdrawn platform ctx).stores := by
  refine withdrawn_sameFor (fun entry hm _ he => ?_) fun entry hm ho endpoint outer hp he => ?_
  · exact hs (he ▸ hv.created entry hm)
  · exact hu entry hm ho endpoint _ hp hs he.symm

theorem withdrawn_sameFor_kept (hv : Valid platform ctx) (hm : entry ∈ ctx.bindings)
    (ho : obsolete platform ctx entry = false) :
    SameFor entry.2.socket ctx.stores (withdrawn platform ctx).stores := by
  refine withdrawn_sameFor (fun other hmo hoo hs => ?_) fun other hmo hoo endpoint outer _ hb => ?_
  · rw [hv.entry_eq_of_socket hmo hm hs, ho] at hoo
    cases hoo
  · rw [hv.entry_eq hmo hm (hb.trans (hv.bound entry hm).symm), ho] at hoo
    cases hoo

theorem scan_reconciled (hv : Valid platform ctx) (hn : NewSockets out ctx (wanted platform ctx))
    (hu : UnsharedAddresses platform ctx) :
    Reconciled platform out ctx (scan platform out ctx) := by
  obtain ⟨hg, hv', hd'⟩ := scan_grown hv hn
  refine ⟨fun entry hm => ?_, fun entry hm hl hk => ?_, ?_, hv'.residue, fun socket hs => ?_⟩
  · obtain he | ⟨hc, device, hdev, hk, hb⟩ := hg.entries entry hm
    · obtain ⟨he, ho⟩ := (mem_withdrawn hv).1 he
      obtain ⟨hl, hk⟩ := live_of_not_obsolete ho
      exact ⟨hk, .inl ⟨he, hl⟩⟩
    · rw [withdrawn_created] at hc
      rw [hk] at hb
      exact ⟨hk ▸ List.mem_map_of_mem hdev, .inr ⟨hc, ⟨device.2, hb⟩, hd' entry hm⟩⟩
  · have ho : obsolete platform ctx entry = false := by
      rw [obsolete, hl, List.contains_iff_mem.2 hk]
      rfl
    refine ⟨hg.kept ((mem_withdrawn hv).2 ⟨hm, ho⟩), (withdrawn_sameFor_kept hv hm ho).trans ?_⟩
    refine hg.same entry.2.socket fun hn => absurd ?_ hn
    rw [withdrawn_created]
    exact hv.created entry hm
  · obtain ⟨inserted, he, hi⟩ := hg.inserted
    rw [withdrawn_inserted] at he
    rw [withdrawn_created] at hi
    exact ⟨inserted, he, hi⟩
  · have hc : socket ∉ ctx.created := fun hm =>
      hs (hg.created (by rw [withdrawn_created]; exact hm))
    exact (withdrawn_sameFor_foreign hv hu hc).trans (hg.same socket fun _ => hs)

/-- Contexts that come about by scans, while others do what they like to everything but the
sockets that the context has given up. -/
inductive Reachable (platform : Platform S D) : InterfacesCtx S → Prop
  | start (snapshot : List Interface) (stores : Stores S) (finished : S → Bool) :
    Reachable platform ⟨snapshot, [], stores, finished, [], []⟩
  | scan (out : Outcomes S D) (h : Reachable platform ctx)
      (hn : NewSockets out ctx (wanted platform ctx)) :
    Reachable platform (scan platform out ctx)
  | others (h : Reachable platform ctx) (snapshot : List Interface) (finished : S → Bool)
      (hb : bindings.Perm ctx.bindings)
      (hr : ∀ socket ∈ ctx.created, (∀ entry ∈ ctx.bindings, entry.2.socket ≠ socket) →
        OwnsNothing stores socket) :
    Reachable platform ⟨snapshot, bindings, stores, finished, ctx.created, ctx.inserted⟩

theorem Reachable.valid {ctx : InterfacesCtx S} (h : Reachable platform ctx) :
    Valid platform ctx := by
  induction h with
  | start snapshot stores finished => exact ⟨.nil, nofun, .nil, nofun, nofun⟩
  | scan out h hn ih => exact (scan_grown ih hn).2.1
  | others h snapshot finished hb hr ih =>
    exact ⟨(hb.map Prod.fst).nodup_iff.2 ih.keys, fun entry hm => ih.bound entry (hb.mem_iff.1 hm),
      (hb.map _).nodup_iff.2 ih.bounds, fun entry hm => ih.created entry (hb.mem_iff.1 hm),
      fun socket hm hn => hr socket hm fun entry he => hn entry (hb.mem_iff.2 he)⟩

/-- In every reachable state a scan does what it is for just where no socket from elsewhere is
published at the address of a binding that is to be removed. -/
theorem scan_reconciled_iff (h : Reachable platform ctx)
    (hn : NewSockets out ctx (wanted platform ctx)) :
    Reconciled platform out ctx (scan platform out ctx) ↔ UnsharedAddresses platform ctx := by
  refine ⟨fun hr entry hm ho endpoint publication hp hs hb => ?_, scan_reconciled h.valid hn⟩
  have hg := (scan_grown h.valid hn).1
  have hs' : publication.socket ∉ (scan platform out ctx).created := fun hc => by
    obtain ⟨device, hdev, hbind⟩ := hg.bound _ hc (by rw [withdrawn_created]; exact hs)
    exact (hn.1 device hdev _ hbind).2.2.2 endpoint publication hp rfl
  have hkept := ((hr.foreign _ hs').book endpoint publication.outer).2 hp
  have hwithdrawn := ((hg.same _ fun _ => hs').book endpoint publication.outer).1 hkept
  have hw := withdrawn_withdrawn platform ctx
  exact ((hw.book endpoint _).1 hwithdrawn).2 entry (List.mem_filter.2 ⟨hm, ho⟩) hb.symm

end Reconciliation

/-- Sockets that all get one address, on a platform that excludes no interface. -/
def oneAddress : Platform Nat (BitVec 32) :=
  ⟨[], fun _ index => some index, fun _ => .v4 0x0A000001 4000, fun _ => some .internal⟩

def emptyStores : Stores Nat := ⟨fun _ => none, fun _ => none, fun _ => none⟩

/-- One interface with one address, nothing bound yet. -/
def oneInterface : InterfacesCtx Nat :=
  ⟨[⟨7, ['e'], [], [.v4 0x0A000001]⟩], [], emptyStores, fun _ => false, [], []⟩

def bindsOne : Outcomes Nat (BitVec 32) :=
  ⟨⟨id, .refl⟩, fun _ _ => some 1, fun _ => false, fun _ => false, fun _ => false⟩

theorem oneInterface_newSockets :
    NewSockets bindsOne oneInterface (wanted oneAddress oneInterface) :=
  ⟨fun _ _ _ _ => ⟨nofun, nofun, nofun, nofun⟩, List.pairwise_singleton ..⟩

/-- Every socket has a port of its own. -/
def ownPorts : Platform Nat (BitVec 32) :=
  ⟨[], fun _ index => some index, fun socket => .v4 0x0A000001 (.ofNat 16 socket),
    fun _ => some .internal⟩

def twoInterfaces : InterfacesCtx Nat :=
  ⟨[⟨7, ['e'], [], [.v4 0x0A000001]⟩, ⟨8, ['f'], [], [.v4 0x0A000001]⟩], [], emptyStores,
    fun _ => false, [], []⟩

/-- The sockets are those of the interfaces from `first` on, and the last interface comes first. -/
def bindsFrom (first : Nat) : Outcomes Nat (BitVec 32) :=
  ⟨⟨List.reverse, List.reverse_perm⟩, fun _ device => some (first + device.toNat),
    fun _ => false, fun _ => false, fun _ => false⟩

theorem bindsFrom_newSockets {devices : List (InterfaceAddress × BitVec 32)}
    (hd : (devices.map (·.2.toNat)).Nodup)
    (hf : ∀ device ∈ devices, Fresh ctx (first + device.2.toNat)) :
    NewSockets (bindsFrom first) ctx devices := by
  refine ⟨fun device hm socket hb => ?_, (List.pairwise_map.1 hd).imp ?_⟩
  · cases hb
    exact hf device hm
  · intro device device' hne socket hb hb'
    cases hb
    exact hne (Nat.add_left_cancel (Option.some.inj hb')).symm

/-- Which of three sockets has a key. -/
def ownerOf [DecidableEq K] (key : Nat → K) (k : K) : Option Nat :=
  [2, 7, 8].find? fun socket => k = key socket

/-- One of the two interfaces is replaced by another, and socket 2 from elsewhere has an address
of its own. -/
def oneReplaced : InterfacesCtx Nat :=
  ⟨[⟨7, ['e'], [], [.v4 0x0A000001]⟩, ⟨9, ['g'], [], [.v4 0x0A000001]⟩],
    (scan ownPorts (bindsFrom 0) twoInterfaces).bindings,
    ⟨ownerOf ownPorts.localAddr, ownerOf fun socket => .direct (ownPorts.localAddr socket),
      fun endpoint => (ownerOf (fun socket => .direct (ownPorts.localAddr socket)) endpoint).map
        (⟨·, false⟩)⟩,
    fun _ => false, (scan ownPorts (bindsFrom 0) twoInterfaces).created,
    (scan ownPorts (bindsFrom 0) twoInterfaces).inserted⟩

theorem oneReplaced_reachable : Reachable ownPorts oneReplaced := by
  have hnew : NewSockets (bindsFrom 0) twoInterfaces (wanted ownPorts twoInterfaces) :=
    bindsFrom_newSockets (by decide) fun _ _ => ⟨nofun, nofun, nofun, nofun⟩
  refine .others (.scan (bindsFrom 0) (.start _ _ _) hnew) _ _ (.refl _) ?_
  have hbound : ∀ socket ∈ (scan ownPorts (bindsFrom 0) twoInterfaces).created,
      socket ∈ (scan ownPorts (bindsFrom 0) twoInterfaces).bindings.map (·.2.socket) := by decide
  intro socket hm hn
  obtain ⟨entry, hentry, he⟩ := List.mem_map.1 (hbound socket hm)
  exact absurd he (hn entry hentry)

theorem oneReplaced_owners (hb : oneReplaced.stores.book endpoint = some publication) :
    publication.socket ∈ [2, 7, 8] := by
  obtain ⟨socket, hf, he⟩ := Option.map_eq_some_iff.1 hb
  rw [← he]
  exact List.mem_of_find?_eq_some hf

theorem oneReplaced_fresh (hs : socket ∉ [2, 7, 8]) : Fresh oneReplaced socket := by
  have hcreated : oneReplaced.created ⊆ [2, 7, 8] := by decide
  refine ⟨fun hm => hs (hcreated hm), fun addr hd => ?_, fun endpoint hq => ?_,
    fun endpoint publication hb he => ?_⟩
  · change ownerOf ownPorts.localAddr addr = some socket at hd
    exact hs (List.mem_of_find?_eq_some hd)
  · change ownerOf (fun socket => .direct (ownPorts.localAddr socket)) endpoint = some socket at hq
    exact hs (List.mem_of_find?_eq_some hq)
  · exact hs (he ▸ oneReplaced_owners hb)

theorem oneReplaced_unshared : UnsharedAddresses ownPorts oneReplaced := by
  have hother : ∀ entry ∈ oneReplaced.bindings, ∀ socket ∈ [2, 7, 8],
      socket ∉ oneReplaced.created → ownPorts.localAddr socket ≠ entry.2.bound := by decide
  intro entry hm _ endpoint publication hb hn
  exact hother entry hm _ (oneReplaced_owners hb) hn

theorem scan_reconciled_iff_oneReplaced :
    oneReplaced.bindings.map (obsolete ownPorts oneReplaced) = [true, false] ∧
      Reconciled ownPorts (bindsFrom 10) oneReplaced
        (scan ownPorts (bindsFrom 10) oneReplaced) := by
  have hfirst : ∀ device ∈ wanted ownPorts oneReplaced, 10 + device.2.toNat ∉ [2, 7, 8] := by
    decide
  have hnew : NewSockets (bindsFrom 10) oneReplaced (wanted ownPorts oneReplaced) :=
    bindsFrom_newSockets (by decide) fun device hm => oneReplaced_fresh (hfirst device hm)
  exact ⟨by decide, (scan_reconciled_iff oneReplaced_reachable hnew).2 oneReplaced_unshared⟩

/-- The binding is dead, and socket 2 from elsewhere holds its address. -/
def sharedAddress : InterfacesCtx Nat :=
  ⟨oneInterface.snapshot, (scan oneAddress bindsOne oneInterface).bindings,
    ⟨fun addr => if addr = .v4 0x0A000001 4000 then some 2 else none,
      fun endpoint => if endpoint = .direct (.v4 0x0A000001 4000) then some 2 else none,
      fun endpoint => if endpoint = .direct (.v4 0x0A000001 4000) then some ⟨2, false⟩ else none⟩,
    fun socket => socket = 1, (scan oneAddress bindsOne oneInterface).created,
    (scan oneAddress bindsOne oneInterface).inserted⟩

theorem sharedAddress_reachable : Reachable oneAddress sharedAddress := by
  refine .others (.scan bindsOne (.start _ _ _) oneInterface_newSockets) _ _ (.refl _) ?_
  intro socket hm hn
  have hone : socket ∈ [1] := hm
  exact absurd (List.mem_singleton.1 hone).symm (hn _ (List.mem_cons_self ..))

def bindsNone : Outcomes Nat (BitVec 32) :=
  ⟨⟨id, .refl⟩, fun _ _ => none, fun _ => false, fun _ => false, fun _ => false⟩

/-- The withdrawal of the dead binding takes the publication of the other socket away. -/
theorem scan_not_reconciled : Reachable oneAddress sharedAddress ∧
    NewSockets bindsNone sharedAddress (wanted oneAddress sharedAddress) ∧
    ¬ Reconciled oneAddress bindsNone sharedAddress
      (scan oneAddress bindsNone sharedAddress) := by
  refine ⟨sharedAddress_reachable, ⟨nofun, List.pairwise_singleton ..⟩, fun h => ?_⟩
  have hforeign := h.foreign 2 (by decide)
  have hbook := (hforeign.book (.direct (.v4 0x0A000001 4000)) false).2 rfl
  revert hbook
  decide

end Dhttp.Network
