import Dhttp.Network.Interfaces

namespace Dhttp.Network
open Dhttp.Lib Dhttp.Home
set_option autoImplicit true

section Invariant
variable {S D : Type}

def OwnsNothing (stores : Stores S) (socket : S) : Prop :=
  (∀ addr, stores.dock addr ≠ some socket) ∧ (∀ endpoint, stores.quic endpoint ≠ some socket) ∧
    ∀ endpoint publication, stores.book endpoint = some publication → publication.socket ≠ socket

/-- The stores show no difference for a socket. -/
structure SameFor (socket : S) (stores stores' : Stores S) : Prop where
  dock : ∀ addr, stores'.dock addr = some socket ↔ stores.dock addr = some socket
  quic : ∀ endpoint, stores'.quic endpoint = some socket ↔ stores.quic endpoint = some socket
  book : ∀ endpoint outer,
    stores'.book endpoint = some ⟨socket, outer⟩ ↔ stores.book endpoint = some ⟨socket, outer⟩

theorem SameFor.refl (socket : S) (stores : Stores S) : SameFor socket stores stores :=
  ⟨fun _ => Iff.rfl, fun _ => Iff.rfl, fun _ _ => Iff.rfl⟩

theorem SameFor.trans (h : SameFor socket stores stores') (h' : SameFor socket stores' stores'') :
    SameFor socket stores stores'' :=
  ⟨fun addr => (h'.dock addr).trans (h.dock addr),
    fun endpoint => (h'.quic endpoint).trans (h.quic endpoint),
    fun endpoint outer => (h'.book endpoint outer).trans (h.book endpoint outer)⟩

theorem SameFor.ownsNothing (h : SameFor socket stores stores')
    (ho : OwnsNothing stores socket) : OwnsNothing stores' socket := by
  refine ⟨fun addr hd => ho.1 addr ((h.dock addr).1 hd),
    fun endpoint hq => ho.2.1 endpoint ((h.quic endpoint).1 hq),
    fun endpoint publication hb he => ?_⟩
  obtain ⟨owner, outer⟩ := publication
  cases he
  exact ho.2.2 endpoint _ ((h.book endpoint outer).1 hb) rfl

/-- The bindings of a context are told apart by key and by address, and no other socket that it
has created is left anywhere. -/
structure Valid (platform : Platform S D) (ctx : InterfacesCtx S) : Prop where
  keys : (keys ctx.bindings).Nodup
  bound : ∀ entry ∈ ctx.bindings, entry.2.bound = platform.localAddr entry.2.socket
  bounds : (ctx.bindings.map (·.2.bound)).Nodup
  created : ∀ entry ∈ ctx.bindings, entry.2.socket ∈ ctx.created
  residue : ∀ socket ∈ ctx.created, (∀ entry ∈ ctx.bindings, entry.2.socket ≠ socket) →
    OwnsNothing ctx.stores socket

theorem Valid.entry_eq (h : Valid platform ctx) (hm : entry ∈ ctx.bindings)
    (hm' : entry' ∈ ctx.bindings) (hb : entry.2.bound = entry'.2.bound) : entry = entry' :=
  List.inj_on_of_nodup_map h.bounds hm hm' hb

theorem Valid.entry_eq_of_socket (h : Valid platform ctx) (hm : entry ∈ ctx.bindings)
    (hm' : entry' ∈ ctx.bindings) (hs : entry.2.socket = entry'.2.socket) : entry = entry' := by
  apply h.entry_eq hm hm'
  rw [h.bound entry hm, h.bound entry' hm', hs]

theorem Valid.entry_eq_of_key (h : Valid platform ctx) (hm : entry ∈ ctx.bindings)
    (hm' : entry' ∈ ctx.bindings) (hk : entry.1 = entry'.1) : entry = entry' :=
  List.inj_on_of_nodup_map h.keys hm hm' hk

theorem removeBound_book {platform : Platform S D} {stores : Stores S} :
    (stores.removeBound platform bound).book endpoint = some publication ↔
      stores.book endpoint = some publication ∧
        bound ≠ platform.localAddr publication.socket := by
  change (if (stores.book endpoint).any _ = true then none else stores.book endpoint) = _ ↔ _
  split
  · next h =>
    obtain ⟨found, hf, he⟩ := (Option.any_eq_true ..).1 h
    refine iff_of_false nofun fun ⟨hb, hn⟩ => hn ?_
    rw [hf] at hb
    cases hb
    exact (beq_iff_eq.1 he).symm
  · next h =>
    refine ⟨fun hb => ⟨hb, fun he => h ?_⟩, And.left⟩
    rw [hb, he, Option.any_some, beq_self_eq_true]

end Invariant

section Withdrawal
variable {S D : Type} [DecidableEq S] {platform : Platform S D}

/-- What is left after bindings have been removed. -/
structure Withdrawn (platform : Platform S D) (entries : List (InterfaceAddress × Binding S))
    (ctx ctx' : InterfacesCtx S) : Prop where
  rest : ctx' = { ctx with bindings := ctx'.bindings, stores := ctx'.stores }
  bindings : ctx'.bindings = ctx.bindings.filter (·.1 ∉ keys entries)
  dock : ∀ addr socket, ctx'.stores.dock addr = some socket ↔
    ctx.stores.dock addr = some socket ∧ ∀ entry ∈ entries, entry.2.socket ≠ socket
  quic : ∀ endpoint socket, ctx'.stores.quic endpoint = some socket ↔
    ctx.stores.quic endpoint = some socket ∧ ∀ entry ∈ entries, entry.2.socket ≠ socket
  book : ∀ endpoint publication, ctx'.stores.book endpoint = some publication ↔
    ctx.stores.book endpoint = some publication ∧
      ∀ entry ∈ entries, entry.2.bound ≠ platform.localAddr publication.socket

theorem withdrawn_foldl (entries : List (InterfaceAddress × Binding S)) (ctx : InterfacesCtx S) :
    Withdrawn platform entries ctx (entries.foldl (InterfacesCtx.remove platform) ctx) := by
  induction entries generalizing ctx with
  | nil =>
    refine ⟨rfl, ?_, ?_, ?_, ?_⟩ <;> simp [keys]
  | cons entry entries ih =>
    have h := ih (ctx.remove platform entry)
    rw [List.foldl_cons]
    refine ⟨h.rest.trans rfl, ?_, fun addr socket => ?_, fun endpoint socket => ?_,
      fun endpoint publication => ?_⟩
    · rw [h.bindings, InterfacesCtx.remove, List.filter_filter]
      apply List.filter_congr
      intro other _
      rw [Bool.eq_iff_iff, Bool.and_eq_true, decide_eq_true_eq, decide_eq_true_eq,
        decide_eq_true_eq, keys, keys, List.map_cons, List.mem_cons, not_or, and_comm]
    · rw [h.dock, List.forall_mem_cons, ← and_assoc]
      exact and_congr_left' Registry.release_eq_some
    · rw [h.quic, List.forall_mem_cons, ← and_assoc]
      exact and_congr_left' Registry.release_eq_some
    · rw [h.book, List.forall_mem_cons, ← and_assoc]
      exact and_congr_left' removeBound_book

end Withdrawal

section Registration
variable {S D : Type} {platform : Platform S D} {out : Outcomes S D}

/-- What the registration of a socket changes. -/
structure Opened (platform : Platform S D) (socket : S) (stores stores' : Stores S)
    (inserted : List (S × Endpoint)) : Prop where
  dockFree : stores.dock (platform.localAddr socket) = none
  dock : stores'.dock = stores.dock.enter socket (platform.localAddr socket)
  quicFree : stores.quic (.direct (platform.localAddr socket)) = none
  quic : stores'.quic = stores.quic.enter socket (.direct (platform.localAddr socket))
  book : stores'.book = stores.book ∨ ∃ outer,
    stores.book (.direct (platform.localAddr socket)) = none ∧
      stores'.book =
        stores.book.enter ⟨socket, outer⟩ (.direct (platform.localAddr socket))
  own : ∀ insertion ∈ inserted, insertion.1 = socket

theorem add_eq_some (h : add out socket bound stores = .ok (some stores')) :
    stores.dock bound = none ∧ stores.quic (.direct bound) = none ∧
      stores' = { stores with
        dock := stores.dock.enter socket bound
        quic := stores.quic.enter socket (.direct bound) } := by
  rw [add] at h
  split at h
  · cases h
  · next hdock =>
    split at h
    · cases h
    · next hquic =>
      cases h
      simp only [Bool.or_eq_true, not_or, Option.isSome_iff_ne_none, ne_eq, not_not] at hdock hquic
      exact ⟨hdock, hquic.2, rfl⟩

theorem Opened.sameFor (h : Opened platform socket stores stores' inserted)
    (hs : socket ≠ other) : SameFor other stores stores' := by
  refine ⟨fun addr => ?_, fun endpoint => ?_, fun endpoint outer => ?_⟩
  · rw [h.dock]
    exact Registry.enter_eq_other h.dockFree hs
  · rw [h.quic]
    exact Registry.enter_eq_other h.quicFree hs
  · obtain hb | ⟨outer', hf, hb⟩ := h.book
    · rw [hb]
    · rw [hb]
      exact Registry.enter_eq_other hf fun he => hs (congrArg Publication.socket he)

/-- A socket that has just been bound. -/
def Fresh (ctx : InterfacesCtx S) (socket : S) : Prop :=
  socket ∉ ctx.created ∧ OwnsNothing ctx.stores socket

def NewSockets (out : Outcomes S D) (ctx : InterfacesCtx S)
    (devices : List (InterfaceAddress × D)) : Prop :=
  (∀ device ∈ devices, ∀ socket, out.bind device.1 device.2 = some socket → Fresh ctx socket) ∧
    devices.Pairwise fun device device' => ∀ socket,
      out.bind device.1 device.2 = some socket → out.bind device'.1 device'.2 ≠ some socket

/-- What the binding of devices adds to a context. -/
structure Grown (out : Outcomes S D) (devices : List (InterfaceAddress × D))
    (ctx ctx' : InterfacesCtx S) : Prop where
  created : ctx.created ⊆ ctx'.created
  bound : ∀ socket ∈ ctx'.created, socket ∉ ctx.created →
    ∃ device ∈ devices, out.bind device.1 device.2 = some socket
  kept : ctx.bindings ⊆ ctx'.bindings
  entries : ∀ entry ∈ ctx'.bindings, entry ∈ ctx.bindings ∨
    entry.2.socket ∉ ctx.created ∧
      ∃ device ∈ devices, device.1 = entry.1 ∧ out.bind device.1 device.2 = some entry.2.socket
  same : ∀ socket, (socket ∉ ctx.created → socket ∉ ctx'.created) →
    SameFor socket ctx.stores ctx'.stores
  inserted : ∃ inserted, ctx'.inserted = ctx.inserted ++ inserted ∧
    ∀ insertion ∈ inserted, insertion.1 ∉ ctx.created

theorem Grown.refl (out : Outcomes S D) (devices : List (InterfaceAddress × D))
    (ctx : InterfacesCtx S) : Grown out devices ctx ctx where
  created := List.Subset.refl _
  bound _ hm hn := absurd hm hn
  kept := List.Subset.refl _
  entries _ := .inl
  same socket _ := .refl socket _
  inserted := ⟨[], (List.append_nil _).symm, nofun⟩

theorem Grown.trans (h : Grown out [device] ctx ctx') (h' : Grown out devices ctx' ctx'') :
    Grown out (device :: devices) ctx ctx'' := by
  have hm {device' : InterfaceAddress × D} (hd : device' ∈ [device]) :
      device' ∈ device :: devices := List.mem_singleton.1 hd ▸ List.mem_cons_self ..
  refine ⟨List.Subset.trans h.created h'.created, fun socket hs hn => ?_,
    List.Subset.trans h.kept h'.kept,
    fun entry he => ?_, fun socket hs => ?_, ?_⟩
  · by_cases hc : socket ∈ ctx'.created
    · obtain ⟨device, hd, hb⟩ := h.bound socket hc hn
      exact ⟨device, hm hd, hb⟩
    · obtain ⟨device, hd, hb⟩ := h'.bound socket hs hc
      exact ⟨device, List.mem_cons_of_mem _ hd, hb⟩
  · obtain he | ⟨hc, device, hd, hb⟩ := h'.entries entry he
    · obtain he | ⟨hc, device, hd, hb⟩ := h.entries entry he
      · exact .inl he
      · exact .inr ⟨hc, device, hm hd, hb⟩
    · exact .inr ⟨fun hn => hc (h.created hn), device, List.mem_cons_of_mem _ hd, hb⟩
  · by_cases hc : socket ∈ ctx.created
    · exact (h.same socket fun hn => absurd hc hn).trans
        (h'.same socket fun hn => absurd (h.created hc) hn)
    · have hc'' := hs hc
      have hc' : socket ∉ ctx'.created := fun hn => hc'' (h'.created hn)
      exact (h.same socket fun _ => hc').trans (h'.same socket fun _ => hc'')
  · obtain ⟨inserted, he, hi⟩ := h.inserted
    obtain ⟨inserted', he', hi'⟩ := h'.inserted
    refine ⟨inserted ++ inserted', by rw [he', he, List.append_assoc], fun insertion hm => ?_⟩
    exact (List.mem_append.1 hm).elim (hi insertion) fun hm hn => hi' insertion hm (h.created hn)

/-- Every binding of the context is the one that the dock has for its address. -/
def Docked (ctx : InterfacesCtx S) : Prop :=
  ∀ entry ∈ ctx.bindings, ctx.stores.dock entry.2.bound = some entry.2.socket

theorem Grown.perm (h : Grown out devices ctx ctx') (hp : devices.Perm devices') :
    Grown out devices' ctx ctx' := by
  refine ⟨h.created, fun socket hc hn => ?_, h.kept, fun entry hm => ?_, h.same, h.inserted⟩
  · obtain ⟨device, hd, hb⟩ := h.bound socket hc hn
    exact ⟨device, hp.mem_iff.1 hd, hb⟩
  · obtain he | ⟨hc, device, hd, hb⟩ := h.entries entry hm
    · exact .inl he
    · exact .inr ⟨hc, device, hp.mem_iff.1 hd, hb⟩

theorem NewSockets.perm (hn : NewSockets out ctx devices) (hp : devices'.Perm devices) :
    NewSockets out ctx devices' := by
  refine ⟨fun device hm => hn.1 device (hp.mem_iff.1 hm), (hp.pairwise_iff ?_).2 hn.2⟩
  intro device device' hne socket hb' hb
  exact hne socket hb hb'

variable [DecidableEq S]

/-- A registration either takes the free address, or leaves everything as it is. -/
theorem register_cases (ho : OwnsNothing stores socket)
    (h : register platform out socket stores = (result, stores')) :
    (result = none ∧ stores' = stores) ∨
      ∃ inserted, result = some ⟨⟨platform.localAddr socket, socket⟩, inserted⟩ ∧
        Opened platform socket stores stores' inserted := by
  rw [register] at h
  split at h
  · cases h
    exact .inl ⟨rfl, rfl⟩
  · simp only at h
    split at h
    · cases h
      exact .inl ⟨rfl, rfl⟩
    · cases h
      exact .inl ⟨rfl, rfl⟩
    · next added hadd =>
      obtain ⟨hdock, hquic, rfl⟩ := add_eq_some hadd
      split at h
      · cases h
        exact .inr ⟨[], rfl, hdock, rfl, hquic, rfl, .inl rfl,
          fun _ hm => absurd hm List.not_mem_nil⟩
      · split at h
        · cases h
          refine .inl ⟨rfl, ?_⟩
          simp only [Stores.undock, Registry.release_enter hdock ho.1,
            Registry.release_enter hquic ho.2.1]
        · next hbook =>
          cases h
          simp only [Bool.or_eq_true, not_or, Option.isSome_iff_ne_none, ne_eq, not_not] at hbook
          refine .inr ⟨_, rfl, hdock, rfl, hquic, rfl, .inr ⟨_, hbook.2, rfl⟩, ?_⟩
          intro insertion hm
          rw [List.mem_singleton.1 hm]

theorem bind_cases (platform : Platform S D)
    (hf : ∀ socket, out.bind device.1 device.2 = some socket → Fresh ctx socket) :
    ctx.bind platform out device = ctx ∨
    ∃ socket, out.bind device.1 device.2 = some socket ∧ device.1 ∉ keys ctx.bindings ∧
      (ctx.bind platform out device = { ctx with created := socket :: ctx.created } ∨
        ∃ inserted stores', Opened platform socket ctx.stores stores' inserted ∧
          ctx.bind platform out device = { ctx with
            stores := stores'
            created := socket :: ctx.created
            bindings := ctx.bindings ++ [(device.1, ⟨platform.localAddr socket, socket⟩)]
            inserted := ctx.inserted ++ inserted }) := by
  rw [InterfacesCtx.bind]
  split
  · exact .inl rfl
  · next hkey =>
    rw [List.contains_iff_mem] at hkey
    split
    · exact .inl rfl
    · next socket hbind =>
      refine .inr ⟨socket, hbind, hkey, ?_⟩
      split
      · next stores' hr =>
        obtain ⟨-, rfl⟩ | ⟨inserted, he, -⟩ := register_cases (hf socket hbind).2 hr
        · exact .inl rfl
        · cases he
      · next registered stores' hr =>
        obtain ⟨he, -⟩ | ⟨inserted, he, ho⟩ := register_cases (hf socket hbind).2 hr
        · cases he
        · cases he
          exact .inr ⟨inserted, stores', ho, rfl⟩

theorem bind_grown (platform : Platform S D)
    (hf : ∀ socket, out.bind device.1 device.2 = some socket → Fresh ctx socket) :
    Grown out [device] ctx (ctx.bind platform out device) := by
  obtain he | ⟨socket, hb, hk, he | ⟨inserted, stores', ho, he⟩⟩ :=
    bind_cases platform hf
  · rw [he]
    exact .refl out [device] ctx
  · rw [he]
    refine ⟨List.subset_cons_self .., fun other hm hn => ?_, List.Subset.refl _, fun _ => .inl,
      fun socket _ => .refl socket _, ⟨[], (List.append_nil _).symm, nofun⟩⟩
    rw [(List.mem_cons.1 hm).resolve_right hn]
    exact ⟨device, List.mem_singleton_self device, hb⟩
  · rw [he]
    refine ⟨List.subset_cons_self .., fun other hm hn => ?_, List.subset_append_left .., ?_, ?_, ?_⟩
    · rw [(List.mem_cons.1 hm).resolve_right hn]
      exact ⟨device, List.mem_singleton_self device, hb⟩
    · intro entry hm
      refine (List.mem_append.1 hm).imp_right fun hm => ?_
      rw [List.mem_singleton.1 hm]
      exact ⟨(hf socket hb).1, device, List.mem_singleton_self device, rfl, hb⟩
    · intro other hs
      apply ho.sameFor
      rintro rfl
      exact hs (hf socket hb).1 (List.mem_cons_self ..)
    · refine ⟨inserted, rfl, fun insertion hm => ?_⟩
      rw [ho.own insertion hm]
      exact (hf socket hb).1

theorem bind_valid (hv : Valid platform ctx) (hd : Docked ctx)
    (hf : ∀ socket, out.bind device.1 device.2 = some socket → Fresh ctx socket) :
    Valid platform (ctx.bind platform out device) ∧ Docked (ctx.bind platform out device) := by
  obtain he | ⟨socket, hb, hk, he | ⟨inserted, stores', ho, he⟩⟩ :=
    bind_cases platform hf
  · rw [he]
    exact ⟨hv, hd⟩
  · rw [he]
    refine ⟨⟨hv.keys, hv.bound, hv.bounds,
      fun entry hm => List.mem_cons_of_mem _ (hv.created entry hm), fun other hm hn => ?_⟩, hd⟩
    obtain rfl | hm := List.mem_cons.1 hm
    · exact (hf other hb).2
    · exact hv.residue other hm hn
  · have hg := bind_grown platform hf
    rw [he] at hg ⊢
    obtain ⟨hnew, hnothing⟩ := hf socket hb
    have hdock : Docked { ctx with
        stores := stores'
        created := socket :: ctx.created
        bindings := ctx.bindings ++ [(device.1, ⟨platform.localAddr socket, socket⟩)]
        inserted := ctx.inserted ++ inserted } := by
      intro entry hm
      obtain hm | hm := List.mem_append.1 hm
      · exact ((hg.same entry.2.socket fun hn => absurd (hv.created entry hm) hn).dock _).2
          (hd entry hm)
      · rw [List.mem_singleton.1 hm]
        exact (congrFun ho.dock _).trans (Registry.enter_self ..)
    refine ⟨⟨?_, ?_, ?_, ?_, ?_⟩, hdock⟩
    · rw [keys, List.map_append, List.map_singleton, ← List.concat_eq_append]
      exact List.Nodup.concat hk hv.keys
    · intro entry hm
      obtain hm | hm := List.mem_append.1 hm
      · exact hv.bound entry hm
      · rw [List.mem_singleton.1 hm]
    · rw [List.map_append, List.map_singleton, ← List.concat_eq_append]
      refine List.Nodup.concat (fun hm => ?_) hv.bounds
      -- the address of another binding is not free in the dock
      obtain ⟨entry, hm, hbound⟩ := List.mem_map.1 hm
      have hdocked := hd entry hm
      rw [hbound, ho.dockFree] at hdocked
      cases hdocked
    · intro entry hm
      obtain hm | hm := List.mem_append.1 hm
      · exact List.mem_cons_of_mem _ (hv.created entry hm)
      · rw [List.mem_singleton.1 hm]
        exact List.mem_cons_self ..
    · intro other hm hn
      have hne : other ≠ socket := fun he =>
        hn _ (List.mem_append_right _ (List.mem_singleton_self _)) he.symm
      have hm' := (List.mem_cons.1 hm).resolve_left hne
      refine (hg.same other fun hn => absurd hm' hn).ownsNothing (hv.residue other hm' ?_)
      exact fun entry he => hn entry (List.mem_append_left _ he)

theorem NewSockets.tail (hn : NewSockets out ctx (device :: devices)) :
    NewSockets out (ctx.bind platform out device) devices := by
  obtain ⟨hf, hp⟩ := hn
  have hg := bind_grown platform (hf device (List.mem_cons_self ..))
  refine ⟨fun device' hm socket hb => ?_, (List.pairwise_cons.1 hp).2⟩
  obtain ⟨hc, ho⟩ := hf device' (List.mem_cons_of_mem _ hm) socket hb
  have hc' : socket ∉ (ctx.bind platform out device).created := fun hn => by
    obtain ⟨first, hfirst, hbind⟩ := hg.bound socket hn hc
    rw [List.mem_singleton.1 hfirst] at hbind
    exact (List.pairwise_cons.1 hp).1 device' hm socket hbind hb
  exact ⟨hc', (hg.same socket fun _ => hc').ownsNothing ho⟩

theorem binds_grown (hv : Valid platform ctx) (hd : Docked ctx)
    (hn : NewSockets out ctx devices) :
    Grown out devices ctx (devices.foldl (InterfacesCtx.bind platform out) ctx) ∧
      Valid platform (devices.foldl (InterfacesCtx.bind platform out) ctx) ∧
      Docked (devices.foldl (InterfacesCtx.bind platform out) ctx) := by
  induction devices generalizing ctx with
  | nil => exact ⟨.refl out [] ctx, hv, hd⟩
  | cons device devices ih =>
    have hf := hn.1 device (List.mem_cons_self ..)
    obtain ⟨hv', hd'⟩ := bind_valid hv hd hf
    obtain ⟨hg, hrest⟩ := ih hv' hd' hn.tail
    exact ⟨(bind_grown platform hf).trans hg, hrest⟩

end Registration

end Dhttp.Network
