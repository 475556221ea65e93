import Dhttp.Network.Listeners

namespace Dhttp.Network
open Dhttp.Lib
set_option autoImplicit true

namespace CallPc
variable {I C S R E : Type}

/-- The call has the lock. -/
def Holds : CallPc I C S R E → Prop
  | listen .checking | listen .asking | listen .registering | listen .inserting
  | listen .unlocking | listen .removing | listen .unregistering | listen .releasing
  | reload (.checking _) | reload (.getting _) | reload (.building _ _)
  | reload (.registering _ _) | reload .unlocking | refusing _ => True
  | _ => False

/-- The entry of the QUIC registry is that of the listen. -/
def Registers : CallPc I C S R E → Prop
  | listen .inserting | listen .unlocking | listen .listening | listen .dropping
  | listen .removing | listen .unregistering => True
  | _ => False

/-- The entry of the listeners is that of the listen. -/
def Serves : CallPc I C S R E → Prop
  | listen .unlocking | listen .listening | listen .dropping | listen .removing => True
  | _ => False

/-- The listen has seen that nobody listens on its name. -/
def Unlisted : CallPc I C S R E → Prop
  | listen .asking | listen .registering | listen .inserting => True
  | _ => False

/-- The listen has seen that its name is free. -/
def Unused : CallPc I C S R E → Prop
  | listen .registering => True
  | _ => False

/-- The reload has seen that somebody listens on its name. -/
def Listed : CallPc I C S R E → Prop
  | reload (.getting _) | reload (.building _ _) | reload (.registering _ _) => True
  | _ => False

/-- What the reload has got from the registry. -/
def got : CallPc I C S R E → Option (Registration I C S R E)
  | reload (.building _ registered) | reload (.registering _ registered) => some registered
  | _ => none

/-- The future exists: the listen has registered it, and its destructor has not begun to
unregister it. -/
def Exists : CallPc I C S R E → Prop
  | listen .listening | listen .dropping => True
  | _ => False

/-- The entries of the listen are removed. -/
def Removed : CallPc I C S R E → Prop
  | listen .releasing | listen .dropped => True
  | _ => False

/-- The call has changed an entry, and does not fail any more. -/
def Commits : CallPc I C S R E → Prop
  | listen .inserting | listen .unlocking | listen .listening | listen .dropping
  | listen .removing | listen .unregistering | listen .releasing | listen .dropped
  | reload .unlocking | reload .returned => True
  | _ => False

theorem Exists.serves {pc : CallPc I C S R E} (h : pc.Exists) : pc.Serves := by
  cases pc with
  | listen pc => cases pc <;> trivial
  | idle | reload | refusing | failed => exact h.elim

theorem Serves.registers {pc : CallPc I C S R E} (h : pc.Serves) : pc.Registers := by
  cases pc with
  | listen pc => cases pc <;> trivial
  | idle | reload | refusing | failed => exact h.elim

/-- While nobody has the lock, what serves is what exists. -/
theorem Serves.exists {pc : CallPc I C S R E} (h : pc.Serves) (hn : ¬ pc.Holds) : pc.Exists := by
  cases pc with
  | listen pc => cases pc <;> trivial
  | idle | reload | refusing | failed => exact h.elim

theorem Registers.exists {pc : CallPc I C S R E} (h : pc.Registers) (hn : ¬ pc.Holds) :
    pc.Exists := by
  cases pc with
  | listen pc => cases pc <;> trivial
  | idle | reload | refusing | failed => exact h.elim

theorem Unlisted.holds {pc : CallPc I C S R E} (h : pc.Unlisted) : pc.Holds := by
  cases pc with
  | listen pc => cases pc <;> trivial
  | idle | reload | refusing | failed => exact h.elim

theorem Unused.holds {pc : CallPc I C S R E} (h : pc.Unused) : pc.Holds := by
  cases pc with
  | listen pc => cases pc <;> trivial
  | idle | reload | refusing | failed => exact h.elim

theorem Listed.holds {pc : CallPc I C S R E} (h : pc.Listed) : pc.Holds := by
  cases pc with
  | reload pc => cases pc <;> trivial
  | idle | listen | refusing | failed => exact h.elim

theorem Listed.not_serves {pc : CallPc I C S R E} (h : pc.Listed) : ¬ pc.Serves := by
  cases pc with
  | reload pc => exact id
  | idle | listen | refusing | failed => exact h.elim

theorem holds_of_got {pc : CallPc I C S R E} (h : pc.got = some r) : pc.Holds := by
  cases pc with
  | reload pc => cases pc <;> trivial
  | idle | listen | refusing | failed => cases h

end CallPc

section Consistency
variable {I C S R E H : Type} {listens : I → ListenCall C S R E} {reloads : I → ReloadCall H C}
  {foreign : Name → Option (Registration I C S R E)} {s s' : Listeners I C S R E}

/-- The entry has the callback and the scopes of the listen. -/
structure Registration.Of (r : Registration I C S R E) (listens : I → ListenCall C S R E)
    (i : I) : Prop where
  owner : r.owner = some i
  scopes : r.scopes = (listens i).scopes
  acceptCb : r.acceptCb = (listens i).accept

/-- The entries are those of the listens that have made them and not removed them, and a call that
has the lock has seen what it goes by. -/
structure Consistent (listens : I → ListenCall C S R E) (reloads : I → ReloadCall H C)
    (foreign : Name → Option (Registration I C S R E)) (s : Listeners I C S R E) : Prop where
  exclusive : Exclusive CallPc.Holds s.lock s.pc
  registered : ∀ i, (s.pc i).Registers → foreign (listens i).name = none ∧
    ∃ r, s.registry (listens i).name = some r ∧ r.Of listens i
  served : ∀ i, (s.pc i).Serves → s.listeners (listens i).name = some i
  listeners : ∀ n i, s.listeners n = some i → (listens i).name = n ∧ (s.pc i).Serves
  registry : ∀ n, s.registry n = foreign n ∨ ∃ i, (listens i).name = n ∧ (s.pc i).Registers
  unlisted : ∀ i, (s.pc i).Unlisted → s.listeners (listens i).name = none
  unused : ∀ i, (s.pc i).Unused → s.registry (listens i).name = none
  listed : ∀ i, (s.pc i).Listed → s.listeners (reloads i).name ≠ none
  got : ∀ i r, (s.pc i).got = some r → s.registry (reloads i).name = some r
  removed : ∀ i, (s.pc i).Removed → foreign (listens i).name = none

/-- Two listens on one name do not have entries at once. -/
theorem Consistent.eq_of_registers (h : Consistent listens reloads foreign s)
    (hi : (s.pc i).Registers) (hj : (s.pc j).Registers)
    (hn : (listens i).name = (listens j).name) : i = j := by
  obtain ⟨-, r, hr, hof⟩ := h.registered i hi
  obtain ⟨-, r', hr', hof'⟩ := h.registered j hj
  rw [hn, hr'] at hr
  cases hr
  exact Option.some.inj (hof.owner.symm.trans hof'.owner)

theorem Consistent.eq_of_holds (h : Consistent listens reloads foreign s) (hi : (s.pc i).Holds)
    (hj : (s.pc j).Holds) : i = j := h.exclusive.eq_of_holds hi hj

variable [DecidableEq I]

theorem forall_update {pc : I → CallPc I C S R E} {P : I → CallPc I C S R E → Prop}
    (h : ∀ j, j ≠ i → P j (pc j)) (hi : P i p) : ∀ j, P j (Function.update pc i p j) := by
  intro j
  by_cases hj : j = i
  · rw [hj, Function.update_self]
    exact hi
  · rw [Function.update_of_ne hj]
    exact h j hj

section Unchanged
variable (h : Consistent listens reloads foreign s)
include h

theorem registered_go (hr : p.Registers → (s.pc i).Registers) :
    ∀ j, (Function.update s.pc i p j).Registers → foreign (listens j).name = none ∧
      ∃ r, s.registry (listens j).name = some r ∧ r.Of listens j :=
  forall_update (P := fun j pc => pc.Registers → foreign (listens j).name = none ∧
    ∃ r, s.registry (listens j).name = some r ∧ r.Of listens j)
    (fun j _ => h.registered j) fun hp => h.registered i (hr hp)

theorem served_go (hs : p.Serves → (s.pc i).Serves) :
    ∀ j, (Function.update s.pc i p j).Serves → s.listeners (listens j).name = some j :=
  forall_update (P := fun j pc => pc.Serves → s.listeners (listens j).name = some j)
    (fun j _ => h.served j) fun hp => h.served i (hs hp)

theorem listeners_go (hs : (s.pc i).Serves → p.Serves) :
    ∀ n j, s.listeners n = some j → (listens j).name = n ∧ (Function.update s.pc i p j).Serves := by
  intro n j hj
  obtain ⟨hn, hserves⟩ := h.listeners n j hj
  refine ⟨hn, ?_⟩
  by_cases he : j = i
  · rw [he, Function.update_self]
    exact hs (he ▸ hserves)
  · rw [Function.update_of_ne he]
    exact hserves

theorem registry_go (hr : (s.pc i).Registers → p.Registers) :
    ∀ n, s.registry n = foreign n ∨
      ∃ j, (listens j).name = n ∧ (Function.update s.pc i p j).Registers := by
  intro n
  refine (h.registry n).imp_right fun ⟨j, hn, hj⟩ => ⟨j, hn, ?_⟩
  by_cases he : j = i
  · rw [he, Function.update_self]
    exact hr (he ▸ hj)
  · rw [Function.update_of_ne he]
    exact hj

/-- A call goes on, and no entry is changed. -/
theorem consistent_go (hx : Exclusive CallPc.Holds lock (Function.update s.pc i p))
    (hr : p.Registers ↔ (s.pc i).Registers) (hs : p.Serves ↔ (s.pc i).Serves)
    (hu : p.Unlisted → s.listeners (listens i).name = none)
    (hn : p.Unused → s.registry (listens i).name = none)
    (hl : p.Listed → s.listeners (reloads i).name ≠ none)
    (hg : ∀ r, p.got = some r → s.registry (reloads i).name = some r)
    (hd : p.Removed → foreign (listens i).name = none) :
    Consistent listens reloads foreign { s.go i p with lock := lock } where
  exclusive := hx
  registered := registered_go h hr.1
  served := served_go h hs.1
  listeners := listeners_go h hs.2
  registry := registry_go h hr.2
  unlisted := forall_update (P := fun j pc => pc.Unlisted → s.listeners (listens j).name = none)
    (fun j _ => h.unlisted j) hu
  unused := forall_update (P := fun j pc => pc.Unused → s.registry (listens j).name = none)
    (fun j _ => h.unused j) hn
  listed := forall_update (P := fun j pc => pc.Listed → s.listeners (reloads j).name ≠ none)
    (fun j _ => h.listed j) hl
  got := forall_update
    (P := fun j pc => ∀ r, pc.got = some r → s.registry (reloads j).name = some r)
    (fun j _ => h.got j) hg
  removed := forall_update (P := fun j pc => pc.Removed → foreign (listens j).name = none)
    (fun j _ => h.removed j) hd

/-- The call that has the lock changes an entry: no other call relies on what it has seen. -/
theorem consistent_write (hi : (s.pc i).Holds) (hp : p.Holds)
    (hr : ∀ j, (Function.update s.pc i p j).Registers → foreign (listens j).name = none ∧
      ∃ r, registry (listens j).name = some r ∧ r.Of listens j)
    (hs : ∀ j, (Function.update s.pc i p j).Serves → listeners (listens j).name = some j)
    (hl : ∀ n j, listeners n = some j →
      (listens j).name = n ∧ (Function.update s.pc i p j).Serves)
    (hf : ∀ n, registry n = foreign n ∨
      ∃ j, (listens j).name = n ∧ (Function.update s.pc i p j).Registers)
    (hu : p.Unlisted → listeners (listens i).name = none) (hn : ¬ p.Unused) (hl' : ¬ p.Listed)
    (hg : p.got = none) (hd : p.Removed → foreign (listens i).name = none) :
    Consistent listens reloads foreign
      { s.go i p with listeners := listeners, registry := registry } where
  exclusive := h.exclusive.keep (iff_of_true hp hi)
  registered := hr
  served := hs
  listeners := hl
  registry := hf
  unlisted := forall_update (P := fun j pc => pc.Unlisted → listeners (listens j).name = none)
    (fun _ hj hu => absurd (h.eq_of_holds hu.holds hi) hj) hu
  unused := forall_update (P := fun j pc => pc.Unused → registry (listens j).name = none)
    (fun _ hj hu => absurd (h.eq_of_holds hu.holds hi) hj) fun hu => absurd hu hn
  listed := forall_update (P := fun j pc => pc.Listed → listeners (reloads j).name ≠ none)
    (fun _ hj hu => absurd (h.eq_of_holds hu.holds hi) hj) fun hu => absurd hu hl'
  got := forall_update
    (P := fun j pc => ∀ r, pc.got = some r → registry (reloads j).name = some r)
    (fun _ hj _ hu => absurd (h.eq_of_holds (CallPc.holds_of_got hu) hi) hj)
    fun _ hu => absurd (hg.symm.trans hu) nofun
  removed := forall_update (P := fun j pc => pc.Removed → foreign (listens j).name = none)
    (fun j _ => h.removed j) hd

theorem consistent_register (hp : s.pc i = .listen .registering) :
    Consistent listens reloads foreign { s.go i (.listen .inserting) with
      registry := Function.update s.registry (listens i).name
        (some ((listens i).registration i)) } := by
  have hfree : s.registry (listens i).name = none := h.unused i (by rw [hp]; trivial)
  refine consistent_write h (by rw [hp]; trivial) trivial ?_
    (served_go h (by rw [hp]; exact id)) (listeners_go h (by rw [hp]; exact id)) (fun n => ?_)
    (fun _ => h.unlisted i (by rw [hp]; trivial)) id id rfl nofun
  · refine forall_update (P := fun j pc => pc.Registers → foreign (listens j).name = none ∧ ∃ r,
      Function.update s.registry (listens i).name (some ((listens i).registration i))
        (listens j).name = some r ∧ r.Of listens j) (fun j _ hj => ?_) fun _ => ⟨?_, ?_⟩
    · obtain ⟨hforeign, r, hr, hof⟩ := h.registered j hj
      have hname : (listens j).name ≠ (listens i).name := by
        intro hname
        rw [hname, hfree] at hr
        cases hr
      exact ⟨hforeign, r, (Function.update_of_ne hname ..).trans hr, hof⟩
    · obtain hforeign | ⟨k, hname, hk⟩ := h.registry (listens i).name
      · exact hforeign.symm.trans hfree
      · obtain ⟨-, r, hr, -⟩ := h.registered k hk
        rw [hname, hfree] at hr
        cases hr
    · exact ⟨_, Function.update_self .., rfl, rfl, rfl⟩
  · by_cases hn : n = (listens i).name
    · exact .inr ⟨i, hn.symm, by rw [Function.update_self]; trivial⟩
    · rw [Function.update_of_ne hn]
      exact registry_go h (by rw [hp]; exact False.elim) n

theorem consistent_insert (hp : s.pc i = .listen .inserting) :
    Consistent listens reloads foreign { s.go i (.listen .unlocking) with
      listeners := Function.update s.listeners (listens i).name (some i) } := by
  have hfree : s.listeners (listens i).name = none := h.unlisted i (by rw [hp]; trivial)
  refine consistent_write h (by rw [hp]; trivial) trivial
    (registered_go h fun _ => by rw [hp]; trivial) ?_ (fun n j hj => ?_)
    (registry_go h fun _ => trivial) nofun id id rfl nofun
  · refine forall_update (P := fun j pc => pc.Serves →
      Function.update s.listeners (listens i).name (some i) (listens j).name = some j)
      (fun j _ hj => ?_) fun _ => Function.update_self ..
    have hname : (listens j).name ≠ (listens i).name := by
      intro hname
      have hserved := h.served j hj
      rw [hname, hfree] at hserved
      cases hserved
    exact (Function.update_of_ne hname ..).trans (h.served j hj)
  · by_cases hn : n = (listens i).name
    · rw [hn, Function.update_self] at hj
      cases hj
      exact ⟨hn.symm, by rw [Function.update_self]; trivial⟩
    · rw [Function.update_of_ne hn] at hj
      exact listeners_go h (by rw [hp]; exact False.elim) n j hj

theorem consistent_remove (hp : s.pc i = .listen .removing) :
    Consistent listens reloads foreign { s.go i (.listen .unregistering) with
      listeners := Function.update s.listeners (listens i).name none } := by
  have hown : s.listeners (listens i).name = some i := h.served i (by rw [hp]; trivial)
  refine consistent_write h (by rw [hp]; trivial) trivial
    (registered_go h fun _ => by rw [hp]; trivial) ?_ (fun n j hj => ?_)
    (registry_go h fun _ => trivial) nofun id id rfl nofun
  · refine forall_update (P := fun j pc => pc.Serves →
      Function.update s.listeners (listens i).name none (listens j).name = some j)
      (fun j hne hj => ?_) False.elim
    have hname : (listens j).name ≠ (listens i).name := by
      intro hname
      have hserved := h.served j hj
      rw [hname, hown] at hserved
      exact hne (Option.some.inj hserved).symm
    exact (Function.update_of_ne hname ..).trans (h.served j hj)
  · by_cases hn : n = (listens i).name
    · rw [hn, Function.update_self] at hj
      cases hj
    · rw [Function.update_of_ne hn] at hj
      obtain ⟨hname, hserves⟩ := h.listeners n j hj
      have hne : j ≠ i := by
        rintro rfl
        exact hn hname.symm
      exact ⟨hname, by rw [Function.update_of_ne hne]; exact hserves⟩

theorem consistent_unregister (hp : s.pc i = .listen .unregistering) :
    Consistent listens reloads foreign { s.go i (.listen .releasing) with
      registry := Function.update s.registry (listens i).name none } := by
  have hregisters : (s.pc i).Registers := by
    rw [hp]
    trivial
  refine consistent_write h (by rw [hp]; trivial) trivial ?_ (served_go h False.elim)
    (listeners_go h (by rw [hp]; exact id)) (fun n => ?_) nofun id id rfl
    fun _ => (h.registered i hregisters).1
  · refine forall_update (P := fun j pc => pc.Registers → foreign (listens j).name = none ∧ ∃ r,
      Function.update s.registry (listens i).name none (listens j).name = some r ∧
        r.Of listens j) (fun j hne hj => ?_) False.elim
    have hname : (listens j).name ≠ (listens i).name :=
      fun hname => hne (h.eq_of_registers hj hregisters hname)
    obtain ⟨hforeign, r, hr, hof⟩ := h.registered j hj
    exact ⟨hforeign, r, (Function.update_of_ne hname ..).trans hr, hof⟩
  · by_cases hn : n = (listens i).name
    · rw [hn, Function.update_self]
      exact .inl (h.registered i hregisters).1.symm
    · rw [Function.update_of_ne hn]
      refine (h.registry n).imp_right fun ⟨j, hname, hj⟩ => ⟨j, hname, ?_⟩
      have hne : j ≠ i := by
        rintro rfl
        exact hn hname.symm
      rw [Function.update_of_ne hne]
      exact hj

theorem consistent_replace (hp : s.pc i = .reload (.registering credentials registered)) :
    Consistent listens reloads foreign { s.go i (.reload .unlocking) with
      registry := Function.update s.registry (reloads i).name
        (some (registered.replace credentials)) } := by
  have hgot : s.registry (reloads i).name = some registered := h.got i registered (by rw [hp]; rfl)
  have hnot : ¬ (s.pc i).Registers := by
    rw [hp]
    exact id
  refine consistent_write h (by rw [hp]; trivial) trivial ?_ (served_go h False.elim)
    (listeners_go h (by rw [hp]; exact id)) (fun n => ?_) nofun id id rfl nofun
  · intro j hj
    obtain ⟨hforeign, r, hr, hof⟩ := registered_go h False.elim j hj
    refine ⟨hforeign, ?_⟩
    by_cases hname : (listens j).name = (reloads i).name
    · rw [hname, hgot] at hr
      cases hr
      rw [hname, Function.update_self]
      exact ⟨_, rfl, hof.owner, hof.scopes, hof.acceptCb⟩
    · exact ⟨r, (Function.update_of_ne hname ..).trans hr, hof⟩
  · by_cases hn : n = (reloads i).name
    · obtain ⟨k, hk⟩ := Option.ne_none_iff_exists'.1 (h.listed i (by rw [hp]; trivial))
      obtain ⟨hname, hserves⟩ := h.listeners _ k hk
      have hne : k ≠ i := by
        rintro rfl
        exact hnot hserves.registers
      exact .inr ⟨k, hname.trans hn.symm, by
        rw [Function.update_of_ne hne]; exact hserves.registers⟩
    · rw [Function.update_of_ne hn]
      exact registry_go h (fun hr => absurd hr hnot) n

end Unchanged

/-- The lock is released by the call that has it. -/
theorem Consistent.released (h : Consistent listens reloads foreign s) (hi : (s.pc i).Holds)
    (hp : ¬ p.Holds) : Exclusive CallPc.Holds none (Function.update s.pc i p) := by
  have hx := h.exclusive
  rw [(h.exclusive i).1 hi] at hx
  exact hx.release hp

theorem Consistent.taken (h : Consistent listens reloads foreign s) (hl : s.lock = none)
    (hp : p.Holds) : Exclusive CallPc.Holds (some i) (Function.update s.pc i p) := by
  have hx := h.exclusive
  rw [hl] at hx
  exact hx.take i hp

variable [DecidableEq H]

theorem consistent_step (h : Consistent listens reloads foreign s)
    (hs : ListenerStep listens reloads s i s') : Consistent listens reloads foreign s' := by
  cases hs with
  | configure hp | configureFailed hp | drop hp | reload hp hc | reloadRefused hp hc =>
    exact consistent_go h (h.exclusive.keep (by rw [hp]; exact Iff.rfl)) (by rw [hp]; exact Iff.rfl)
      (by rw [hp]; exact Iff.rfl) nofun nofun nofun nofun nofun
  | lock hp hl | lockDrop hp hl | lockReload hp hl =>
    exact consistent_go h (h.taken hl trivial) (by rw [hp]; exact Iff.rfl)
      (by rw [hp]; exact Iff.rfl) nofun nofun nofun nofun nofun
  | alreadyListening hp hc | nameInUse hp hr | registerFailed hp | notListening hp hc
    | disappeared hp hr | buildFailed hp | replaceFailed hp =>
    exact consistent_go h (h.exclusive.keep (by rw [hp]; exact Iff.rfl)) (by rw [hp]; exact Iff.rfl)
      (by rw [hp]; exact Iff.rfl) nofun nofun nofun nofun nofun
  | unlisted hp hc =>
    exact consistent_go h (h.exclusive.keep (by rw [hp]; exact Iff.rfl)) (by rw [hp]; exact Iff.rfl)
      (by rw [hp]; exact Iff.rfl) (fun _ => hc) nofun nofun nofun nofun
  | unused hp hr =>
    exact consistent_go h (h.exclusive.keep (by rw [hp]; exact Iff.rfl)) (by rw [hp]; exact Iff.rfl)
      (by rw [hp]; exact Iff.rfl) (fun _ => h.unlisted i (by rw [hp]; trivial)) (fun _ => hr)
      nofun nofun nofun
  | register hp => exact consistent_register h hp
  | insert hp => exact consistent_insert h hp
  | remove hp => exact consistent_remove h hp
  | unregister hp => exact consistent_unregister h hp
  | replace hp => exact consistent_replace h hp
  | unlock hp | unlockReload hp | fail hp =>
    exact consistent_go h (h.released (by rw [hp]; trivial) id) (by rw [hp]; exact Iff.rfl)
      (by rw [hp]; exact Iff.rfl) nofun nofun nofun nofun nofun
  | unlockDrop hp =>
    exact consistent_go h (h.released (by rw [hp]; trivial) id) (by rw [hp]; exact Iff.rfl)
      (by rw [hp]; exact Iff.rfl) nofun nofun nofun nofun
      fun _ => h.removed i (by rw [hp]; trivial)
  | isListening hp hc =>
    exact consistent_go h (h.exclusive.keep (by rw [hp]; exact Iff.rfl)) (by rw [hp]; exact Iff.rfl)
      (by rw [hp]; exact Iff.rfl) nofun nofun (fun _ => hc) nofun nofun
  | get hp hr =>
    refine consistent_go h (h.exclusive.keep (by rw [hp]; exact Iff.rfl))
      (by rw [hp]; exact Iff.rfl) (by rw [hp]; exact Iff.rfl) nofun nofun
      (fun _ => h.listed i (by rw [hp]; trivial)) ?_ nofun
    rintro _ ⟨⟩
    exact hr
  | build hp =>
    refine consistent_go h (h.exclusive.keep (by rw [hp]; exact Iff.rfl))
      (by rw [hp]; exact Iff.rfl) (by rw [hp]; exact Iff.rfl) nofun nofun
      (fun _ => h.listed i (by rw [hp]; trivial)) ?_ nofun
    rintro _ ⟨⟩
    exact h.got i _ (by rw [hp]; rfl)

end Consistency

section Registries
variable {I C S R E H : Type} {listens : I → ListenCall C S R E} {reloads : I → ReloadCall H C}
  {foreign : Name → Option (Registration I C S R E)} {s s' t : Listeners I C S R E}

/-- The entries, when nobody has the lock. -/
structure Settled (listens : I → ListenCall C S R E)
    (foreign : Name → Option (Registration I C S R E)) (s : Listeners I C S R E) : Prop where
  unique : ∀ i j, (s.pc i).Exists → (s.pc j).Exists → (listens i).name = (listens j).name → i = j
  listed : ∀ n, s.listeners n ≠ none ↔ ∃ i, (listens i).name = n ∧ (s.pc i).Exists
  own : ∀ i, (s.pc i).Exists → s.listeners (listens i).name = some i ∧
    ∃ r, s.registry (listens i).name = some r ∧ r.Of listens i
  others : ∀ n, (∀ i, (listens i).name = n → ¬ (s.pc i).Exists) →
    s.listeners n = none ∧ s.registry n = foreign n
  dropped : ∀ i, s.pc i = .listen .dropped →
    (∀ j, (listens j).name = (listens i).name → ¬ (s.pc j).Exists) →
      s.listeners (listens i).name = none ∧ s.registry (listens i).name = none

theorem Consistent.settled (h : Consistent listens reloads foreign s) (hl : s.lock = none) :
    Settled listens foreign s := by
  have hx := h.exclusive
  rw [hl] at hx
  have hothers : ∀ n, (∀ i, (listens i).name = n → ¬ (s.pc i).Exists) →
      s.listeners n = none ∧ s.registry n = foreign n := by
    refine fun n hn => ⟨?_, (h.registry n).resolve_right ?_⟩
    · by_contra hlisted
      obtain ⟨i, hi⟩ := Option.ne_none_iff_exists'.1 hlisted
      obtain ⟨hname, hserves⟩ := h.listeners n i hi
      exact hn i hname (hserves.exists (hx.not_holds i))
    · rintro ⟨i, hname, hi⟩
      exact hn i hname (hi.exists (hx.not_holds i))
  refine ⟨fun i j hi hj => h.eq_of_registers hi.serves.registers hj.serves.registers,
    fun n => ⟨fun hn => ?_, ?_⟩,
    fun i hi => ⟨h.served i hi.serves, (h.registered i hi.serves.registers).2⟩, hothers,
    fun i hi hn => ?_⟩
  · obtain ⟨i, hi⟩ := Option.ne_none_iff_exists'.1 hn
    obtain ⟨hname, hserves⟩ := h.listeners n i hi
    exact ⟨i, hname, hserves.exists (hx.not_holds i)⟩
  · rintro ⟨i, rfl, hi⟩
    rw [h.served i hi.serves]
    nofun
  · obtain ⟨hlisteners, hregistry⟩ := hothers _ hn
    exact ⟨hlisteners, hregistry.trans (h.removed i (by rw [hi]; trivial))⟩

theorem consistent_start :
    Consistent listens reloads foreign (noListeners foreign : Listeners I C S R E) where
  exclusive _ := iff_of_false id nofun
  registered _ := False.elim
  served _ := False.elim
  listeners _ _ := nofun
  registry _ := .inl rfl
  unlisted _ := False.elim
  unused _ := False.elim
  listed _ := False.elim
  got _ _ := nofun
  removed _ := False.elim

/-- The listen that a reload acts for. -/
theorem Consistent.listening (h : Consistent listens reloads foreign s) (hi : (s.pc i).Listed) :
    ∃ k, k ≠ i ∧ (listens k).name = (reloads i).name ∧ (s.pc k).Exists := by
  obtain ⟨k, hk⟩ := Option.ne_none_iff_exists'.1 (h.listed i hi)
  obtain ⟨hname, hserves⟩ := h.listeners _ k hk
  have hne : k ≠ i := by
    rintro rfl
    exact hi.not_serves hserves
  exact ⟨k, hne, hname, hserves.exists fun hk => hne (h.eq_of_holds hk hi.holds)⟩

variable [DecidableEq I] [DecidableEq H]

/-- All that a step does to the entries. -/
theorem step_changes (hs : ListenerStep listens reloads s i s') :
    (s'.listeners = s.listeners ∧ s'.registry = s.registry) ∨ (s'.pc i).Commits ∧
      ((s.pc i = .listen .registering ∧ s'.listeners = s.listeners ∧
          s'.registry = Function.update s.registry (listens i).name
            (some ((listens i).registration i))) ∨
        (s.pc i = .listen .inserting ∧ s'.registry = s.registry ∧
          s'.listeners = Function.update s.listeners (listens i).name (some i)) ∨
        (s.pc i = .listen .removing ∧ s'.registry = s.registry ∧
          s'.listeners = Function.update s.listeners (listens i).name none) ∨
        (s.pc i = .listen .unregistering ∧ s'.listeners = s.listeners ∧
          s'.registry = Function.update s.registry (listens i).name none) ∨
        ∃ credentials registered, s.pc i = .reload (.registering credentials registered) ∧
          s'.listeners = s.listeners ∧
          s'.registry = Function.update s.registry (reloads i).name
            (some (registered.replace credentials))) := by
  have hpc : ∀ p : CallPc I C S R E, p.Commits → (Function.update s.pc i p i).Commits := by
    intro p hp
    rw [Function.update_self]
    exact hp
  cases hs with
  | configure | configureFailed | lock | alreadyListening | unlisted | nameInUse | unused
    | registerFailed | unlock | drop | lockDrop | unlockDrop | reload | reloadRefused | lockReload
    | notListening | isListening | disappeared | get | build | buildFailed | replaceFailed
    | unlockReload | fail => exact .inl ⟨rfl, rfl⟩
  | register hp => exact .inr ⟨hpc _ trivial, .inl ⟨hp, rfl, rfl⟩⟩
  | insert hp => exact .inr ⟨hpc _ trivial, .inr (.inl ⟨hp, rfl, rfl⟩)⟩
  | remove hp => exact .inr ⟨hpc _ trivial, .inr (.inr (.inl ⟨hp, rfl, rfl⟩))⟩
  | unregister hp => exact .inr ⟨hpc _ trivial, .inr (.inr (.inr (.inl ⟨hp, rfl, rfl⟩)))⟩
  | replace hp =>
    exact .inr ⟨hpc _ trivial, .inr (.inr (.inr (.inr ⟨_, _, hp, rfl, rfl⟩)))⟩

theorem commits_step (h : (s.pc i).Commits) (hs : ListenerStep listens reloads s j s') :
    (s'.pc i).Commits := by
  have hgo : ∀ p : CallPc I C S R E, ((s.pc j).Commits → p.Commits) →
      (Function.update s.pc j p i).Commits := by
    intro p hp
    by_cases hi : i = j
    · rw [hi, Function.update_self]
      exact hp (hi ▸ h)
    · rw [Function.update_of_ne hi]
      exact h
  cases hs with
  | configure hp | configureFailed hp | lock hp | alreadyListening hp | unlisted hp | nameInUse hp
    | unused hp | registerFailed hp | reload hp | reloadRefused hp | lockReload hp
    | isListening hp | disappeared hp | get hp | build hp | buildFailed hp | replaceFailed hp
    | fail hp => exact hgo _ (by rw [hp]; exact False.elim)
  | register | insert | unlock | drop | lockDrop | remove | unregister | unlockDrop | notListening
    | replace | unlockReload => exact hgo _ fun _ => trivial

theorem eq_of_changed {A : Type} {f g : Name → A} {n m : Name} {v : A}
    (hf : f = Function.update g n v) (hm : f m ≠ g m) : m = n := by
  by_contra hne
  exact hm (by rw [hf, Function.update_of_ne hne])

/-- A step is one of its call. -/
theorem step_frame (hs : ListenerStep listens reloads s i s') (hk : k ≠ i) : s'.pc k = s.pc k := by
  cases hs <;> exact Function.update_of_ne hk ..

/-- What a step of a call does to the entries of the others, and of what it fails after. -/
structure OwnChanges (listens : I → ListenCall C S R E) (reloads : I → ReloadCall H C)
    (s : Listeners I C S R E) (i : I) (s' : Listeners I C S R E) : Prop where
  listeners : ∀ n k, s.listeners n = some k → s'.listeners n ≠ some k →
    k = i ∧ s.pc i = .listen .removing
  registry : ∀ n r, s.registry n = some r → s'.registry n ≠ some r →
    (r.owner = some i ∧ s.pc i = .listen .unregistering) ∨ ∃ pc, s.pc i = .reload pc
  reload : ∀ pc, s.pc i = .reload pc → s'.listeners = s.listeners ∧
    ∀ n, s'.registry n ≠ s.registry n → ∃ k r r', (listens k).name = n ∧ (s.pc k).Exists ∧
      s.registry n = some r ∧ r.Of listens k ∧ s'.registry n = some r' ∧ r'.Of listens k
  failed : s'.listeners ≠ s.listeners ∨ s'.registry ≠ s.registry →
    ∀ t, Reaches (ListenerStep listens reloads) (fun _ _ => True) s' t →
      ∀ error, t.pc i ≠ .failed error

/-- A call that has changed an entry does not fail. -/
theorem not_failed (hs : (s.pc i).Commits)
    (ht : Reaches (ListenerStep listens reloads) (fun _ _ => True) s t) (error : ListenerError) :
    t.pc i ≠ .failed error := by
  have hcommits : (t.pc i).Commits :=
    ht.invariant hs fun _ _ _ hc _ hstep => commits_step hc hstep
  intro hfailed
  rw [hfailed] at hcommits
  exact hcommits

theorem Consistent.listeners_own (h : Consistent listens reloads foreign s)
    (hs : ListenerStep listens reloads s i s') (hk : s.listeners n = some k)
    (hn : s'.listeners n ≠ some k) : k = i ∧ s.pc i = .listen .removing := by
  obtain ⟨hl, -⟩ | ⟨-, ⟨-, hl, -⟩ | ⟨hp, -, hl⟩ | ⟨hp, -, hl⟩ | ⟨-, hl, -⟩ | ⟨_, _, -, hl, -⟩⟩ :=
    step_changes hs
  · exact absurd ((congrFun hl n).trans hk) hn
  · exact absurd ((congrFun hl n).trans hk) hn
  · have hname : n = (listens i).name := eq_of_changed hl (hk ▸ hn)
    rw [hname, h.unlisted i (by rw [hp]; trivial)] at hk
    cases hk
  · have hname : n = (listens i).name := eq_of_changed hl (hk ▸ hn)
    rw [hname, h.served i (by rw [hp]; trivial)] at hk
    exact ⟨(Option.some.inj hk).symm, hp⟩
  · exact absurd ((congrFun hl n).trans hk) hn
  · exact absurd ((congrFun hl n).trans hk) hn

theorem Consistent.registry_own (h : Consistent listens reloads foreign s)
    (hs : ListenerStep listens reloads s i s') (hr : s.registry n = some r)
    (hn : s'.registry n ≠ some r) :
    (r.owner = some i ∧ s.pc i = .listen .unregistering) ∨ ∃ pc, s.pc i = .reload pc := by
  obtain ⟨-, hg⟩ | ⟨-, ⟨hp, -, hg⟩ | ⟨-, hg, -⟩ | ⟨-, hg, -⟩ | ⟨hp, -, hg⟩ | ⟨_, _, hp, -⟩⟩ :=
    step_changes hs
  · exact absurd ((congrFun hg n).trans hr) hn
  · have hname : n = (listens i).name := eq_of_changed hg (hr ▸ hn)
    rw [hname, h.unused i (by rw [hp]; trivial)] at hr
    cases hr
  · exact absurd ((congrFun hg n).trans hr) hn
  · exact absurd ((congrFun hg n).trans hr) hn
  · have hname : n = (listens i).name := eq_of_changed hg (hr ▸ hn)
    obtain ⟨-, r', hr', hof⟩ := h.registered i (by rw [hp]; trivial)
    rw [hname, hr'] at hr
    cases hr
    exact .inl ⟨hof.owner, hp⟩
  · exact .inr ⟨_, hp⟩

theorem Consistent.reload_own (h : Consistent listens reloads foreign s)
    (hs : ListenerStep listens reloads s i s') (hp : s.pc i = .reload pc) :
    s'.listeners = s.listeners ∧
      ∀ n, s'.registry n ≠ s.registry n → ∃ k r r', (listens k).name = n ∧ (s.pc k).Exists ∧
        s.registry n = some r ∧ r.Of listens k ∧ s'.registry n = some r' ∧ r'.Of listens k := by
  have h' : Consistent listens reloads foreign s' := consistent_step h hs
  obtain ⟨hl, hg⟩ | ⟨-, ⟨hl, -⟩ | ⟨hl, -⟩ | ⟨hl, -⟩ | ⟨hl, -⟩ | ⟨_, _, hl, hlisteners, hg⟩⟩ :=
    step_changes hs
  · exact ⟨hl, fun n hn => absurd (congrFun hg n) hn⟩
  · exact nomatch hp.symm.trans hl
  · exact nomatch hp.symm.trans hl
  · exact nomatch hp.symm.trans hl
  · exact nomatch hp.symm.trans hl
  · refine ⟨hlisteners, fun n hn => ?_⟩
    have hname : n = (reloads i).name := eq_of_changed hg hn
    obtain ⟨k, hne, hk, hexists⟩ := h.listening (i := i) (by rw [hl]; trivial)
    obtain ⟨-, r, hr, hof⟩ := h.registered k hexists.serves.registers
    obtain ⟨-, r', hr', hof'⟩ := h'.registered k (by
      rw [step_frame hs hne]
      exact hexists.serves.registers)
    rw [hname, ← hk]
    exact ⟨k, r, r', rfl, hexists, hr, hof, hr', hof'⟩

theorem Consistent.ownChanges (h : Consistent listens reloads foreign s)
    (hs : ListenerStep listens reloads s i s') : OwnChanges listens reloads s i s' where
  listeners _ _ := h.listeners_own hs
  registry _ _ := h.registry_own hs
  reload _ := h.reload_own hs
  failed hchange t ht := by
    obtain ⟨hl, hg⟩ | ⟨hcommits, -⟩ := step_changes hs
    · exact absurd hchange (not_or_intro (not_not_intro hl) (not_not_intro hg))
    · exact not_failed hcommits ht

/-- The listeners and the QUIC registry in any interleaving of listens, drops of their futures
and reloads. -/
theorem listeners_consistent
    (h : Reaches (ListenerStep listens reloads) (fun _ _ => True) (noListeners foreign) s) :
    (s.lock = none → Settled listens foreign s) ∧
      ∀ i s', ListenerStep listens reloads s i s' → OwnChanges listens reloads s i s' := by
  have hs : Consistent listens reloads foreign s :=
    h.invariant consistent_start fun _ _ _ hc _ hstep => consistent_step hc hstep
  exact ⟨hs.settled, fun _ _ => hs.ownChanges⟩

end Registries

def sameName (i : Nat) : ListenCall Nat Unit Unit Unit := ⟨['a'], i, (), fun _ => ()⟩

def newStaple (_ : Nat) : ReloadCall Unit Nat := ⟨['a'], (), .ok ⟨['a'], (), 9, true⟩⟩

/-- The future of a listen is dropped, another listen takes its name, and a reload replaces the
staple of that. -/
theorem listeners_consistent_reloaded :
    ∃ s : Listeners Nat Nat Unit Unit Unit,
      Reaches (ListenerStep sameName newStaple) (fun _ _ => True) (noListeners fun _ => none) s ∧
      s.pc 0 = .listen .dropped ∧ s.pc 1 = .listen .listening ∧ s.pc 2 = .reload .returned ∧
      s.listeners ['a'] = some 1 ∧
      (s.registry ['a']).map (fun r => (r.owner, r.credentials)) = some (some 1, 9) ∧
      Settled sameName (fun _ => none) s ∧
      ∀ i s', ListenerStep sameName newStaple s i s' → OwnChanges sameName newStaple s i s' := by
  have h := @Reaches.refl _ _ (ListenerStep sameName newStaple) (fun _ _ => True)
    (noListeners (S := Unit) (R := Unit) (E := Unit) fun _ => none)
  have h := h.tail trivial (.configure (i := 0) rfl)
  have h := h.tail trivial (.configure (i := 1) rfl)
  have h := h.tail trivial (.lock (i := 0) rfl rfl)
  have h := h.tail trivial (.unlisted (i := 0) rfl rfl)
  have h := h.tail trivial (.unused (i := 0) rfl rfl)
  have h := h.tail trivial (.register (i := 0) rfl)
  have h := h.tail trivial (.insert (i := 0) rfl)
  have h := h.tail trivial (.unlock (i := 0) rfl)
  have h := h.tail trivial (.drop (i := 0) rfl)
  have h := h.tail trivial (.lockDrop (i := 0) rfl rfl)
  have h := h.tail trivial (.remove (i := 0) rfl)
  have h := h.tail trivial (.unregister (i := 0) rfl)
  have h := h.tail trivial (.unlockDrop (i := 0) rfl)
  have h := h.tail trivial (.lock (i := 1) rfl rfl)
  have h := h.tail trivial (.unlisted (i := 1) rfl rfl)
  have h := h.tail trivial (.unused (i := 1) rfl rfl)
  have h := h.tail trivial (.register (i := 1) rfl)
  have h := h.tail trivial (.insert (i := 1) rfl)
  have h := h.tail trivial (.unlock (i := 1) rfl)
  have h := h.tail trivial (.reload (i := 2) rfl rfl)
  have h := h.tail trivial (.lockReload (i := 2) rfl rfl)
  have h := h.tail trivial (.isListening (i := 2) rfl nofun)
  have h := h.tail trivial (.get (i := 2) rfl rfl)
  have h := h.tail trivial (.build (i := 2) rfl)
  have h := h.tail trivial (.replace (i := 2) rfl)
  have h := h.tail trivial (.unlockReload (i := 2) rfl)
  obtain ⟨hsettled, hown⟩ := listeners_consistent h
  exact ⟨_, h, rfl, rfl, rfl, rfl, rfl, hsettled rfl, hown⟩

end Dhttp.Network
