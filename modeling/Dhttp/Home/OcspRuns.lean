import Dhttp.Home.OcspRefresh

namespace Dhttp.Home
open Dhttp.Lib
set_option autoImplicit true

namespace RefreshPc

/-- What a call has received and not yet returned. -/
def received : RefreshPc → Option Bytes
  | receiving response | creating response | writing response _ _ | syncing response _
    | persisting response _ => some response
  | _ => none

/-- The response of a call that was good. -/
def checked : RefreshPc → Option Bytes
  | creating response | writing response _ _ | syncing response _ | persisting response _
    | returned (.ok response) => some response
  | _ => none

theorem failed_cases {pc pc' : RefreshPc} (h : pc.failed = some pc') :
    pc'.contents = none ∧ pc'.received = none ∧ pc'.checked = none ∧
      (pc'.temp = none ∨ pc'.temp = pc.temp) ∧ ∀ r, pc ≠ .returned (.ok r) := by
  cases pc with
  | creating =>
    cases h
    exact ⟨rfl, rfl, rfl, .inl rfl, by intro r h; cases h⟩
  | writing | syncing | persisting =>
    cases h
    exact ⟨rfl, rfl, rfl, .inr rfl, by intro r h; cases h⟩
  | idle | loading | fetching | awaiting | receiving | removing | returned | dropped => cases h

end RefreshPc

theorem temp_put (disk : Disk SslPath Text UInt8) {temp other : Nat} (hne : other ≠ temp)
    (tree : Option Tree) : Function.update disk (.temp temp) tree (.temp other) =
      disk (.temp other) :=
  Function.update_of_ne (fun he => hne (SslPath.temp.inj he)) tree disk

theorem staple_put (disk : Disk SslPath Text UInt8) (temp : Nat) (tree : Option Tree) :
    Function.update disk (.temp temp) tree .stapling = disk .stapling := by
  rw [Function.update_of_ne]
  intro he
  cases he

section Runs

variable {L : OcspLib} {I : Type} {certificates : I → List L.Certificate}
  {rootCaDer : I → Bytes} {original : Option Tree} {s s' : Refreshes I}

def StapleWrite.caller : StapleWrite I → Option I
  | refresh i _ => some i
  | replaced _ => none

/-- Some clock found the response good for the call. -/
def Good (certificates : I → List L.Certificate) (i : I) (response : Bytes) : Prop :=
  ∃ now, L.validateOcsp response (certificates i) now = .ok ()

/-- What holds all along: each temporary file is as far as its call says, and the path of the staple
holds the last write. -/
structure Refreshed (certificates : I → List L.Certificate) (original : Option Tree)
    (s : Refreshes I) : Prop where
  fresh : ∀ i temp, (s.pc i).temp = some temp → temp < s.nextTemp
  distinct : ∀ i j temp, (s.pc i).temp = some temp → (s.pc j).temp = some temp → i = j
  contents : ∀ i temp bytes, (s.pc i).temp = some temp → (s.pc i).contents = some bytes →
    s.disk (.temp temp) = none ∨ s.disk (.temp temp) = some (.file bytes)
  bounded : ∀ i response, (s.pc i).received = some response → response.length ≤ maxResponseLen
  checked : ∀ i response, (s.pc i).checked = some response → Good certificates i response
  staple : s.disk .stapling = s.writes.head?.elim original StapleWrite.tree
  callers : ∀ i response, .refresh i response ∈ s.writes →
    s.pc i = .returned (.ok response) ∧ response.length ≤ maxResponseLen
  once : (s.writes.filterMap StapleWrite.caller).Nodup

theorem refreshed_start (disk : Disk SslPath Text UInt8) :
    Refreshed certificates (disk .stapling) (refreshes I disk) where
  fresh _ _ h := by cases h
  distinct _ _ _ h := by cases h
  contents _ _ _ h := by cases h
  bounded _ _ h := by cases h
  checked _ _ h := by cases h
  staple := rfl
  callers _ _ h := absurd h List.not_mem_nil
  once := List.nodup_nil

variable [DecidableEq I]

/-- A call goes on and touches no other call's file. -/
theorem refreshed_update (h : Refreshed certificates original s)
    (hpc : s'.pc = Function.update s.pc i pc) (hactive : ∀ r, s.pc i ≠ .returned (.ok r))
    (hnext : s.nextTemp ≤ s'.nextTemp)
    (htemp : ∀ temp, pc.temp = some temp → temp < s'.nextTemp ∧
      ∀ j, (s.pc j).temp = some temp → j = i)
    (hcontents : ∀ temp bytes, pc.temp = some temp → pc.contents = some bytes →
      s'.disk (.temp temp) = none ∨ s'.disk (.temp temp) = some (.file bytes))
    (hframe : ∀ j temp, j ≠ i → (s.pc j).temp = some temp →
      s'.disk (.temp temp) = s.disk (.temp temp))
    (hbounded : ∀ r, pc.received = some r → r.length ≤ maxResponseLen)
    (hchecked : ∀ r, pc.checked = some r → Good certificates i r)
    (hstaple : s'.disk .stapling = s.disk .stapling) (hwrites : s'.writes = s.writes) :
    Refreshed certificates original s' := by
  refine ⟨?_, ?_, ?_, ?_, ?_, ?_, ?_, ?_⟩
  · intro j temp hj
    rw [hpc] at hj
    by_cases he : j = i
    · rw [he, Function.update_self] at hj
      exact (htemp temp hj).1
    · rw [Function.update_of_ne he] at hj
      exact Nat.lt_of_lt_of_le (h.fresh j temp hj) hnext
  · intro j k temp hj hk
    rw [hpc] at hj hk
    by_cases hji : j = i
    · rw [hji, Function.update_self] at hj
      by_cases hki : k = i
      · rw [hji, hki]
      · rw [Function.update_of_ne hki] at hk
        exact absurd ((htemp temp hj).2 k hk) hki
    · rw [Function.update_of_ne hji] at hj
      by_cases hki : k = i
      · rw [hki, Function.update_self] at hk
        exact absurd ((htemp temp hk).2 j hj) hji
      · rw [Function.update_of_ne hki] at hk
        exact h.distinct j k temp hj hk
  · intro j temp bytes hj hb
    rw [hpc] at hj hb
    by_cases he : j = i
    · rw [he, Function.update_self] at hj hb
      exact hcontents temp bytes hj hb
    · rw [Function.update_of_ne he] at hj hb
      rw [hframe j temp he hj]
      exact h.contents j temp bytes hj hb
  · intro j r hj
    rw [hpc] at hj
    by_cases he : j = i
    · rw [he, Function.update_self] at hj
      exact hbounded r hj
    · rw [Function.update_of_ne he] at hj
      exact h.bounded j r hj
  · intro j r hj
    rw [hpc] at hj
    by_cases he : j = i
    · rw [he, Function.update_self] at hj
      rw [he]
      exact hchecked r hj
    · rw [Function.update_of_ne he] at hj
      exact h.checked j r hj
  · rw [hstaple, hwrites]
    exact h.staple
  · intro j r hj
    rw [hwrites] at hj
    obtain ⟨hr, hl⟩ := h.callers j r hj
    refine ⟨?_, hl⟩
    rw [hpc]
    by_cases he : j = i
    · exact absurd (he ▸ hr) (hactive r)
    · rw [Function.update_of_ne he]
      exact hr
  · rw [hwrites]
    exact h.once

/-- A call goes on without touching the directory. -/
theorem refreshed_go (h : Refreshed certificates original s)
    (hactive : ∀ r, s.pc i ≠ .returned (.ok r))
    (htemp : pc.temp = none ∨ pc.temp = (s.pc i).temp)
    (hcontents : ∀ bytes, pc.contents = some bytes → (s.pc i).contents = some bytes)
    (hbounded : ∀ r, pc.received = some r → r.length ≤ maxResponseLen)
    (hchecked : ∀ r, pc.checked = some r → Good certificates i r) :
    Refreshed certificates original (s.go i pc) := by
  have hold : ∀ temp, pc.temp = some temp → (s.pc i).temp = some temp := by
    intro temp ht
    rcases htemp with hn | he
    · rw [hn] at ht
      cases ht
    · rw [← he]
      exact ht
  have hpc : (s.go i pc).pc = Function.update s.pc i pc := rfl
  refine refreshed_update h hpc hactive (Nat.le_refl _) ?_ ?_
    (fun _ _ _ _ => rfl) hbounded hchecked rfl rfl
  · intro temp ht
    exact ⟨h.fresh i temp (hold temp ht), fun j hj => h.distinct j i temp hj (hold temp ht)⟩
  · intro temp bytes ht hb
    exact h.contents i temp bytes (hold temp ht) (hcontents bytes hb)

/-- A call that ends with an error, or without a result. -/
theorem refreshed_end (h : Refreshed certificates original s)
    (hactive : ∀ r, s.pc i ≠ .returned (.ok r)) (ht : pc.temp = none)
    (hc : pc.contents = none) (hr : pc.received = none) (hk : pc.checked = none) :
    Refreshed certificates original (s.go i pc) := by
  apply refreshed_go h hactive (.inl ht)
  · intro bytes hb
    rw [hc] at hb
    cases hb
  · intro r hb
    rw [hr] at hb
    cases hb
  · intro r hb
    rw [hk] at hb
    cases hb

omit [DecidableEq I] in
theorem active_of_eq (hp : s.pc i = pc) (h : pc.checked = none ∨ pc.temp ≠ none) :
    ∀ r, s.pc i ≠ .returned (.ok r) := by
  intro r hr
  rw [hp] at hr
  rw [hr] at h
  rcases h with h | h
  · cases h
  · exact h rfl

/-- The rename puts the whole response at the path of the staple. -/
theorem refreshed_persist {temp : Nat} (h : Refreshed certificates original s)
    (hp : s.pc i = .persisting response temp)
    (hr : Disk.rename s.disk (.temp temp) .stapling = some disk) :
    Refreshed certificates original { s.go i (.returned (.ok response)) with
      disk := disk
      writes := .refresh i response :: s.writes } := by
  have htemp : (s.pc i).temp = some temp := by rw [hp]; rfl
  have hactive : ∀ r, s.pc i ≠ .returned (.ok r) :=
    active_of_eq hp (.inr (by intro h; cases h))
  have hgo : Refreshed certificates original (s.go i (.returned (.ok response))) := by
    apply refreshed_go h hactive (.inl rfl)
    · intro bytes hb
      cases hb
    · intro r hr
      cases hr
    · intro r hr
      exact h.checked i r (by rw [hp]; exact hr)
  have hfile : disk .stapling = some (.file response) := by
    rw [Disk.rename_target hr]
    rcases h.contents i temp response htemp (by rw [hp]; rfl) with hn | he
    · rw [Disk.rename, hn] at hr
      cases hr
    · exact he
  have hend : (s.go i (.returned (.ok response))).pc i = .returned (.ok response) :=
    Function.update_self ..
  refine ⟨hgo.fresh, hgo.distinct, ?_, hgo.bounded, hgo.checked, hfile, ?_, ?_⟩
  · intro j temp' bytes hj hb
    have hji : j ≠ i := by
      intro he
      rw [he] at hj
      change ((s.go i (.returned (.ok response))).pc i).temp = some temp' at hj
      rw [hend] at hj
      cases hj
    have hj' : (s.pc j).temp = some temp' := by
      change (Function.update s.pc i (.returned (.ok response)) j).temp = some temp' at hj
      rwa [Function.update_of_ne hji] at hj
    have hne : SslPath.temp temp' ≠ .temp temp := by
      intro he
      rw [SslPath.temp.inj he] at hj'
      exact hji (h.distinct j i temp hj' htemp)
    change disk (.temp temp') = none ∨ disk (.temp temp') = some (.file bytes)
    rw [Disk.rename_of_ne hr hne (by intro he; cases he)]
    exact hgo.contents j temp' bytes hj hb
  · intro j r hj
    rcases List.mem_cons.1 hj with he | hj
    · cases he
      exact ⟨hend, h.bounded i response (by rw [hp]; rfl)⟩
    · exact hgo.callers j r hj
  · rw [List.filterMap_cons]
    refine List.nodup_cons.2 ⟨?_, h.once⟩
    intro hm
    obtain ⟨w, hw, hc⟩ := List.mem_filterMap.1 hm
    cases w with
    | replaced tree => cases hc
    | refresh j r =>
      have he : j = i := Option.some.inj hc
      exact hactive r (he ▸ (h.callers j r hw).1)

theorem refreshed_step (h : Refreshed certificates original s)
    (hs : RefreshStep certificates rootCaDer s e s') : Refreshed certificates original s' := by
  cases hs with
  | start hp => exact refreshed_end h (active_of_eq hp (.inl rfl)) rfl rfl rfl rfl
  | @cached _ response _ i now hp hd hr hn hv =>
    apply refreshed_go h (active_of_eq hp (.inl rfl)) (.inl rfl)
    · intro bytes hb
      cases hb
    · intro r hr
      cases hr
    · intro r hr
      cases hr
      exact ⟨now, hv⟩
  | stale hp | refuse hp | send hp | unanswered hp | tooLarge hp | broken hp | invalid hp
    | kept hp =>
    exact refreshed_end h (active_of_eq hp (.inl rfl)) rfl rfl rfl rfl
  | respond hp =>
    apply refreshed_go h (active_of_eq hp (.inl rfl)) (.inl rfl)
    · intro bytes hb
      cases hb
    · intro r hr
      cases hr
      exact Nat.zero_le _
    · intro r hr
      cases hr
  | @chunk body _ i hp chunk hl =>
    apply refreshed_go h (active_of_eq hp (.inl rfl)) (.inl rfl)
    · intro bytes hb
      cases hb
    · intro r hr
      cases hr
      rw [List.length_append]
      exact hl
    · intro r hr
      cases hr
  | @fetched body _ i now hp hv =>
    apply refreshed_go h (active_of_eq hp (.inl rfl)) (.inl rfl)
    · intro bytes hb
      cases hb
    · intro r hr
      exact h.bounded i r (by rw [hp]; exact hr)
    · intro r hr
      cases hr
      exact ⟨now, hv⟩
  | @create response _ i hp hd =>
    have hne : ∀ j temp, (s.pc j).temp = some temp → temp ≠ s.nextTemp := fun j temp hj =>
      Nat.ne_of_lt (h.fresh j temp hj)
    refine refreshed_update h rfl ?_ (Nat.le_succ _) ?_ ?_ ?_ ?_ ?_ ?_ rfl
    · intro r hr
      rw [hp] at hr
      cases hr
    · intro temp ht
      cases ht
      exact ⟨Nat.lt_succ_self _, fun j hj => absurd rfl (hne j _ hj)⟩
    · intro temp bytes ht hb
      cases ht
      cases hb
      exact .inr (Function.update_self ..)
    · intro j temp _ hj
      exact temp_put s.disk (hne j temp hj) _
    · intro r hr
      exact h.bounded i r (by rw [hp]; exact hr)
    · intro r hr
      exact h.checked i r (by rw [hp]; exact hr)
    · exact staple_put s.disk s.nextTemp (some (.file []))
  | @write response written _ i temp count hp hw hc =>
    have htemp : (s.pc i).temp = some temp := by rw [hp]; rfl
    refine refreshed_update h rfl (active_of_eq hp (.inr (by intro h; cases h)))
      (Nat.le_refl _) ?_ ?_ ?_ ?_ ?_ ?_ rfl
    · intro temp' ht
      cases ht
      exact ⟨h.fresh i temp htemp, fun j hj => h.distinct j i temp hj htemp⟩
    · intro temp' bytes ht hb
      cases ht
      cases hb
      have hput : ((s.go i (.writing response temp count)).put (.temp temp)
          ((s.disk (.temp temp)).map fun _ => .file (response.take count))).disk (.temp temp) =
            (s.disk (.temp temp)).map fun _ => .file (response.take count) :=
        Function.update_self ..
      rw [hput]
      cases s.disk (.temp temp) with
      | none => exact .inl rfl
      | some tree => exact .inr rfl
    · intro j temp' hj ht
      apply temp_put s.disk
      intro he
      rw [he] at ht
      exact hj (h.distinct j i temp ht htemp)
    · intro r hr
      exact h.bounded i r (by rw [hp]; exact hr)
    · intro r hr
      exact h.checked i r (by rw [hp]; exact hr)
    · exact staple_put s.disk temp ((s.disk (.temp temp)).map fun _ => .file (response.take count))
  | @written response _ i temp hp =>
    apply refreshed_go h (active_of_eq hp (.inr (by intro h; cases h))) (.inr (by rw [hp]; rfl))
    · intro bytes hb
      cases hb
      rw [hp]
      exact congrArg some (List.take_length)
    · intro r hr
      exact h.bounded i r (by rw [hp]; exact hr)
    · intro r hr
      exact h.checked i r (by rw [hp]; exact hr)
  | @sync response _ i temp hp =>
    apply refreshed_go h (active_of_eq hp (.inr (by intro h; cases h))) (.inr (by rw [hp]; rfl))
    · intro bytes hb
      rw [hp]
      exact hb
    · intro r hr
      exact h.bounded i r (by rw [hp]; exact hr)
    · intro r hr
      exact h.checked i r (by rw [hp]; exact hr)
  | @persist response disk _ i temp hp hr => exact refreshed_persist h hp hr
  | @fail pc _ i hf =>
    obtain ⟨hc, hr, hk, ht, hactive⟩ := RefreshPc.failed_cases hf
    apply refreshed_go h hactive ht
    · intro bytes hb
      rw [hc] at hb
      cases hb
    · intro r hb
      rw [hr] at hb
      cases hb
    · intro r hb
      rw [hk] at hb
      cases hb
  | @remove error _ i temp hp =>
    have htemp : (s.pc i).temp = some temp := by rw [hp]; rfl
    refine refreshed_update h rfl (active_of_eq hp (.inl rfl)) (Nat.le_refl _) ?_ ?_ ?_ ?_ ?_ ?_ rfl
    · intro temp' ht
      cases ht
    · intro temp' bytes ht
      cases ht
    · intro j temp' hj ht
      apply temp_put s.disk
      intro he
      rw [he] at ht
      exact hj (h.distinct j i temp ht htemp)
    · intro r hr
      cases hr
    · intro r hr
      cases hr
    · exact staple_put s.disk temp none
  | @drop _ i hp =>
    apply refreshed_end h _ rfl rfl rfl rfl
    intro r hr
    rw [hr] at hp
    exact hp
  | replace disk ht =>
    refine ⟨h.fresh, h.distinct, ht, h.bounded, h.checked, rfl, ?_, h.once⟩
    intro i r hr
    rcases List.mem_cons.1 hr with he | hr
    · cases he
    · exact h.callers i r hr

/-- Whatever the calls and everyone else do, and wherever they are interrupted: the staple on disk
is the last write as a whole; a refresh writes only a response within the limit that a clock found
good for its certificates, and it writes exactly what it returns, once; every response returned was
good, read or fetched; a call that fails or is dropped has written nothing. -/
theorem staple_refreshed (disk : Disk SslPath Text UInt8)
    (h : Reaches (RefreshStep certificates rootCaDer) (fun _ _ => True) (refreshes I disk) s) :
    s.disk .stapling = s.writes.head?.elim (disk .stapling) StapleWrite.tree ∧
      (∀ i response, .refresh i response ∈ s.writes →
        s.pc i = .returned (.ok response) ∧ response.length ≤ maxResponseLen) ∧
      (∀ i response, s.pc i = .returned (.ok response) → Good certificates i response) ∧
      (∀ i, (∀ response, s.pc i ≠ .returned (.ok response)) →
        ∀ response, .refresh i response ∉ s.writes) ∧
      (s.writes.filterMap StapleWrite.caller).Nodup := by
  have hinv : Refreshed certificates (disk .stapling) s :=
    h.invariant (refreshed_start disk) fun _ _ _ hi _ hs => refreshed_step hi hs
  refine ⟨hinv.staple, hinv.callers, ?_, ?_, hinv.once⟩
  · intro i response hp
    exact hinv.checked i response (by rw [hp]; rfl)
  · intro i hn response hw
    exact hn response (hinv.callers i response hw).1

end Runs

section Samples

/-- Libraries that know two good responses. -/
def twoResponses : OcspLib where
  Certificate := Unit
  Parsed := Unit
  Request := Unit
  Time := Unit
  parse _ := .ok ()
  isValid _ := true
  accessDescriptions _ := [[(ocspAccessMethod, some "http://ocsp.test".toList)]]
  request _ _ := .ok ()
  client _ := .ok ()
  scheme _ := .ok "http".toList
  validateOcsp response _ _ :=
    if response = [7] ∨ response = [8] then .ok () else .error "malformed".toList

def sameProfile (_ : Bool) : List twoResponses.Certificate := [(), ()]

/-- Two calls find a malformed staple and write at the same time; the last of them stays. -/
theorem staple_refreshed_malformed : ∃ s : Refreshes Bool,
    s.pc true = .returned (.ok [7]) ∧ s.pc false = .returned (.ok [8]) ∧
      s.disk .stapling = some (.file [8]) ∧ Good sameProfile true [7] ∧
      Good sameProfile false [8] := by
  let disk : Disk SslPath Text UInt8 := fun path =>
    if path = .stapling then some (.file [1, 2]) else none
  have h : ∃ s, Reaches (RefreshStep sameProfile fun _ => []) (fun _ _ => True)
      (refreshes Bool disk) s ∧ s.pc true = .returned (.ok [7]) ∧
      s.pc false = .returned (.ok [8]) ∧ s.writes = [.refresh false [8], .refresh true [7]] := by
    have h : Reaches (RefreshStep sameProfile fun _ => []) (fun _ _ => True)
      (refreshes Bool disk) (refreshes Bool disk) := .refl
    have h := h.tail trivial (.start (i := true) rfl)
    have h := h.tail trivial (.start (i := false) rfl)
    have h := h.tail trivial (.stale (i := true) rfl)
    have h := h.tail trivial (.stale (i := false) rfl)
    have h := h.tail trivial (.send (i := true) rfl rfl)
    have h := h.tail trivial (.send (i := false) rfl rfl)
    have h := h.tail trivial (.respond (i := true) rfl)
    have h := h.tail trivial (.respond (i := false) rfl)
    have h := h.tail trivial (.chunk (i := true) rfl [7] (by decide))
    have h := h.tail trivial (.chunk (i := false) rfl [8] (by decide))
    have h := h.tail trivial (@RefreshStep.fetched _ _ _ _ _ _ _ true () rfl rfl)
    have h := h.tail trivial (@RefreshStep.fetched _ _ _ _ _ _ _ false () rfl rfl)
    have h := h.tail trivial (.create (i := true) rfl rfl)
    have h := h.tail trivial (.create (i := false) rfl rfl)
    have h := h.tail trivial
      (@RefreshStep.write _ _ _ _ _ _ _ _ false 1 1 rfl (by decide) (by decide))
    have h := h.tail trivial
      (@RefreshStep.write _ _ _ _ _ _ _ _ true 0 1 rfl (by decide) (by decide))
    have h := h.tail trivial (.written (i := true) rfl)
    have h := h.tail trivial (.written (i := false) rfl)
    have h := h.tail trivial (.sync (i := true) rfl)
    have h := h.tail trivial (.persist (i := true) rfl rfl)
    have h := h.tail trivial (.sync (i := false) rfl)
    exact ⟨_, h.tail trivial (.persist (i := false) rfl rfl), rfl, rfl, rfl⟩
  obtain ⟨s, hs, htrue, hfalse, hw⟩ := h
  obtain ⟨hstaple, -, hgood, -⟩ := staple_refreshed disk hs
  refine ⟨s, htrue, hfalse, ?_, hgood true [7] htrue, hgood false [8] hfalse⟩
  rw [hstaple, hw]
  rfl

end Samples

end Dhttp.Home
