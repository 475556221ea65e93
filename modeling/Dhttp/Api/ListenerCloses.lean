import Dhttp.Api.ListenerRuns

namespace Dhttp.Api
open Dhttp.Lib
set_option autoImplicit true

section Closes
variable {K L J X C T : Type} [DecidableEq K] [DecidableEq L] [DecidableEq J] [DecidableEq X]
  [DecidableEq C] {s s' : Listening K L J X C T}

theorem listening_innerRun (hs : ListeningRun s s') (l : L) :
    SystemRun (s.inner l) (s'.inner l) := by
  induction hs with
  | refl => exact .refl
  | tail _ _ hs ih =>
    rcases listening_inner hs l with he | hstep
    · rw [he]
      exact ih
    · exact ih.tail trivial hstep

theorem released_run (hs : ListeningRun s s') (h : s.pc l = .released) : s'.pc l = .released := by
  induction hs with
  | refl => exact h
  | tail _ _ hs ih => exact listening_released hs ih

/-- A `close` of the handle that has returned has returned. -/
theorem closed_outerRun (h : ListeningInv s) (hs : ListeningRun s s')
    (hc : s.outer.call i = .stopped .close) : s'.outer.call i = .stopped .close := by
  induction hs with
  | refl => exact hc
  | tail hrun _ hs ih =>
    rcases listening_outer (listeningInv_run h hrun) hs with he | hstep
    · rw [he]
      exact ih
    · rcases step_moves hstep i with he | hm
      · exact he.trans ih
      · rw [ih] at hm
        cases hm

omit [DecidableEq K] [DecidableEq L] [DecidableEq J] [DecidableEq X] [DecidableEq C] in
/-- Of the listeners whose operation is not there, none runs. -/
theorem released_of_dead (h : (s.pc l).Place s l) (hd : ¬ (s.outer.call (.inr l)).Live) :
    s.pc l = .released ∨ ¬ (s.pc l).Spawned ∧ ∀ polled, s.pc l ≠ .starting polled := by
  have hlive (hcall : s.outer.call (.inr l) = .registered) : False := by
    rw [hcall] at hd
    exact hd trivial
  cases he : s.pc l with
  | preparing | starting | waiting | unlisted | closing | closed =>
    rw [he] at h
    exact (hlive h.1).elim
  | released => exact .inl rfl
  | _ => exact .inr ⟨id, nofun⟩

theorem ListenPc.Moves.spawns {pc pc' : ListenPc} (h : pc.Moves pc') (hp : pc'.Spawned) :
    pc.Spawned ∨ ∃ polled, pc = .starting polled := by
  cases h with
  | listen => exact .inr ⟨_, rfl⟩
  | wake | close | closed | release => exact .inl trivial
  | _ => exact hp.elim

/-- After the `close` of the handle no listener comes up. -/
theorem unspawned_run (h : ListeningInv s) (hs : ListeningRun s s')
    (hc : s.outer.call i = .stopped .close) (hn : ¬ (s.pc l).Spawned) : ¬ (s'.pc l).Spawned := by
  induction hs with
  | refl => exact hn
  | tail hrun _ hs ih =>
    have hinv := listeningInv_run h hrun
    have hended := hinv.outer.ended i (closed_outerRun h hrun hc) (.inr l)
    rcases listening_moves hs l with he | hm
    · rw [he]
      exact ih
    · rcases released_of_dead (hinv.place l) hended with hr | ⟨-, hstart⟩
      · rw [hr] at ih
        exact (ih trivial).elim
      · intro hnew
        rcases hm.spawns hnew with hold | ⟨polled, hold⟩
        · exact ih hold
        · exact hstart polled hold

/-- A listener is silent: it is not listed, its scope is closed and empty, and no handler of it has
been polled since. -/
structure Silent (s s' : Listening K L J X C T) (l : L) : Prop where
  unlisted : s'.listed l = false
  idle : ∀ j, ¬ ((s'.inner l).scope.call j).Live
  shut : (s'.pc l).Spawned → (s'.inner l).scope.ensureOpen = .error closedError
  settled : ∀ r, Settled ((s.inner l).run r) ((s'.inner l).run r)

theorem released_silent (h : ListeningInv s) (hp : s.pc l = .released)
    (hs : ListeningRun s s') : Silent s s' l := by
  have hinv := listeningInv_run h hs
  have hplace := h.place l
  have hplace' := hinv.place l
  rw [hp] at hplace
  rw [released_run hs hp] at hplace'
  obtain ⟨-, hlisted, hstopped⟩ := hplace'
  obtain ⟨-, hcancelled⟩ := (h.inner l).scope.ended_shut hplace.2.2
  obtain ⟨hclosed, -⟩ := (hinv.inner l).scope.ended_shut hstopped
  refine ⟨hlisted, (hinv.inner l).scope.ended none hstopped, ?_, ?_⟩
  · intro _
    rw [Scope.ensureOpen, hclosed]
    rfl
  · exact (cancelled_run (h.inner l) hcancelled (listening_innerRun hs l)).2

theorem unspawned_silent (h : ListeningInv s) (hs : ListeningRun s s')
    (hp : ¬ (s.pc l).Spawned) (hp' : ¬ (s'.pc l).Spawned) : Silent s s' l := by
  have hold := (h.place l).unspawned hp
  have hnew := ((listeningInv_run h hs).place l).unspawned hp'
  refine ⟨hnew.2, ?_, fun hn => (hp' hn).elim, ?_⟩
  · rw [hnew.1]
    exact fun _ => id
  · rw [hold.1, hnew.1]
    exact fun r => .refl _

/-- When a `close` of the handle has returned, or one of the listener and none was dropped while it
waited for the task, the listener is silent and stays so. -/
theorem close_silences_listeners (h : ListeningRun (.new K L J X C T) s) (l : L) :
    (∀ k, s.outer.call (.inl k) = .stopped .close →
      ∀ s', ListeningRun s s' → Silent s s' l) ∧
    ∀ c, s.closer l c = .returned → (∀ c', s.closer l c' ≠ .abandoned) →
      ∀ s', ListeningRun s s' → Silent s s' l := by
  have hinv := listeningInv_run listeningInv_new h
  constructor
  · intro k hk s' hs
    by_cases hp : (s.pc l).Spawned
    · have hdead := hinv.outer.ended _ hk (.inr l)
      rcases released_of_dead (hinv.place l) hdead with hr | ⟨hn, -⟩
      · exact released_silent hinv hr hs
      · exact (hn hp).elim
    · exact unspawned_silent hinv hs hp (unspawned_run hinv hs hk hp)
  · intro c hc ha s' hs
    rcases hinv.returned l c hc with hr | ⟨c', hc'⟩
    · exact released_silent hinv hr hs
    · exact (ha c' hc').elim

/-- A listener is up when its handle is closed; it is silent when that `close` returns. -/
theorem close_silences_listeners_closed : ∃ s : Listening Unit Unit Unit Unit Unit Unit,
    s.pc () = .released ∧ Silent s s () := by
  have next {s s' : Listening Unit Unit Unit Unit Unit Unit}
      (h : ListeningRun (.new Unit Unit Unit Unit Unit Unit) s) (hs : ListeningStep s () s') :
      ListeningRun (.new Unit Unit Unit Unit Unit Unit) s' := .tail h trivial hs
  have honly : ∀ l' : Unit, l' ≠ () → ∀ c d : ScopeCall, c = d := fun _ hn => absurd rfl hn
  have h := next .refl (.listen (.start (l := ()) rfl))
  have h := next h (.listen (.register (l := ()) rfl (.register (i := .inr ()) rfl) (by trivial)
    fun l' hn => honly l' hn _ _))
  have h := next h (.listen (.register (l := ()) rfl (.lock (i := .inr ()) rfl rfl) (by trivial)
    fun l' hn => honly l' hn _ _))
  have h := next h (.listen (.register (l := ()) rfl (.pass (i := .inr ()) rfl rfl) (by trivial)
    fun l' hn => honly l' hn _ _))
  have h := next h (.listen (.register (l := ()) rfl (.track (i := .inr ()) rfl) (by trivial)
    fun l' hn => honly l' hn _ _))
  have h := next h (.listen (.register (l := ()) rfl (.link (i := .inr ()) rfl) (by trivial)
    fun l' hn => honly l' hn _ _))
  have h := next h (.listen (.register (l := ()) rfl (.registered (i := .inr ()) rfl) (by trivial)
    fun l' hn => honly l' hn _ _))
  have h := next h (.listen (.registered (l := ()) rfl rfl))
  have h := next h (.listen (.begin (l := ()) rfl))
  have h := next h (.listen (.poll (l := ()) rfl rfl))
  have h := next h (.listen (.listen (l := ()) rfl))
  -- the handle is closed
  have h := next h (.outer (@ScopeStep.stop _ _ .close _ (.inl ()) rfl (by decide)) fun _ => rfl)
  have h := next h (.outer (.setClosed (i := .inl ()) rfl rfl) fun _ => rfl)
  have h := next h (.outer (.cancelChild (i := .inl ()) (j := .inr ()) rfl (by trivial))
    fun _ => rfl)
  have h := next h (.outer (.cancelScope (i := .inl ()) rfl (by
    intro j hj
    cases j with
    | inl => exact hj.elim
    | inr => rfl)) fun _ => rfl)
  have h := next h (.outer (.closeTracker (i := .inl ()) rfl) fun _ => rfl)
  -- the task takes the service down
  have h := next h (.listen (.wake (l := ()) rfl rfl))
  have h := next h (.listen (.close (l := ()) rfl rfl))
  have h := next h (.inner (l := ()) (by trivial) (.scope (.setClosed (i := none) rfl rfl)) nofun)
  have h := next h (.inner (l := ()) (by trivial) (.scope (.cancelScope (i := none) rfl (by
    intro j hj
    cases j <;> exact hj.elim))) nofun)
  have h := next h (.inner (l := ()) (by trivial) (.scope (.closeTracker (i := none) rfl)) nofun)
  have h := next h (.inner (l := ()) (by trivial) (.scope (.waited (i := none) rfl rfl (by
    intro j
    cases j <;> exact id))) nofun)
  have h := next h (.listen (.closed (l := ()) rfl rfl))
  have h := next h (.listen (.release (l := ()) rfl))
  have h := next h (.outer (.waited (i := .inl ()) rfl rfl (by
    intro j
    cases j <;> exact id)) fun _ => rfl)
  exact ⟨_, rfl, (close_silences_listeners h ()).1 () rfl _ .refl⟩

end Closes

end Dhttp.Api
