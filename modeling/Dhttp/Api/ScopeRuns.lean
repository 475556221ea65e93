import Dhttp.Api.Scopes

namespace Dhttp.Api
open Dhttp.Lib
set_option autoImplicit true

section Scopes
variable {I : Type} {s s' : Scope I}

theorem ensureOpen_ok (h : s.ensureOpen = .ok ()) : s.closed = false := by
  rw [Scope.ensureOpen] at h
  split at h
  · cases h
  · rename_i hc
    exact Bool.eq_false_iff.2 hc

theorem ensureOpen_error (h : s.ensureOpen = .error e) : e = closedError := by
  rw [Scope.ensureOpen] at h
  split at h
  · cases h
    rfl
  · cases h

theorem ScopeCall.Admitted.holdsLock {c : ScopeCall} (h : c.Admitted) : c.HoldsLock := by
  cases c with
  | passed => trivial
  | tracked => trivial
  | linked => trivial
  | _ => exact h.elim

/-- What a call of `cancel` or `close` has done so far. -/
def ScopeCall.Achieved (s : Scope I) : ScopeCall → Prop
  | .cancelling kind => kind ≠ .drop → s.closed = true
  | .untracking _ | .waiting => s.closed = true ∧ s.cancelled = true
  | .stopped kind => kind ≠ .drop → s.closed = true ∧ s.cancelled = true
  | _ => True

theorem ScopeCall.Achieved.mono {c : ScopeCall} (h : c.Achieved s)
    (hclosed : s.closed = true → s'.closed = true)
    (hcancelled : s.cancelled = true → s'.cancelled = true) : c.Achieved s' := by
  cases c with
  | cancelling kind => exact fun hk => hclosed (h hk)
  | untracking kind => exact ⟨hclosed h.1, hcancelled h.2⟩
  | waiting => exact ⟨hclosed h.1, hcancelled h.2⟩
  | stopped kind => exact fun hk => ⟨hclosed (h hk).1, hcancelled (h hk).2⟩
  | _ => trivial

variable [DecidableEq I]

/-- What holds of a call's new place and held of all calls holds of all again. -/
theorem forall_go {P : ScopeCall → Prop} {call : I → ScopeCall} (i : I) (h : ∀ j, P (call j))
    (hc : P c) : ∀ j, P (Function.update call i c j) := by
  intro j
  by_cases hj : j = i
  · rw [hj, Function.update_self]
    exact hc
  · rw [Function.update_of_ne hj]
    exact h j

/-- The mutex is held by the call that is inside. -/
theorem exclusive_step (h : Exclusive ScopeCall.HoldsLock s.lock s.call) (hs : ScopeStep s s') :
    Exclusive ScopeCall.HoldsLock s'.lock s'.call := by
  have hkeep {i : I} {c d : ScopeCall} (hp : s.call i = c) (hd : d.HoldsLock ↔ c.HoldsLock) :
      Exclusive ScopeCall.HoldsLock s.lock (Function.update s.call i d) := by
    rw [← hp] at hd
    exact h.keep hd
  have hrelease {i : I} {c d : ScopeCall} (hp : s.call i = c) (hc : c.HoldsLock)
      (hd : ¬ d.HoldsLock) : Exclusive ScopeCall.HoldsLock none (Function.update s.call i d) := by
    rw [← hp] at hc
    rw [(h i).1 hc] at h
    exact h.release hd
  cases hs with
  | register hp | pass hp | track hp | link hp | drop hp | stop hp | release hp | waited hp
    | setClosed hp => exact hkeep hp Iff.rfl
  | cancelScope hp | closeTracker hp =>
    apply hkeep hp
    split <;> exact Iff.rfl
  | lock hp hl =>
    rw [hl] at h
    exact h.take _ trivial
  | refuse hp | registered hp => exact hrelease hp trivial id
  | cancelChild | storeError | cancelToken => exact h

/-- Once the flag is set nobody is past the check inside the mutex. -/
theorem shut_step (he : Exclusive ScopeCall.HoldsLock s.lock s.call)
    (h : s.closed = true → ∀ i, ¬ (s.call i).Admitted) (hs : ScopeStep s s') :
    s'.closed = true → ∀ i, ¬ (s'.call i).Admitted := by
  have hgo {i : I} {d : ScopeCall} (hall : ∀ i, ¬ (s.call i).Admitted) (hd : ¬ d.Admitted) :
      ∀ j, ¬ (Function.update s.call i d j).Admitted :=
    forall_go (P := fun c => ¬ c.Admitted) i hall hd
  have habsurd {i : I} {c : ScopeCall} (hc : s.closed = true) (hp : s.call i = c)
      (ha : c.Admitted) : False := by
    rw [← hp] at ha
    exact h hc i ha
  intro hc
  cases hs with
  | register | lock | refuse | registered | drop | stop | release | waited =>
    exact hgo (h hc) id
  | cancelScope | closeTracker =>
    apply hgo (h hc)
    split <;> exact id
  | pass hp ho =>
    have hopen := ensureOpen_ok ho
    rw [Scope.go] at hc
    rw [hc] at hopen
    cases hopen
  | track hp | link hp => exact (habsurd hc hp trivial).elim
  | setClosed hp hl =>
    refine hgo ?_ id
    intro i ha
    rw [hl] at he
    exact he.not_holds i ha.holdsLock
  | cancelChild | storeError | cancelToken => exact h hc

/-- The tokens of the operations are cancelled with the token of the scope, and those made later
are cancelled from the start. -/
def Swept (s : Scope I) : Prop :=
  s.cancelled = true → ∀ i, (s.call i).HasToken → s.operationCancelled i = true

theorem swept_step (h : Swept s) (hs : ScopeStep s s') : Swept s' := by
  have hgo {i : I} {c d : ScopeCall} (hp : s.call i = c) (hd : d.HasToken → c.HasToken)
      (hc : s.cancelled = true) : ∀ j, (Function.update s.call i d j).HasToken →
        s.operationCancelled j = true := by
    intro j hj
    by_cases he : j = i
    · rw [he, Function.update_self] at hj
      rw [he]
      apply h hc
      rw [hp]
      exact hd hj
    · rw [Function.update_of_ne he] at hj
      exact h hc j hj
  have hcancel (i : I) (hc : s.cancelled = true) : ∀ j, (s.call j).HasToken →
      Function.update s.operationCancelled i true j = true := by
    intro j hj
    by_cases he : j = i
    · rw [he, Function.update_self]
    · rw [Function.update_of_ne he]
      exact h hc j hj
  intro hc
  cases hs with
  | register hp | lock hp | refuse hp | pass hp | track hp | registered hp | drop hp | stop hp
    | release hp | setClosed hp | waited hp => exact hgo hp id hc
  | closeTracker hp =>
    apply hgo hp _ hc
    split <;> exact id
  | @link _ i hp =>
    intro j hj
    by_cases he : j = i
    · rw [he]
      exact (Function.update_self ..).trans hc
    · have hother : (s.call j).HasToken := by
        have hj' : (Function.update s.call i .linked j).HasToken := hj
        rw [Function.update_of_ne he] at hj'
        exact hj'
      exact (Function.update_of_ne he ..).trans (h hc j hother)
  | @cancelScope kind _ i hp hall =>
    intro j hj
    by_cases he : j = i
    · have hj' : (Function.update s.call i (if kind = .drop then ScopeCall.stopped kind
          else .untracking kind) j).HasToken := hj
      rw [he, Function.update_self] at hj'
      split at hj' <;> exact hj'.elim
    · have hj' : (Function.update s.call i (if kind = .drop then ScopeCall.stopped kind
          else .untracking kind) j).HasToken := hj
      rw [Function.update_of_ne he] at hj'
      exact hall j hj'
  | cancelChild => exact hcancel _ hc
  | cancelToken => exact hcancel _ hc
  | storeError => exact h hc

theorem closed_step (hs : ScopeStep s s') (h : s.closed = true) : s'.closed = true := by
  cases hs with
  | setClosed => rfl
  | _ => exact h

theorem cancelled_step (hs : ScopeStep s s') (h : s.cancelled = true) : s'.cancelled = true := by
  cases hs with
  | cancelScope => rfl
  | _ => exact h

theorem achieved_step (h : ∀ i, (s.call i).Achieved s) (hs : ScopeStep s s') :
    ∀ i, (s'.call i).Achieved s' := by
  have hold : ∀ i, (s.call i).Achieved s' := by
    intro i
    exact (h i).mono (closed_step hs) (cancelled_step hs)
  have hat {i : I} {c : ScopeCall} (hp : s.call i = c) : c.Achieved s := by
    rw [← hp]
    exact h i
  cases hs with
  | register | lock | refuse | pass | track | link | registered | drop | stop =>
    exact forall_go _ hold trivial
  | release => exact forall_go _ hold fun hk => absurd rfl hk
  | setClosed => exact forall_go _ hold fun _ => rfl
  | cancelScope hp =>
    have hclosed := hat hp
    apply forall_go _ hold
    split
    · rename_i hk
      exact fun hk' => absurd hk hk'
    · rename_i hk
      exact ⟨hclosed hk, rfl⟩
  | closeTracker hp =>
    have hboth := hat hp
    apply forall_go _ hold
    split
    · exact hboth
    · exact fun _ => hboth
  | waited hp =>
    have hboth := hat hp
    exact forall_go _ hold fun _ => hboth
  | cancelChild | storeError | cancelToken => exact hold

/-- What one step does to the place of one call. -/
inductive ScopeCall.Moves : ScopeCall → ScopeCall → Prop
  | register : Moves .idle .registering
  | lock : Moves .registering .locked
  | refuse : Moves .locked (.refused closedError)
  | pass : Moves .locked .passed
  | track : Moves .passed .tracked
  | link : Moves .tracked .linked
  | registered : Moves .linked .registered
  | drop : Moves .registered .dropped
  | stop (kind : StopKind) : Moves .idle (.stopping kind)
  | release : Moves .idle (.cancelling .drop)
  | setClosed : Moves (.stopping kind) (.cancelling kind)
  | cancelled (h : kind ≠ .close) : Moves (.cancelling kind) (.stopped kind)
  | untrack : Moves (.cancelling kind) (.untracking kind)
  | wait : Moves (.untracking kind) .waiting
  | untracked (h : kind ≠ .close) : Moves (.untracking kind) (.stopped kind)
  | waited : Moves .waiting (.stopped .close)

theorem step_moves (hs : ScopeStep s s') (j : I) :
    s'.call j = s.call j ∨ (s.call j).Moves (s'.call j) := by
  have hgo {i : I} {c d : ScopeCall} (hp : s.call i = c) (hm : c.Moves d) :
      Function.update s.call i d j = s.call j ∨
        (s.call j).Moves (Function.update s.call i d j) := by
    by_cases he : j = i
    · rw [he, Function.update_self, hp]
      exact .inr hm
    · rw [Function.update_of_ne he]
      exact .inl rfl
  cases hs with
  | register hp => exact hgo hp .register
  | lock hp => exact hgo hp .lock
  | refuse hp hc =>
    rw [ensureOpen_error hc]
    exact hgo hp .refuse
  | pass hp => exact hgo hp .pass
  | track hp => exact hgo hp .track
  | link hp => exact hgo hp .link
  | registered hp => exact hgo hp .registered
  | drop hp => exact hgo hp .drop
  | stop hp => exact hgo hp (.stop _)
  | release hp => exact hgo hp .release
  | setClosed hp => exact hgo hp .setClosed
  | cancelScope hp =>
    apply hgo hp
    split
    · rename_i hk
      rw [hk]
      exact .cancelled (by decide)
    · exact .untrack
  | closeTracker hp =>
    apply hgo hp
    split
    · exact .wait
    · rename_i hk
      exact .untracked hk
  | waited hp => exact hgo hp .waited
  | cancelChild | storeError | cancelToken => exact .inl rfl

/-- What holds of a call that stays where it is and of one that moves holds of every step. -/
theorem step_moved {R : ScopeCall → ScopeCall → Prop} (hsame : ∀ c, R c c)
    (hmoves : ∀ c d, c.Moves d → R c d) (hs : ScopeStep s s') (i : I) :
    R (s.call i) (s'.call i) := by
  obtain he | hm := step_moves hs i
  · rw [he]
    exact hsame _
  · exact hmoves _ _ hm

theorem refused_step (h : ∀ i e, s.call i = .refused e → e = closedError)
    (hs : ScopeStep s s') : ∀ i e, s'.call i = .refused e → e = closedError := by
  intro i e he
  have hmoved : s.call i = .refused e ∨ e = closedError := by
    apply step_moved (R := fun c d => d = .refused e → c = .refused e ∨ e = closedError)
      (fun _ => .inl) _ hs i he
    intro c d hm hd
    rw [hd] at hm
    cases hm
    exact .inr rfl
  exact hmoved.elim (h i e) id

/-- While nobody is past the check, no operation comes to life. -/
theorem live_step (h : ∀ i, ¬ (s.call i).Admitted) (hs : ScopeStep s s') {i : I}
    (hi : (s'.call i).Live) : (s.call i).Live := by
  apply step_moved (R := fun c d => ¬ c.Admitted → d.Live → c.Live) (fun _ _ => id) _ hs i (h i) hi
  intro c d hm ha hd
  cases hm with
  | registered => trivial
  | track | link => exact absurd trivial ha
  | _ => exact hd.elim

/-- While nobody is past the check, no operation gets a cancellation token. -/
theorem hasToken_step (h : ∀ i, ¬ (s.call i).Admitted) (hs : ScopeStep s s') {i : I}
    (hi : (s'.call i).HasToken) : (s.call i).HasToken := by
  apply step_moved (R := fun c d => ¬ c.Admitted → d.HasToken → c.HasToken) (fun _ _ => id) _ hs i
    (h i) hi
  intro c d hm ha hd
  cases hm with
  | registered | drop => trivial
  | link => exact absurd trivial ha
  | _ => exact hd.elim

/-- A token is never given up. -/
theorem hasToken_kept (hs : ScopeStep s s') {i : I} (hi : (s.call i).HasToken) :
    (s'.call i).HasToken := by
  apply step_moved (R := fun c d => c.HasToken → d.HasToken) (fun _ => id) _ hs i hi
  intro c d hm hc
  cases hm with
  | registered | drop => trivial
  | _ => exact hc.elim

/-- A `close` returns when no operation is alive. -/
theorem waited_step (hs : ScopeStep s s') {i : I} (hi : s'.call i = .stopped .close)
    (hn : s.call i ≠ .stopped .close) : s.call i = .waiting ∧ ∀ j, ¬ (s.call j).Live := by
  have hm : (s.call i).Moves (.stopped .close) := by
    rcases step_moves hs i with hsame | hm
    · exact absurd (hsame.symm.trans hi) hn
    · rw [hi] at hm
      exact hm
  have hw : s.call i = .waiting := by
    generalize s.call i = c at hm
    cases hm with
    | cancelled h | untracked h => exact absurd rfl h
    | waited => rfl
  have hgo {k : I} {c d : ScopeCall} (hp : s.call k = c) (hc : c ≠ .waiting)
      (he : Function.update s.call k d i = .stopped .close) : False := by
    by_cases hk : i = k
    · rw [← hk, hw] at hp
      exact hc hp.symm
    · rw [Function.update_of_ne hk, hw] at he
      cases he
  refine ⟨hw, ?_⟩
  cases hs with
  | waited hp ht hlive => exact hlive
  | register hp | lock hp | refuse hp | pass hp | track hp | link hp | registered hp | drop hp
    | stop hp | release hp | setClosed hp | cancelScope hp | closeTracker hp =>
    exact (hgo hp (fun h => by cases h) hi).elim
  | cancelChild | storeError | cancelToken => exact absurd hi hn

/-- What every state of a scope satisfies. -/
structure ScopeInv (s : Scope I) : Prop where
  exclusive : Exclusive ScopeCall.HoldsLock s.lock s.call
  shut : s.closed = true → ∀ i, ¬ (s.call i).Admitted
  swept : Swept s
  refused : ∀ i e, s.call i = .refused e → e = closedError
  achieved : ∀ i, (s.call i).Achieved s
  ended : ∀ i, s.call i = .stopped .close → ∀ j, ¬ (s.call j).Live

omit [DecidableEq I] in
theorem ScopeInv.ended_shut (h : ScopeInv s) {i : I} (hi : s.call i = .stopped .close) :
    s.closed = true ∧ s.cancelled = true := by
  have hdone := h.achieved i
  rw [hi] at hdone
  exact hdone (by decide)

theorem scopeInv_step (h : ScopeInv s) (hs : ScopeStep s s') : ScopeInv s' where
  exclusive := exclusive_step h.exclusive hs
  shut := shut_step h.exclusive h.shut hs
  swept := swept_step h.swept hs
  refused := refused_step h.refused hs
  achieved := achieved_step h.achieved hs
  ended := by
    intro i hi j hj
    by_cases hn : s.call i = .stopped .close
    · exact h.ended i hn j (live_step (h.shut (h.ended_shut hn).1) hs hj)
    · obtain ⟨hw, hlive⟩ := waited_step hs hi hn
      have hdone := h.achieved i
      rw [hw] at hdone
      exact hlive j (live_step (h.shut hdone.1) hs hj)

omit [DecidableEq I] in
theorem scopeInv_new : ScopeInv (Scope.new I) where
  exclusive _ := iff_of_false id fun h => by cases h
  shut h := by cases h
  swept h := by cases h
  refused _ _ h := by cases h
  achieved _ := trivial
  ended _ h := by cases h

end Scopes

section Systems
variable {I R T : Type}

/-- The operation whose state a run is using. -/
def RunPc.operation? : RunPc I T → Option I
  | .between i | .polling i | .failing i => some i
  | .unstarted | .done _ => none

/-- `later` has not polled its future since `run`, and no result but an error has come of a poll
since. -/
def Settled (run later : OperationRun I T) : Prop :=
  later.polls = run.polls ∧ ((∀ i, run.pc ≠ .polling i) →
    (∀ i, later.pc ≠ .polling i) ∧
      ∀ result, later.pc = .done result → run.pc = .done result ∨ ∃ e, result = .error e)

theorem Settled.refl (run : OperationRun I T) : Settled run run :=
  ⟨rfl, fun h => ⟨h, fun _ hr => .inl hr⟩⟩

/-- A run that uses a cancelled token does not poll its future. -/
theorem settled_step {s : Scope I} {run later next : OperationRun I T}
    (ht : ∀ j, later.pc.operation? = some j → s.operationCancelled j = true)
    (h : Settled run later) (hs : RunStep s later next) : Settled run next := by
  obtain ⟨hpolls, hpc⟩ := h
  cases hs with
  | start =>
    refine ⟨hpolls, fun hn => ⟨fun i hi => ?_, fun result hr => ?_⟩⟩
    · cases hi
    · cases hr
  | cancelled =>
    refine ⟨hpolls, fun hn => ⟨fun i hi => ?_, fun result hr => ?_⟩⟩
    · cases hi
    · cases hr
  | fails =>
    refine ⟨hpolls, fun hn => ⟨fun i hi => ?_, fun result hr => ?_⟩⟩
    · cases hi
    · cases hr
      exact .inr ⟨_, rfl⟩
  | poll hc =>
    have hcancelled := ht _ rfl
    rw [Scope.state] at hc
    rw [hcancelled] at hc
    cases hc
  | pending =>
    refine ⟨hpolls, fun hn => ⟨fun i hi => ?_, fun result hr => ?_⟩⟩
    · cases hi
    · cases hr
  | ready =>
    refine ⟨hpolls, fun hn => ?_⟩
    exact absurd rfl ((hpc hn).1 _)

variable [DecidableEq I] [DecidableEq R] {s s' : ScopeSystem I R T}

structure SystemInv (s : ScopeSystem I R T) : Prop where
  scope : ScopeInv s.scope
  owned : ∀ r j, (s.run r).pc.operation? = some j → (s.scope.call j).HasToken

omit [DecidableEq I] in
theorem run_operation {s : Scope I} {run run' : OperationRun I T} (hs : RunStep s run run')
    (hj : run'.pc.operation? = some j) :
    run.pc.operation? = some j ∨ (s.call j).HasToken := by
  cases hs with
  | start ht =>
    cases hj
    exact .inr ht
  | fails | ready => cases hj
  | cancelled | poll | pending => exact .inl hj

theorem systemInv_step (h : SystemInv s) (hs : SystemStep s () s') : SystemInv s' := by
  cases hs with
  | scope hs =>
    exact ⟨scopeInv_step h.scope hs, fun r j hj => hasToken_kept hs (h.owned r j hj)⟩
  | run r hs =>
    refine ⟨h.scope, ?_⟩
    intro q j hj
    by_cases hq : q = r
    · rw [hq] at hj
      have hj' : (Function.update s.run r _ r).pc.operation? = some j := hj
      rw [Function.update_self] at hj'
      rcases run_operation hs hj' with hown | ht
      · exact h.owned r j hown
      · exact ht
    · have hj' : (Function.update s.run r _ q).pc.operation? = some j := hj
      rw [Function.update_of_ne hq] at hj'
      exact h.owned q j hj'

abbrev SystemRun (s s' : ScopeSystem I R T) : Prop := Reaches SystemStep (fun _ _ => True) s s'

theorem systemInv_run (h : SystemInv s) (hs : SystemRun s s') : SystemInv s' :=
  hs.invariant h fun _ _ _ h _ hs => systemInv_step h hs

/-- A closed scope stays closed, and admits no further operation. -/
theorem closed_run (h : SystemInv s) (hc : s.scope.closed = true) (hs : SystemRun s s') :
    s'.scope.closed = true ∧ ∀ i, (s'.scope.call i).HasToken → (s.scope.call i).HasToken := by
  induction hs with
  | refl => exact ⟨hc, fun _ => id⟩
  | tail hrun _ hstep ih =>
    obtain ⟨hclosed, htoken⟩ := ih
    have hinv := systemInv_run h hrun
    cases hstep with
    | scope hs =>
      refine ⟨closed_step hs hclosed, ?_⟩
      intro i hi
      exact htoken i (hasToken_step (hinv.scope.shut hclosed) hs hi)
    | run r hs => exact ⟨hclosed, htoken⟩

theorem ended_run (hs : SystemRun s s') (hi : s.scope.call i = .stopped .close) :
    s'.scope.call i = .stopped .close := by
  induction hs with
  | refl => exact hi
  | tail _ _ hstep ih =>
    cases hstep with
    | scope hs =>
      rcases step_moves hs i with hsame | hm
      · exact hsame.trans ih
      · rw [ih] at hm
        cases hm
    | run r hs => exact ih

/-- From the cancellation of the scope's token on no run polls its future again. -/
theorem cancelled_run (h : SystemInv s) (hc : s.scope.cancelled = true) (hs : SystemRun s s') :
    s'.scope.cancelled = true ∧ ∀ r, Settled (s.run r) (s'.run r) := by
  induction hs with
  | refl => exact ⟨hc, fun r => .refl _⟩
  | tail hrun _ hstep ih =>
    obtain ⟨hcancelled, hsettled⟩ := ih
    have hinv := systemInv_run h hrun
    cases hstep with
    | scope hs => exact ⟨cancelled_step hs hcancelled, hsettled⟩
    | run r hs =>
      refine ⟨hcancelled, ?_⟩
      intro q
      simp only
      by_cases hq : q = r
      · rw [hq]
        have hnext := settled_step
          (fun j hj => hinv.scope.swept hcancelled j (hinv.owned r j hj)) (hsettled r) hs
        rw [Function.update_self]
        exact hnext
      · rw [Function.update_of_ne hq]
        exact hsettled q

theorem systemInv_reached (h : SystemRun (scopeSystem I R T) s) : SystemInv s := by
  refine systemInv_run ⟨scopeInv_new, ?_⟩ h
  intro r j hj
  cases hj

/-- After a `close` nothing of the scope is left running, and once its token is cancelled a poll
of a run returns an error without polling the future. -/
theorem close_leaves_nothing (h : SystemRun (scopeSystem I R T) s) :
    (∀ c, s.scope.call c = .stopped .close →
      (∀ i, (s.scope.call i).HasToken → s.scope.operationCancelled i = true) ∧
      ∀ s', SystemRun s s' →
        (∀ i, ¬ (s'.scope.call i).Live) ∧
        s'.scope.ensureOpen = .error closedError ∧
        (∀ i, (s'.scope.call i).HasToken → (s.scope.call i).HasToken) ∧
        ∀ i e, s'.scope.call i = .refused e → e.code = .closed) ∧
    (s.scope.cancelled = true →
      (∀ s', SystemRun s s' → ∀ r, Settled (s.run r) (s'.run r)) ∧
      ∀ r j run, (s.run r).pc = .between j → RunStep s.scope (s.run r) run →
        run = ⟨.failing j, (s.run r).polls⟩) := by
  have hinv := systemInv_reached h
  constructor
  · intro c hc
    obtain ⟨hclosed, hcancelled⟩ := hinv.scope.ended_shut hc
    refine ⟨hinv.scope.swept hcancelled, ?_⟩
    intro s' hs
    have hinv' := systemInv_run hinv hs
    obtain ⟨hclosed', htoken⟩ := closed_run hinv hclosed hs
    refine ⟨hinv'.scope.ended c (ended_run hs hc), ?_, htoken, ?_⟩
    · rw [Scope.ensureOpen, hclosed']
      rfl
    · intro i e he
      rw [hinv'.scope.refused i e he]
      rfl
  · intro hcancelled
    refine ⟨fun s' hs => (cancelled_run hinv hcancelled hs).2, ?_⟩
    intro r j run hpc hs
    have ht := hinv.scope.swept hcancelled j (hinv.owned r j (by rw [hpc]; rfl))
    generalize s.run r = before at hpc hs
    cases hs with
    | cancelled =>
      cases hpc
      rfl
    | poll hc =>
      cases hpc
      rw [Scope.state] at hc
      rw [ht] at hc
      cases hc
    | _ => cases hpc

/-- An operation is registered, the scope is closed, and the operation is dropped. -/
theorem closed_reached : ∃ s : ScopeSystem Bool Unit Unit,
    SystemRun (scopeSystem Bool Unit Unit) s ∧ s.scope.call true = .stopped .close ∧
      s.scope.call false = .dropped := by
  have next {s : ScopeSystem Bool Unit Unit} {scope : Scope Bool}
      (h : SystemRun (scopeSystem Bool Unit Unit) s) (hs : ScopeStep s.scope scope) :
      SystemRun (scopeSystem Bool Unit Unit) { s with scope := scope } :=
    .tail h trivial (.scope hs)
  have h := next (next (next (next (next .refl
    (.register (i := false) rfl)) (.lock (i := false) rfl rfl)) (.pass (i := false) rfl rfl))
    (.track (i := false) rfl)) (.link (i := false) rfl)
  have h := next (next (next h
    (.registered (i := false) rfl)) (@ScopeStep.stop _ _ .close _ true rfl (by decide)))
    (.setClosed (i := true) rfl rfl)
  have h := next (next (next h
    (.cancelChild (i := true) (j := false) rfl trivial)) (.cancelScope (i := true) rfl (by
      intro j hj
      cases j with
      | false => rfl
      | true => exact hj.elim))) (.closeTracker (i := true) rfl)
  have h := next (next h (.drop (i := false) rfl)) (.waited (i := true) rfl rfl (by
    intro j
    cases j <;> exact id))
  exact ⟨_, h, rfl, rfl⟩

theorem close_leaves_nothing_dropped : ∃ s : ScopeSystem Bool Unit Unit,
    s.scope.call false = .dropped ∧ s.scope.operationCancelled false = true := by
  obtain ⟨s, h, hclose, hdropped⟩ := closed_reached
  refine ⟨s, hdropped, ((close_leaves_nothing h).1 true hclose).1 false ?_⟩
  rw [hdropped]
  trivial

end Systems

end Dhttp.Api
