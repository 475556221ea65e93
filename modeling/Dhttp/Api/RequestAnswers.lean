import Dhttp.Api.RequestRuns
import Dhttp.Api.BridgeDelivery

namespace Dhttp.Api
open Dhttp.Lib
set_option autoImplicit true

namespace OperationState

/-- Nothing that an operation was stopped with is taken back. -/
structure Onward (state state' : OperationState) : Prop where
  firstError : ∀ e, state.firstError = some e → state'.firstError = some e
  owner : state.ownerCancelled = true → state'.ownerCancelled = true
  cancelled : state.cancelled = true → state'.cancelled = true

theorem onward_refl (state : OperationState) : state.Onward state :=
  ⟨fun _ => id, id, id⟩

theorem onward_store (state : OperationState) (error : Error) :
    state.Onward (state.store error) := by
  refine ⟨?_, id, id⟩
  intro e he
  rw [store, he]
  rfl

theorem onward_cancel (state : OperationState) : state.Onward state.cancel :=
  ⟨fun _ => id, id, fun _ => rfl⟩

theorem onward_cancelOwner (state : OperationState) : state.Onward state.cancelOwner :=
  ⟨fun _ => id, fun _ => rfl, fun _ => rfl⟩

theorem onward_fail (state : OperationState) (error : Error) :
    state.Onward (state.fail error) :=
  ⟨(state.onward_store error).firstError, id, fun _ => rfl⟩

end OperationState

section Answers
variable {R : Type} {s s' : ClientRequest R}

/-- An error that stopped the request: its exchange failed with it, or it was the first one that a
holder of the operation failed it with, or the owner was closed. -/
def Blamed (s : ClientRequest R) (error : Error) : Prop :=
  s.outcome = some (.error error) ∨ s.state.firstError = some error ∨
    error = closedError ∧ s.state.ownerCancelled = true

/-- The answer is what happened. -/
def Explained (s : ClientRequest R) : Except Error R → Prop
  | .ok response => s.received = some response
  | .error error => Blamed s error ∧ s.state.cancelled = true

/-- What happened before has still happened. -/
structure Later (s s' : ClientRequest R) : Prop where
  state : s.state.Onward s'.state
  outcome : s.outcome = none ∨ s'.outcome = s.outcome
  received : s.received = none ∨ s'.received = s.received
  dropped : s.task = .dropped → s'.task = .dropped

theorem Blamed.later (h : Blamed s e) (hl : Later s s') : Blamed s' e := by
  rcases h with h | h | ⟨he, h⟩
  · rcases hl.outcome with ho | ho
    · rw [h] at ho
      cases ho
    · left
      rw [ho]
      exact h
  · exact .inr (.inl (hl.state.firstError e h))
  · exact .inr (.inr ⟨he, hl.state.owner h⟩)

theorem Explained.later (h : Explained s result) (hl : Later s s') : Explained s' result := by
  cases result with
  | error e => exact ⟨h.1.later hl, hl.state.cancelled h.2⟩
  | ok response =>
    rcases hl.received with hr | hr
    · have hsome : s.received = some response := h
      rw [hr] at hsome
      cases hsome
    · change s'.received = some response
      rw [hr]
      exact h

/-- What is known where the task is. -/
def RequestPc.Holds (s : ClientRequest R) : RequestPc → Prop
  | running .connecting _ | running (.running _ .awaiting) _ =>
    s.sender = true ∧ s.received = none ∧ s.outcome = none
  | running (.running _ .reading) _ =>
    s.sender = false ∧ s.received ≠ none ∧ s.outcome = none
  | running (.running _ .done) _ =>
    s.sender = false ∧ s.received ≠ none ∧ s.outcome = none ∧ s.read = true
  | interrupted => s.outcome = none ∧ s.state.cancelled = true
  | settled (.ok _) => s.sender = false
  | settled (.error e) => Blamed s e
  | failing e => Blamed s e ∧ s.state.firstError ≠ none
  | answering e => Blamed s e ∧ s.state.cancelled = true
  | releasing | ended | dropped => s.sender = false

/-- What is known where the response future is. -/
def FuturePc.Holds (s : ClientRequest R) : FuturePc R → Prop
  | waiting => True
  | resolved result => Explained s result ∨
    s.task = .dropped ∧ ∃ e, result = .error e ∧ (Blamed s e ∨ e = .ofCancelled)
  | dropping => s.state.firstError ≠ none
  | closing | dropped => s.state.cancelled = true

theorem firstError_later (hl : Later s s') (h : s.state.firstError ≠ none) :
    s'.state.firstError ≠ none := by
  obtain ⟨e, he⟩ := Option.ne_none_iff_exists'.1 h
  rw [hl.state.firstError e he]
  nofun

theorem FuturePc.Holds.later {future : FuturePc R} (h : future.Holds s) (hl : Later s s') :
    future.Holds s' := by
  cases future with
  | waiting => trivial
  | resolved result =>
    rcases h with h | ⟨hd, e, hr, he⟩
    · exact .inl (h.later hl)
    · refine .inr ⟨hl.dropped hd, e, hr, ?_⟩
      exact he.imp_left fun hb => hb.later hl
  | dropping => exact firstError_later hl h
  | closing => exact hl.state.cancelled h
  | dropped => exact hl.state.cancelled h

/-- Steps of others leave the task what it knows. -/
theorem RequestPc.Holds.later {task : RequestPc} (h : task.Holds s) (hl : Later s s')
    (hs : s'.sender = s.sender) (hr : s'.received = s.received) (ho : s'.outcome = s.outcome)
    (hread : s'.read = s.read) : task.Holds s' := by
  cases task with
  | running exchange polled =>
    cases exchange with
    | connecting =>
      rw [Holds, hs, hr, ho]
      exact h
    | running pump receive =>
      cases receive with
      | awaiting =>
        rw [Holds, hs, hr, ho]
        exact h
      | reading =>
        rw [Holds, hs, hr, ho]
        exact h
      | done =>
        rw [Holds, hs, hr, ho, hread]
        exact h
  | interrupted =>
    rw [Holds, ho]
    exact ⟨h.1, hl.state.cancelled h.2⟩
  | settled result =>
    cases result with
    | ok =>
      rw [Holds, hs]
      exact h
    | error e => exact Blamed.later h hl
  | failing e => exact ⟨h.1.later hl, firstError_later hl h.2⟩
  | answering e => exact ⟨h.1.later hl, hl.state.cancelled h.2⟩
  | releasing | ended | dropped =>
    rw [Holds, hs]
    exact h

/-- What is kept about the answer of a request all along. -/
structure Answering (s : ClientRequest R) : Prop where
  task : s.task.Holds s
  future : s.future.Holds s
  unsent : s.sender = true → s.message = none
  lost : s.sender = false → s.message = none → s.task = .dropped ∨ s.future = .dropped
  message : ∀ result, s.message = some result → Explained s result
  cancelled : s.state.cancelled = true →
    s.state.firstError ≠ none ∨ s.state.ownerCancelled = true

/-- The channel is as it was. -/
structure SameChannel (s s' : ClientRequest R) : Prop where
  sender : s'.sender = s.sender
  message : s'.message = s.message
  future : s'.future = s.future

/-- The task goes on without using the channel. -/
theorem answering_task (h : Answering s) (hl : Later s s') (hc : SameChannel s s')
    (ht : s'.task.Holds s')
    (hs : s'.state.cancelled = true →
      s'.state.firstError ≠ none ∨ s'.state.ownerCancelled = true) : Answering s' := by
  refine ⟨ht, ?_, ?_, ?_, ?_, hs⟩
  · rw [hc.future]
    exact h.future.later hl
  · rw [hc.sender, hc.message]
    exact h.unsent
  · rw [hc.sender, hc.message, hc.future]
    exact fun hsender hmessage => (h.lost hsender hmessage).imp_left hl.dropped
  · rw [hc.message]
    exact fun result hm => (h.message result hm).later hl

theorem error_blamed (h : Answering s) (hc : s.state.cancelled = true) :
    Blamed s s.state.error := by
  rw [OperationState.error]
  cases he : s.state.firstError with
  | some e => exact .inr (.inl he)
  | none =>
    have ho : s.state.ownerCancelled = true := (h.cancelled hc).resolve_left fun hn => hn he
    rw [Option.getD_none, if_pos ho]
    exact .inr (.inr ⟨rfl, ho⟩)

theorem running_outcome (h : (RequestPc.running exchange polled).Holds s) :
    s.outcome = none := by
  cases exchange with
  | connecting => exact h.2.2
  | running pump receive =>
    cases receive with
    | awaiting => exact h.2.2
    | reading => exact h.2.2
    | done => exact h.2.2.1

theorem running_polled (h : (RequestPc.running exchange polled).Holds s) :
    (RequestPc.running exchange polled').Holds s := by
  cases exchange with
  | connecting => exact h
  | running pump receive =>
    cases receive with
    | awaiting => exact h
    | reading => exact h
    | done => exact h

theorem running_pump (h : (RequestPc.running (.running p r) polled).Holds s) :
    (RequestPc.running (.running p' r) polled).Holds s := by
  cases r with
  | awaiting => exact h
  | reading => exact h
  | done => exact h

/-- The exchange ends by itself with an error. -/
theorem answering_settle (h : Answering s) (ho : s.outcome = none) (hc : SameChannel s s')
    (hr : s'.received = s.received) (hstate : s.state.Onward s'.state)
    (hfirst : s'.state.cancelled = true →
      s'.state.firstError ≠ none ∨ s'.state.ownerCancelled = true) (hd : s.task ≠ .dropped) :
    Answering (s'.settle (.error error)) := by
  have hlater : Later s (s'.settle (.error error)) :=
    ⟨hstate, .inl ho, .inr hr, fun ht => (hd ht).elim⟩
  exact answering_task h hlater ⟨hc.sender, hc.message, hc.future⟩ (.inl rfl) hfirst

/-- The task goes to a place whose knowledge it has. -/
theorem answering_go (h : Answering s) (hd : s.task ≠ .dropped) (ht : task.Holds s) :
    Answering (s.go task) := by
  have hlater : Later s (s.go task) :=
    ⟨s.state.onward_refl, .inr rfl, .inr rfl, fun ht => (hd ht).elim⟩
  exact answering_task h hlater ⟨rfl, rfl, rfl⟩ (ht.later hlater rfl rfl rfl rfl) h.cancelled

/-- The headers are here: the response is sent, and the task has no sender any more. -/
theorem answering_headers (h : Answering s)
    (ht : s.task = .running (.running pump .awaiting) b) :
    Answering ({ s with
      sender := false
      message := some (.ok response)
      received := some response }.go (.running (.running pump .reading) b)) := by
  have hholds := h.task
  rw [ht] at hholds
  obtain ⟨hsender, hreceived, houtcome⟩ := hholds
  have hd : s.task ≠ .dropped := by
    rw [ht]
    nofun
  refine ⟨⟨rfl, nofun, houtcome⟩, ?_, nofun, nofun, ?_, h.cancelled⟩
  · apply h.future.later
    exact ⟨s.state.onward_refl, .inr rfl, .inl hreceived, fun ht => (hd ht).elim⟩
  · intro result hm
    cases hm
    rfl

/-- The headers are here and nobody waits for them. -/
theorem answering_unwanted (h : Answering s) (ht : s.task = .running (.running pump .awaiting) b)
    (hf : s.future = .dropped) :
    Answering ({ s with
      sender := false
      state := s.state.fail .ofCancelled
      received := some response }.hangUp.settle (.error .ofCancelled)) := by
  have hholds := h.task
  rw [ht] at hholds
  obtain ⟨hsender, hreceived, houtcome⟩ := hholds
  refine ⟨.inl rfl, ?_, nofun, fun _ _ => .inr hf, ?_, fun _ => .inl nofun⟩
  · change s.future.Holds _
    rw [hf]
    rfl
  · intro result hm
    have hnone := h.unsent hsender
    change s.message = some result at hm
    rw [hnone] at hm
    cases hm

theorem answering_running (h : Answering s) (hs : RequestTaskStep body timed s s')
    (ht : s.task = .running exchange polled) : Answering s' := by
  have hholds := h.task
  rw [ht] at hholds
  have ho := running_outcome hholds
  have hd : s.task ≠ .dropped := by
    rw [ht]
    nofun
  have hsettle {s' : ClientRequest R} {error : Error} (hc : SameChannel s s')
      (hr : s'.received = s.received) (hstate : s'.state = s.state) :
      Answering (s'.settle (.error error)) := by
    apply answering_settle h ho hc hr _ _ hd
    · rw [hstate]
      exact s.state.onward_refl
    · rw [hstate]
      exact h.cancelled
  have hplace {exchange' : ExchangePc} {b : Bool} (ht' : s.task = .running exchange' b) :
      (RequestPc.running exchange' b).Holds s := by
    rw [← ht']
    exact h.task
  cases hs with
  | poll ht' | pend ht' => exact answering_go h hd (running_polled (hplace ht'))
  | interrupt ht' hc =>
    exact answering_task h
      ⟨s.state.onward_refl, .inr rfl, .inr rfl, fun ht => (hd ht).elim⟩ ⟨rfl, rfl, rfl⟩
      ⟨ho, hc⟩ h.cancelled
  | connect ht' =>
    have hnew := hplace ht'
    exact answering_task h
      ⟨s.state.onward_refl, .inr rfl, .inr rfl, fun ht => (hd ht).elim⟩ ⟨rfl, rfl, rfl⟩
      hnew h.cancelled
  | connectFails | deadline => exact hsettle ⟨rfl, rfl, rfl⟩ rfl rfl
  | @pump p r p' _ after ht' hp =>
    obtain ⟨hstate, hsender, hmessage, hfuture, -, hreceived, hread, houtcome⟩ :=
      pumpStep_task hp
    have hlater : Later s (after.go (.running (.running p' r) true)) := by
      refine ⟨?_, .inr houtcome, .inr hreceived, fun ht => (hd ht).elim⟩
      change s.state.Onward after.state
      rw [hstate]
      exact s.state.onward_refl
    have hnew : (RequestPc.running (.running p' r) true).Holds s := running_pump (hplace ht')
    refine answering_task h hlater ⟨hsender, hmessage, hfuture⟩
      (hnew.later hlater hsender hreceived houtcome hread) ?_
    rw [ClientRequest.go, hstate]
    exact h.cancelled
  | pumpFails ht' hp =>
    rw [pumpStep_error hp]
    exact hsettle ⟨rfl, rfl, rfl⟩ rfl rfl
  | receive ht' hr =>
    cases hr with
    | headers response hf hs => exact answering_headers h ht'
    | read =>
      obtain ⟨hsender, hreceived, houtcome⟩ := hplace ht'
      exact answering_task h
        ⟨s.state.onward_refl, .inr rfl, .inr rfl, fun ht => (hd ht).elim⟩ ⟨rfl, rfl, rfl⟩
        ⟨hsender, hreceived, houtcome, rfl⟩ h.cancelled
  | receiveFails ht' hr =>
    cases hr with
    | unwanted response hf hs => exact answering_unwanted h ht' hf
    | responseFails => exact hsettle ⟨rfl, rfl, rfl⟩ rfl rfl
    | readFails =>
      exact answering_settle h ho ⟨rfl, rfl, rfl⟩ rfl (s.state.onward_fail _)
        (fun _ => .inl nofun) hd
  | complete ht' =>
    obtain ⟨hsender, -, -, -⟩ := hplace ht'
    exact answering_task h
      ⟨s.state.onward_refl, .inl ho, .inr rfl, fun ht => (hd ht).elim⟩ ⟨rfl, rfl, rfl⟩
      hsender h.cancelled
  | readError ht' | store ht' | cancel ht' | answer ht' | succeed ht' | release ht' =>
    rw [ht] at ht'
    cases ht'

/-- The exchange is over: the error is kept, the token cancelled, the answer sent. -/
theorem answering_ending (h : Answering s) (hs : RequestTaskStep body timed s s')
    (ht : ¬ s.task.IsRunning) : Answering s' := by
  have hholds := h.task
  have hrunning {exchange : ExchangePc} {b : Bool} (h' : s.task = .running exchange b) : False := by
    rw [h'] at ht
    exact ht trivial
  have hlater (task : RequestPc) {state : OperationState} (hd : s.task ≠ .dropped)
      (hstate : s.state.Onward state) : Later s { s.go task with state := state } :=
    ⟨hstate, .inr rfl, .inr rfl, fun ht => (hd ht).elim⟩
  cases hs with
  | poll h' | pend h' | interrupt h' | connect h' | connectFails h' | pump h' | pumpFails h'
    | receive h' | receiveFails h' | complete h' | deadline _ h' => exact (hrunning h').elim
  | readError h' =>
    rw [h'] at hholds
    exact answering_go h (by rw [h']; nofun) (error_blamed h hholds.2)
  | @store error _ h' =>
    rw [h'] at hholds
    have hblamed : Blamed s error := hholds
    have hl := hlater (.failing error) (by rw [h']; nofun) (s.state.onward_store error)
    exact answering_task h hl ⟨rfl, rfl, rfl⟩ ⟨hblamed.later hl, nofun⟩ fun _ => .inl nofun
  | @cancel error _ h' =>
    rw [h'] at hholds
    obtain ⟨hblamed, hfirst⟩ := hholds
    have hl := hlater (.answering error) (by rw [h']; nofun) s.state.onward_cancel
    exact answering_task h hl ⟨rfl, rfl, rfl⟩ ⟨hblamed.later hl, rfl⟩ fun _ => .inl hfirst
  | @answer error _ h' =>
    rw [h'] at hholds
    obtain ⟨hblamed, hcancelled⟩ := hholds
    have hd : s.task ≠ .dropped := by
      rw [h']
      nofun
    have hl : Later s { s.go .releasing with
        sender := false
        message := if s.sender then some (.error error) else s.message } :=
      ⟨s.state.onward_refl, .inr rfl, .inr rfl, fun ht => (hd ht).elim⟩
    refine ⟨rfl, h.future.later hl, nofun, ?_, ?_, h.cancelled⟩
    · intro _ hm
      by_cases hsender : s.sender = true
      · rw [if_pos hsender] at hm
        cases hm
      · rw [if_neg hsender] at hm
        have hlost := h.lost (Bool.eq_false_iff.2 hsender) hm
        exact .inr (hlost.resolve_left hd)
    · intro result hm
      by_cases hsender : s.sender = true
      · rw [if_pos hsender] at hm
        cases hm
        exact ⟨hblamed.later hl, hcancelled⟩
      · rw [if_neg hsender] at hm
        exact (h.message result hm).later hl
  | succeed h' =>
    rw [h'] at hholds
    exact answering_go h (by rw [h']; nofun) hholds
  | release h' =>
    rw [h'] at hholds
    have hd : s.task ≠ .dropped := by
      rw [h']
      nofun
    exact answering_task h
      ⟨s.state.onward_refl, .inr rfl, .inr rfl, fun ht => (hd ht).elim⟩
      ⟨Eq.symm hholds, rfl, rfl⟩ rfl h.cancelled

theorem answering_future {future : FuturePc R} (h : Answering s)
    (hstate : s.state.Onward state) (hd : s.future ≠ .dropped)
    (hf : future.Holds { s with future := future, state := state })
    (hc : state.cancelled = true → state.firstError ≠ none ∨ state.ownerCancelled = true) :
    Answering { s with future := future, state := state } := by
  have hl : Later s { s with future := future, state := state } :=
    ⟨hstate, .inr rfl, .inr rfl, id⟩
  refine ⟨h.task.later hl rfl rfl rfl rfl, hf, h.unsent, ?_, ?_, hc⟩
  · intro hs hm
    exact .inl ((h.lost hs hm).resolve_right hd)
  · exact fun result hm => (h.message result hm).later hl

/-- Somebody else stops the operation. -/
theorem answering_state (h : Answering s) (hstate : s.state.Onward state)
    (hc : state.cancelled = true → state.firstError ≠ none ∨ state.ownerCancelled = true) :
    Answering { s with state := state } := by
  have hl : Later s { s with state := state } := ⟨hstate, .inr rfl, .inr rfl, id⟩
  exact answering_task h hl ⟨rfl, rfl, rfl⟩ (h.task.later hl rfl rfl rfl rfl) hc

theorem error_cases (s : ClientRequest R) :
    Blamed s s.state.error ∨ s.state.error = .ofCancelled := by
  rw [OperationState.error]
  cases he : s.state.firstError with
  | some e => exact .inl (.inr (.inl he))
  | none =>
    rw [Option.getD_none]
    split
    · rename_i ho
      exact .inl (.inr (.inr ⟨rfl, ho⟩))
    · exact .inr rfl

theorem answering_owner (h : Answering s) (hs : RequestOwnerStep s s') : Answering s' := by
  have hrefl := s.state.onward_refl
  cases hs with
  | resolve hf hm =>
    have hexplained := h.message _ hm
    refine answering_future h hrefl (by rw [hf]; nofun) ?_ h.cancelled
    exact .inl (hexplained.later ⟨hrefl, .inr rfl, .inr rfl, id⟩)
  | lost hf hm hs =>
    refine answering_future h hrefl (by rw [hf]; nofun) ?_ h.cancelled
    have hd : s.task = .dropped := (h.lost hs hm).resolve_right (by rw [hf]; nofun)
    refine .inr ⟨hd, _, rfl, ?_⟩
    exact (error_cases s).imp_left fun hb => hb.later ⟨hrefl, .inr rfl, .inr rfl, id⟩
  | drop hf =>
    exact answering_future h (s.state.onward_store _) (by rw [hf]; nofun) nofun
      fun _ => .inl nofun
  | cancelDropped hf =>
    have hfirst := h.future
    rw [hf] at hfirst
    exact answering_future h s.state.onward_cancel (by rw [hf]; nofun) rfl fun _ => .inl hfirst
  | closeDropped hf =>
    have hcancelled := h.future
    rw [hf] at hcancelled
    exact answering_future h hrefl (by rw [hf]; nofun) hcancelled h.cancelled
  | storeError => exact answering_state h (s.state.onward_store _) fun _ => .inl nofun
  | cancelToken hs => exact answering_state h s.state.onward_cancel fun _ => .inl hs
  | cancelOwner => exact answering_state h s.state.onward_cancelOwner fun _ => .inr rfl
  | uploadEnds hu =>
    have hl : Later s { s with upload := .finished } := ⟨hrefl, .inr rfl, .inr rfl, id⟩
    exact answering_task h hl ⟨rfl, rfl, rfl⟩ (h.task.later hl rfl rfl rfl rfl) h.cancelled
  | dropTask ht =>
    have hl : Later s { s.hangUp.go .dropped with sender := false } :=
      ⟨hrefl, .inr rfl, .inr rfl, fun _ => rfl⟩
    exact ⟨rfl, h.future.later hl, nofun, fun _ _ => .inl rfl,
      fun result hm => (h.message result hm).later hl, h.cancelled⟩

/-- A request that succeeded was uploaded and answered to the end. -/
def Completed (s : ClientRequest R) : Prop :=
  s.outcome = some (.ok ()) →
    s.eof = true ∧ s.upload = .finished ∧ s.received ≠ none ∧ s.read = true

theorem completed_task (hu : Uploading body initial s) (ha : Answering s) (h : Completed s)
    (hs : RequestTaskStep body timed s s') : Completed s' := by
  have hrunning {exchange : ExchangePc} {b : Bool} {outcome : Option (Except Error Unit)}
      (ht : s.task = .running exchange b) (ho : outcome = s.outcome) :
      outcome ≠ some (.ok ()) := by
    have hholds := ha.task
    rw [ht] at hholds
    rw [ho, running_outcome hholds]
    nofun
  cases hs with
  | poll ht | pend ht | interrupt ht | connect ht =>
    exact fun ho => (hrunning ht rfl ho).elim
  | connectFails | pumpFails | receiveFails | deadline => nofun
  | pump ht hp =>
    obtain ⟨-, -, -, -, -, -, -, houtcome⟩ := pumpStep_task hp
    exact fun ho => (hrunning ht houtcome ho).elim
  | receive ht hr => cases hr <;> exact fun ho => (hrunning ht rfl ho).elim
  | complete ht =>
    intro _
    have hdone := hu.pumping .done (by rw [ht]; rfl)
    have hholds := ha.task
    rw [ht] at hholds
    exact ⟨hdone.eof.2 trivial, hdone.finished rfl, hholds.2.1, hholds.2.2.2⟩
  | readError | store | cancel | answer | succeed | release => exact h

theorem completed_owner (h : Completed s) (hs : RequestOwnerStep s s') : Completed s' := by
  cases hs with
  | uploadEnds hu => exact fun ho => ⟨(h ho).1, rfl, (h ho).2.2⟩
  | dropTask =>
    intro ho
    obtain ⟨heof, hupload, hrest⟩ := h ho
    refine ⟨heof, ?_, hrest⟩
    change s.hangUp.upload = .finished
    rw [ClientRequest.hangUp, hupload]
    rfl
  | _ => exact h

structure RequestInv (body : Option (Nat → PollFrame)) (initial : HeaderMap)
    (s : ClientRequest R) : Prop where
  uploading : Uploading body initial s
  answering : Answering s
  completed : Completed s

theorem requestInv_start : RequestInv body initial (clientRequest R initial) where
  uploading := ⟨List.nil_prefix, nofun, nofun, fun _ => ⟨rfl, rfl, rfl, rfl, rfl⟩, nofun⟩
  answering := ⟨⟨rfl, rfl, rfl⟩, trivial, fun _ => rfl, nofun, nofun, nofun⟩
  completed := nofun

theorem requestInv_step (h : RequestInv body initial s) (hs : RequestStep body timed s e s') :
    RequestInv body initial s' := by
  obtain ⟨hu, ha, hc⟩ := h
  cases hs with
  | task hs =>
    refine ⟨uploading_task hu hs, ?_, completed_task hu ha hc hs⟩
    by_cases ht : s.task.IsRunning
    · cases he : s.task with
      | running exchange polled => exact answering_running ha hs he
      | _ =>
        rw [he] at ht
        exact ht.elim
    · exact answering_ending ha hs ht
  | owner hs => exact ⟨uploading_owner hu hs, answering_owner ha hs, completed_owner hc hs⟩

/-- What a request promises: the headers find the sender; the answer of a task that is over is
there; an answer is the response that came, or an error that stopped the request; what is sent
comes from the upload, and EOF follows the whole of it; a request succeeds only when both
directions have; no upload is left running; and a dropped future has cancelled the request. -/
structure RequestGuarantees (body : Option (Nat → PollFrame)) (initial : HeaderMap)
    (s : ClientRequest R) : Prop where
  headers : ∀ pump polled, s.task = .running (.running pump .awaiting) polled →
    s.sender = true ∧ s.message = none
  answered : s.task.Over → s.future = .waiting →
    ∃ result, RequestOwnerStep s { s with future := .resolved result }
  response : ∀ response, s.future = .resolved (.ok response) → s.received = some response
  error : ∀ e, s.future = .resolved (.error e) → Blamed s e ∧ s.state.cancelled = true ∨
    s.task = .dropped ∧ (Blamed s e ∨ e = .ofCancelled)
  sent : s.sent <+: uploadData body s.taken
  eof : s.eof = true → WholeRequest body initial s
  complete : s.outcome = some (.ok ()) →
    s.eof = true ∧ s.upload = .finished ∧ s.received ≠ none ∧ s.read = true
  closed : ¬ s.task.IsRunning → s.upload ≠ .running
  abandoned : s.future = .dropped → s.state.cancelled = true

/-- The sender does not outlive the task. -/
theorem over_answered (h : Answering s) (ht : s.task.Over) (hf : s.future = .waiting) :
    ∃ result, RequestOwnerStep s { s with future := .resolved result } := by
  by_cases hm : s.message = none
  · have hsender : s.sender = false := by
      have hholds := h.task
      cases he : s.task with
      | ended =>
        rw [he] at hholds
        exact hholds
      | dropped =>
        rw [he] at hholds
        exact hholds
      | _ =>
        rw [he] at ht
        exact ht.elim
    exact ⟨_, .lost hf hm hsender⟩
  · obtain ⟨result, hresult⟩ := Option.ne_none_iff_exists'.1 hm
    exact ⟨result, .resolve hf hresult⟩

theorem RequestInv.guarantees (h : RequestInv body initial s) :
    RequestGuarantees body initial s where
  headers pump polled ht := by
    have hholds := h.answering.task
    rw [ht] at hholds
    exact ⟨hholds.1, h.answering.unsent hholds.1⟩
  answered := over_answered h.answering
  response response hf := by
    have hholds := h.answering.future
    rw [hf] at hholds
    rcases hholds with hr | ⟨-, e, he, -⟩
    · exact hr
    · cases he
  error e hf := by
    have hholds := h.answering.future
    rw [hf] at hholds
    rcases hholds with hr | ⟨hd, e', he, hb⟩
    · exact .inl hr
    · cases he
      exact .inr ⟨hd, hb⟩
  sent := h.uploading.sent
  eof := h.uploading.eof
  complete := h.completed
  closed := h.uploading.closed
  abandoned hf := by
    have hholds := h.answering.future
    rw [hf] at hholds
    exact hholds

theorem client_request_guarantees
    (h : Reaches (RequestStep body timed) (fun _ _ => True) (clientRequest R initial) s) :
    RequestGuarantees body initial s :=
  (h.invariant requestInv_start fun _ _ _ hi _ hs => requestInv_step hi hs).guarantees

theorem client_request_guarantees_oneFrame : ∃ s : ClientRequest Unit,
    s.future = .resolved (.ok ()) ∧ s.sent = [1] ∧ s.trailers = [(['x'], [2])] ∧
      s.outcome = some (.ok ()) ∧ RequestGuarantees (some oneFrame) [] s := by
  have h := @Reaches.refl _ Unit (RequestStep (some oneFrame) false) (fun _ _ => True)
    (clientRequest Unit [])
  have h := h.tail (e := ()) trivial (.task (.poll rfl rfl))
  have h := h.tail (e := ()) trivial (.task (.connect rfl))
  have h := h.tail (e := ()) trivial (.task (.pump rfl (.data rfl rfl)))
  have h := h.tail (e := ()) trivial (.task (.pump rfl (.write Nat.zero_lt_one (Nat.le_refl 1))))
  have h := h.tail (e := ()) trivial (.task (.pump rfl .written))
  have h := h.tail (e := ()) trivial (.task (.pump rfl (.trailers rfl rfl)))
  have h := h.tail (e := ()) trivial (.task (.pump rfl (.append rfl)))
  have h := h.tail (e := ()) trivial (.task (.pump rfl .appended))
  have h := h.tail (e := ()) trivial (.task (.receive rfl (.headers () nofun rfl)))
  have h := h.tail (e := ()) trivial (.task (.pump rfl (.bodyEnds rfl rfl)))
  have h := h.tail (e := ()) trivial (.task (.pump rfl .publish))
  have h := h.tail (e := ()) trivial (.owner (.uploadEnds rfl))
  have h := h.tail (e := ()) trivial (.task (.pump rfl (.finish rfl)))
  have h := h.tail (e := ()) trivial (.task (.receive rfl .read))
  have h := h.tail (e := ()) trivial (.task (.complete rfl))
  have h := h.tail (e := ()) trivial (.owner (.resolve rfl rfl))
  exact ⟨_, rfl, rfl, rfl, rfl, client_request_guarantees h⟩

end Answers

end Dhttp.Api
