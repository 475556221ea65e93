import Dhttp.Api.RequestAnswers

namespace Dhttp.Api
open Dhttp.Lib
set_option autoImplicit true

section Stops
variable {R : Type} {s s' t : ClientRequest R}

/-- A cancelled request between two polls: what it has sent and received is all that it will. -/
structure Quiet (s t : ClientRequest R) : Prop where
  cancelled : t.state.cancelled = true
  idle : ¬ t.task.Polls
  upload : SameUpload s t
  received : t.received = s.received

theorem Quiet.not_polled (h : Quiet s t) (ht : t.task = .running exchange true) : False := by
  apply h.idle
  rw [ht]
  rfl

theorem quiet_same (h : Quiet s t) (hs : t.state.Onward s'.state) (ht : ¬ s'.task.Polls)
    (hu : SameUpload t s') (hr : s'.received = t.received) : Quiet s s' where
  cancelled := hs.cancelled h.cancelled
  idle := ht
  upload := ⟨hu.taken.trans h.upload.taken, hu.sent.trans h.upload.sent,
    hu.trailers.trans h.upload.trailers, hu.eof.trans h.upload.eof⟩
  received := hr.trans h.received

theorem quiet_step (h : Quiet s t) (hs : RequestStep body timed t e s') : Quiet s s' := by
  have hsame : SameUpload t t := ⟨rfl, rfl, rfl, rfl⟩
  have hrefl := t.state.onward_refl
  cases hs with
  | task hs =>
    cases hs with
    | poll ht hc =>
      rw [h.cancelled] at hc
      cases hc
    | pend ht | connect ht | connectFails ht | pump ht | pumpFails ht | receive ht
      | receiveFails ht | complete ht | deadline _ ht => exact (h.not_polled ht).elim
    | interrupt | readError | answer | succeed | release =>
      exact quiet_same h hrefl id ⟨rfl, rfl, rfl, rfl⟩ rfl
    | store => exact quiet_same h (t.state.onward_store _) id ⟨rfl, rfl, rfl, rfl⟩ rfl
    | cancel => exact quiet_same h t.state.onward_cancel id ⟨rfl, rfl, rfl, rfl⟩ rfl
  | owner hs =>
    cases hs with
    | resolve | lost | closeDropped | uploadEnds =>
      exact quiet_same h hrefl h.idle ⟨rfl, rfl, rfl, rfl⟩ rfl
    | drop | storeError =>
      exact quiet_same h (t.state.onward_store _) h.idle ⟨rfl, rfl, rfl, rfl⟩ rfl
    | cancelDropped | cancelToken =>
      exact quiet_same h t.state.onward_cancel h.idle ⟨rfl, rfl, rfl, rfl⟩ rfl
    | cancelOwner =>
      exact quiet_same h t.state.onward_cancelOwner h.idle ⟨rfl, rfl, rfl, rfl⟩ rfl
    | dropTask => exact quiet_same h hrefl id ⟨rfl, rfl, rfl, rfl⟩ rfl

/-- What the task of a request does when nobody else does anything. -/
abbrev TaskRun (body : Option (Nat → PollFrame)) (timed : Bool) (s t : ClientRequest R) : Prop :=
  Reaches (fun s (_ : Unit) s' => RequestTaskStep body timed s s') (fun _ _ => True) s t

theorem taskStep_future (hs : RequestTaskStep body timed s s') : s'.future = s.future := by
  cases hs with
  | pump ht hp => exact (pumpStep_task hp).2.2.2.1
  | pumpFails ht hp =>
    rw [pumpStep_error hp]
    rfl
  | receive ht hr => cases hr <;> rfl
  | receiveFails ht hr => cases hr <;> rfl
  | _ => rfl

theorem taskRun_future (h : TaskRun body timed s t) : t.future = s.future := by
  induction h with
  | refl => rfl
  | tail _ _ hs ih => exact (taskStep_future hs).trans ih

theorem taskRun_inv (h : TaskRun body timed s t) (hs : RequestInv body initial s) :
    RequestInv body initial t :=
  h.invariant hs fun _ _ _ hi _ hstep => requestInv_step (e := ()) hi (.task hstep)

/-- How many steps the task of a cancelled request has left between two polls. -/
def RequestPc.stepsLeft : RequestPc → Nat
  | running _ _ => 6
  | interrupted => 5
  | settled _ => 4
  | failing _ => 3
  | answering _ => 2
  | releasing => 1
  | ended | dropped => 0

theorem RequestPc.stepsLeft_le (task : RequestPc) : task.stepsLeft ≤ 6 := by
  cases task <;> simp only [stepsLeft] <;> omega

theorem quiet_lowers (h : Quiet s t) (hs : RequestTaskStep body timed t s') :
    s'.task.stepsLeft < t.task.stepsLeft := by
  cases hs with
  | poll ht hc =>
    rw [h.cancelled] at hc
    cases hc
  | pend ht | connect ht | connectFails ht | pump ht | pumpFails ht | receive ht
    | receiveFails ht | complete ht | deadline _ ht => exact (h.not_polled ht).elim
  | interrupt ht | readError ht | store ht | cancel ht | answer ht | release ht =>
    rw [ht]
    exact Nat.lt_succ_self _
  | succeed ht =>
    rw [ht]
    exact Nat.one_lt_succ_succ 2

theorem releasing_ends (h : TaskRun body timed s t) (ht : t.task = .releasing) :
    ∃ s', TaskRun body timed s s' ∧ s'.task = .ended :=
  ⟨_, h.tail (e := ()) trivial (.release ht), rfl⟩

theorem answering_ends (h : TaskRun body timed s t) (ht : t.task = .answering error) :
    ∃ s', TaskRun body timed s s' ∧ s'.task = .ended :=
  releasing_ends (h.tail (e := ()) trivial (.answer ht)) rfl

theorem failing_ends (h : TaskRun body timed s t) (ht : t.task = .failing error) :
    ∃ s', TaskRun body timed s s' ∧ s'.task = .ended :=
  answering_ends (h.tail (e := ()) trivial (.cancel ht)) rfl

theorem settled_ends (h : TaskRun body timed s t) (ht : t.task = .settled result) :
    ∃ s', TaskRun body timed s s' ∧ s'.task = .ended := by
  cases result with
  | ok => exact releasing_ends (h.tail (e := ()) trivial (.succeed ht)) rfl
  | error e => exact failing_ends (h.tail (e := ()) trivial (.store ht)) rfl

theorem interrupted_ends (h : TaskRun body timed s t) (ht : t.task = .interrupted) :
    ∃ s', TaskRun body timed s s' ∧ s'.task = .ended :=
  settled_ends (h.tail (e := ()) trivial (.readError ht)) rfl

theorem running_ends (h : TaskRun body timed s t) (ht : t.task = .running exchange polled)
    (hc : t.state.cancelled = true) : ∃ s', TaskRun body timed s s' ∧ s'.task = .ended := by
  cases polled with
  | false => exact interrupted_ends (h.tail (e := ()) trivial (.interrupt ht hc)) rfl
  | true =>
    have hpend := h.tail (e := ()) trivial (.pend ht)
    exact interrupted_ends (hpend.tail (e := ()) trivial (.interrupt rfl hc)) rfl

/-- The task of a cancelled request ends without anybody's help. -/
theorem cancelled_ends (hc : s.state.cancelled = true) :
    ∃ s', TaskRun body timed s s' ∧ s'.task.Over := by
  have hended : (∃ s', TaskRun body timed s s' ∧ s'.task = .ended) →
      ∃ s', TaskRun body timed s s' ∧ s'.task.Over := by
    rintro ⟨s', hs, ht⟩
    refine ⟨s', hs, ?_⟩
    rw [ht]
    trivial
  cases he : s.task with
  | running exchange polled => exact hended (running_ends .refl he hc)
  | interrupted => exact hended (interrupted_ends .refl he)
  | settled result => exact hended (settled_ends .refl he)
  | failing e => exact hended (failing_ends .refl he)
  | answering e => exact hended (answering_ends .refl he)
  | releasing => exact hended (releasing_ends .refl he)
  | ended => exact hended ⟨s, .refl, he⟩
  | dropped =>
    refine ⟨s, .refl, ?_⟩
    rw [he]
    trivial

/-- What the task of a request leaves behind that has been left alone. -/
structure RequestStopped (s t : ClientRequest R) : Prop where
  ended : t.task.Over
  upload : t.upload ≠ .running
  future : t.future = s.future
  answered : s.future = .waiting →
    ∃ result, RequestOwnerStep t { t with future := .resolved result }

theorem request_stopped (h : RequestInv body initial t) (ho : t.task.Over)
    (hf : t.future = s.future) : RequestStopped s t where
  ended := ho
  upload := by
    apply h.uploading.closed
    intro hr
    cases he : t.task with
    | running exchange polled =>
      rw [he] at ho
      exact ho
    | _ =>
      rw [he] at hr
      exact hr
  future := hf
  answered hw := over_answered h.answering ho (hf.trans hw)

/-- A cancelled request between two polls is stopped by its own task, whatever that does. -/
theorem quiet_stops (h : RequestInv body initial s) (hq : Quiet s s)
    {run : Nat → ClientRequest R} (hs : run 0 = s)
    (hrun : ∀ n, ¬ (run n).task.Over → RequestTaskStep body timed (run n) (run (n + 1))) :
    ∃ n ≤ 6, RequestStopped s (run n) := by
  have hstep : ∀ t t', (RequestInv body initial t ∧ Quiet s t ∧ t.future = s.future) →
      RequestTaskStep body timed t t' →
        (RequestInv body initial t' ∧ Quiet s t' ∧ t'.future = s.future) ∧
          t'.task.stepsLeft < t.task.stepsLeft := by
    intro t t' ⟨hi, hquiet, hf⟩ ht
    exact ⟨⟨requestInv_step (e := ()) hi (.task ht), quiet_step (e := ()) hquiet (.task ht),
      (taskStep_future ht).trans hf⟩, quiet_lowers hquiet ht⟩
  have hstart : RequestInv body initial (run 0) ∧ Quiet s (run 0) ∧ (run 0).future = s.future := by
    rw [hs]
    exact ⟨h, hq, rfl⟩
  obtain ⟨n, hn, ⟨hinv, _, hf⟩, ho⟩ :=
    @run_ends _ (RequestTaskStep body timed) _ (fun t => t.task.Over) _ run hstep hstart hrun
  exact ⟨n, hn.trans (RequestPc.stepsLeft_le _), request_stopped hinv ho hf⟩

/-- A cancelled request sends and receives no more once the poll that runs is over, whatever
happens, and its task comes to its end in six steps of its own; and from any state its task, left
alone, can end and leave an answer to the future that waits. -/
theorem cancelled_request_stops
    (h : Reaches (RequestStep body timed) (fun _ _ => True) (clientRequest R initial) s)
    (hc : s.state.cancelled = true) :
    (¬ s.task.Polls →
      (∀ s', Reaches (RequestStep body timed) (fun _ _ => True) s s' →
        s'.taken = s.taken ∧ s'.sent = s.sent ∧ s'.trailers = s.trailers ∧ s'.eof = s.eof ∧
          s'.received = s.received) ∧
      ∀ run : Nat → ClientRequest R, run 0 = s →
        (∀ n, ¬ (run n).task.Over → RequestTaskStep body timed (run n) (run (n + 1))) →
          ∃ n ≤ 6, RequestStopped s (run n)) ∧
    ∃ s', TaskRun body timed s s' ∧ RequestStopped s s' := by
  have hinv := h.invariant requestInv_start fun _ _ _ hi _ hs => requestInv_step hi hs
  constructor
  · intro hp
    have hstart : Quiet s s := ⟨hc, hp, ⟨rfl, rfl, rfl, rfl⟩, rfl⟩
    refine ⟨?_, fun run => quiet_stops hinv hstart⟩
    intro s' hs'
    have hquiet : Quiet s s' := hs'.invariant hstart fun _ _ _ hq _ hs => quiet_step hq hs
    exact ⟨hquiet.upload.taken, hquiet.upload.sent, hquiet.upload.trailers, hquiet.upload.eof,
      hquiet.received⟩
  · have hends : ∃ s', TaskRun body timed s s' ∧ s'.task.Over := cancelled_ends hc
    obtain ⟨s', hrun, hover⟩ := hends
    exact ⟨s', hrun, request_stopped (taskRun_inv hrun hinv) hover (taskRun_future hrun)⟩

/-- The future is dropped while the upload waits for its next frame. -/
theorem cancelled_request_stops_dropped : ∃ s : ClientRequest Unit,
    s.sent = [1] ∧ s.future = .closing ∧
      (∀ s', Reaches (RequestStep (some oneFrame) true) (fun _ _ => True) s s' →
        s'.taken = s.taken ∧ s'.sent = s.sent ∧ s'.trailers = s.trailers ∧ s'.eof = s.eof ∧
          s'.received = s.received) ∧
      ∀ run : Nat → ClientRequest Unit, run 0 = s →
        (∀ n, ¬ (run n).task.Over →
          RequestTaskStep (some oneFrame) true (run n) (run (n + 1))) →
            ∃ n ≤ 6, RequestStopped s (run n) := by
  have h := @Reaches.refl _ Unit (RequestStep (some oneFrame) true) (fun _ _ => True)
    (clientRequest Unit [])
  have h := h.tail (e := ()) trivial (.task (.poll rfl rfl))
  have h := h.tail (e := ()) trivial (.task (.connect rfl))
  have h := h.tail (e := ()) trivial (.task (.pump rfl (.data rfl rfl)))
  have h := h.tail (e := ()) trivial (.task (.pump rfl (.write Nat.zero_lt_one (Nat.le_refl 1))))
  have h := h.tail (e := ()) trivial (.task (.pump rfl .written))
  have h := h.tail (e := ()) trivial (.task (.pend rfl))
  have h := h.tail (e := ()) trivial (.owner (.drop rfl))
  have h := h.tail (e := ()) trivial (.owner (.cancelDropped rfl))
  exact ⟨_, rfl, rfl, (cancelled_request_stops h rfl).1 nofun⟩

end Stops

end Dhttp.Api
