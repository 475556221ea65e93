import Dhttp.Api.BridgeRuns

namespace Dhttp.Api
open Dhttp.Lib
set_option autoImplicit true

section Stops
variable {I J : Type} {s s' : Bridge I J}

/-- After an error nothing gets going: the operation is cancelled, the worker is over, or the guard
of a dropped call is about to cancel the operation. -/
structure Stopped (s : Bridge I J) : Prop where
  error : ∀ error, s.completion = some (.error error) → s.worker.Over
  failed : ∀ i pc, s.reading = some (i, pc) → pc.Failed → s.worker.Over
  leaving : ∀ i pc, s.reading = some (i, pc) → pc.IsError →
    s.state.cancelled = true ∨ s.worker.Over
  stopped : ¬ s.Clean → s.state.cancelled = true ∨ s.worker.Over ∨
    ∃ i, s.reading = some (i, .unwinding)
  hopes : ∀ i pc, s.reading = some (i, pc) → pc.Hopes → ¬ s.worker.Over → s.Clean
  data : ∀ i pc, s.reading = some (i, pc) → pc.HasData → s.Clean

theorem stopped_go (h : Stopped s) (hp : s.reading = some (i, p)) (hu : p ≠ .unwinding)
    (hf : p'.Failed → s.worker.Over)
    (hl : p'.IsError → s.state.cancelled = true ∨ s.worker.Over)
    (hh : p'.Hopes → ¬ s.worker.Over → s.Clean) (hd : p'.HasData → s.Clean) :
    Stopped (s.go i p') := by
  refine ⟨h.error, ?_, ?_, fun hc => ?_, ?_, ?_⟩
  · rintro _ _ ⟨⟩
    exact hf
  · rintro _ _ ⟨⟩
    exact hl
  · refine (h.stopped hc).imp_right fun hs => .inl (hs.resolve_right ?_)
    rintro ⟨j, hj⟩
    cases hp.symm.trans hj
    exact hu rfl
  · rintro _ _ ⟨⟩
    exact hh
  · rintro _ _ ⟨⟩
    exact hd

theorem clean_cons (h : s.Clean) (he : ¬ e.Stops) : ∀ e' ∈ e :: s.log, ¬ e'.Stops :=
  List.forall_mem_cons.2 ⟨he, h⟩

theorem stopped_log (h : Stopped s) (he : ¬ e.Stops) :
    Stopped { s with log := e :: s.log } :=
  ⟨h.error, h.failed, h.leaving, fun hc => h.stopped fun hclean => hc (clean_cons hclean he),
    fun i pc hp hh ho => clean_cons (h.hopes i pc hp hh ho) he,
    fun i pc hp hd => clean_cons (h.data i pc hp hd) he⟩

theorem stopped_drop (h : Stopped s) :
    Stopped { s.go i .unwinding with log := .dropped i :: s.log } := by
  refine ⟨h.error, ?_, ?_, fun _ => .inr (.inr ⟨i, rfl⟩), ?_, ?_⟩
  · rintro _ _ ⟨⟩ hf
    exact hf.elim
  · rintro _ _ ⟨⟩ he
    exact he.elim
  · rintro _ _ ⟨⟩ hh
    exact hh.elim
  · rintro _ _ ⟨⟩ hd
    exact hd.elim

theorem stopped_unlock (h : Stopped s) (hp : s.reading = some (i, p)) (hu : p ≠ .unwinding) :
    Stopped { s with reading := none } := by
  refine ⟨h.error, nofun, nofun, fun hc => ?_, nofun, nofun⟩
  refine (h.stopped hc).imp_right fun hs => .inl (hs.resolve_right ?_)
  rintro ⟨j, hj⟩
  cases hp.symm.trans hj
  exact hu rfl

theorem stopped_next (h : Stopped s) (hs : NextStep s s') : Stopped s' := by
  cases hs with
  | @refuse _ i hi hr hl =>
    have hlog := stopped_log (e := .refused i) h id
    exact ⟨hlog.error, hlog.failed, hlog.leaving, hlog.stopped, hlog.hopes, hlog.data⟩
  | lock hi hr hl =>
    refine ⟨h.error, ?_, ?_, fun hc => ?_, ?_, ?_⟩
    · rintro _ _ ⟨⟩ hf
      exact hf.elim
    · rintro _ _ ⟨⟩ he
      exact he.elim
    · refine (h.stopped hc).imp_right fun hs => .inl (hs.resolve_right ?_)
      exact fun ⟨j, hj⟩ => absurd (hl.symm.trans hj) nofun
    · rintro _ _ ⟨⟩ hh
      exact hh.elim
    · rintro _ _ ⟨⟩ hd
      exact hd.elim
  | @completed result _ i hp hc =>
    cases result with
    | error error =>
      exact stopped_go h hp nofun nofun (fun _ => .inr (h.error error hc)) nofun nofun
    | ok fields => exact stopped_go h hp nofun nofun nofun nofun nofun
  | begin hp hc => exact stopped_go h hp nofun nofun nofun nofun nofun
  | pollSend hp hc =>
    refine stopped_go h hp nofun nofun nofun (fun _ ho => ?_) nofun
    by_contra hclean
    obtain hcancelled | hover | ⟨j, hj⟩ := h.stopped hclean
    · exact absurd (hc.symm.trans hcancelled) nofun
    · exact ho hover
    · exact absurd (hp.symm.trans hj) nofun
  | giveUpSend hp hc =>
    exact stopped_go h hp nofun nofun (fun _ => .inl hc) nofun nofun
  | pendSend hp => exact stopped_go h hp nofun nofun nofun nofun nofun
  | dropSend hp => exact stopped_drop h
  | @request _ i hp hw hq =>
    have hgo : Stopped (s.go i (.awaiting .pending true)) :=
      stopped_go h hp nofun nofun nofun (fun _ => h.hopes i _ hp trivial) nofun
    have hlog := stopped_log (e := .requested i) hgo id
    exact ⟨hlog.error, hlog.failed, hlog.leaving, hlog.stopped, hlog.hopes, hlog.data⟩
  | hangUp hp hw =>
    refine stopped_go h hp nofun nofun (fun _ => .inr ?_) nofun nofun
    rw [hw]
    trivial
  | @poll _ _ i hp hc =>
    have hf := h.failed i _ hp
    have hd := h.data i _ hp
    exact stopped_go h hp nofun hf nofun (fun _ => h.hopes i _ hp trivial) hd
  | giveUp hp hc =>
    exact stopped_go h hp nofun nofun (fun _ => .inl hc) nofun nofun
  | @pend _ _ i hp =>
    have hf := h.failed i _ hp
    have hd := h.data i _ hp
    exact stopped_go h hp nofun hf nofun (fun _ => h.hopes i _ hp trivial) hd
  | drop hp => exact stopped_drop h
  | @receive result _ i hp =>
    cases result with
    | error error =>
      exact stopped_go h hp nofun nofun (fun _ => .inr (h.failed i _ hp trivial)) nofun nofun
    | ok next =>
      cases next with
      | none => exact stopped_go h hp nofun nofun nofun nofun nofun
      | some bytes => exact stopped_go h hp nofun nofun nofun nofun fun _ => h.data i _ hp trivial
  | @lost _ i hp =>
    exact stopped_go h hp nofun nofun (fun _ => .inr (h.failed i _ hp trivial)) nofun nofun
  | @unwind _ i hp =>
    refine ⟨h.error, ?_, ?_, fun _ => .inl rfl, ?_, ?_⟩
    · rintro _ _ ⟨⟩ hf
      exact hf.elim
    · rintro _ _ ⟨⟩ he
      exact he.elim
    · rintro _ _ ⟨⟩ hh
      exact hh.elim
    · rintro _ _ ⟨⟩ hd
      exact hd.elim
  | unlock hp => exact stopped_unlock h hp nofun
  | @leave result _ i hp =>
    have hunlock := stopped_unlock h hp nofun
    cases result with
    | error error =>
      refine ⟨h.error, nofun, nofun, fun _ => ?_, nofun, nofun⟩
      exact (h.leaving i _ hp trivial).imp_right .inl
    | ok next => exact stopped_log (e := .returned i (.ok next)) hunlock id

theorem stopped_owner (h : Stopped s)
    (hc : s.state.cancelled = true → state.cancelled = true) :
    Stopped { s with watching := watching, reader := reader, state := state } :=
  ⟨h.error, h.failed, fun i pc hp he => (h.leaving i pc hp he).imp_left hc,
    fun hclean => (h.stopped hclean).imp_left hc, h.hopes, h.data⟩

theorem stopped_work (h : Stopped s) (ho : s.worker.Over → worker.Over)
    (he : ∀ error, completion = some (.error error) → worker.Over)
    (hc : s.state.cancelled = true → state.cancelled = true) :
    Stopped { s with
      worker := worker, queue := queue, taken := taken, fields := fields
      completion := completion, state := state } :=
  ⟨he, fun i pc hp hf => ho (h.failed i pc hp hf),
    fun i pc hp hl => (h.leaving i pc hp hl).imp hc ho,
    fun hclean => (h.stopped hclean).imp hc fun hs => hs.imp_left ho,
    fun i pc hp hh hn => h.hopes i pc hp hh fun hover => hn (ho hover), h.data⟩

/-- As long as the worker is not over it is free to go on. -/
theorem stopped_running (h : Stopped s) (hn : ¬ s.worker.Over) :
    Stopped { s with worker := worker, queue := queue, taken := taken, fields := fields } :=
  stopped_work h (fun ho => absurd ho hn) (fun error he => absurd (h.error error he) hn) id

theorem stopped_polled (h : Stopped s) (hn : ¬ s.worker.Over) :
    Stopped { s with
      worker := worker, taken := taken, fields := fields, log := .polled :: s.log } := by
  have hrunning : Stopped { s with worker := worker, taken := taken, fields := fields } :=
    stopped_running h hn
  exact stopped_log hrunning id

variable [DecidableEq I]

theorem stopped_answer (h : Stopped s) (ho : s.worker.Over → worker.Over)
    (hf : response.Failed → worker.Over) (hd : response.HasData → ¬ s.worker.Over) :
    Stopped { s.answer requests response with worker := worker, queue := queue } := by
  refine ⟨fun error he => ho (h.error error he), fun i pc hp hfailed => ?_, fun i pc hp he => ?_,
    fun hclean => ?_, fun i pc hp hh hn => ?_, fun i pc hp hdata => ?_⟩
  · obtain ⟨_, hp', rfl | ⟨_, _, _, _, rfl⟩⟩ := answer_reading hp
    · exact ho (h.failed i pc hp' hfailed)
    · exact hf hfailed
  · obtain ⟨_, hp', rfl | ⟨_, _, _, _, rfl⟩⟩ := answer_reading hp
    · exact (h.leaving i pc hp' he).imp_right ho
    · exact he.elim
  · refine (h.stopped hclean).imp_right fun hs => hs.imp ho ?_
    rintro ⟨i, hi⟩
    refine ⟨i, ?_⟩
    change (s.answer requests response).reading = _
    rw [Bridge.answer, hi]
    rfl
  · obtain ⟨_, hp', rfl | ⟨_, _, rfl, _, rfl⟩⟩ := answer_reading hp
    · exact h.hopes i pc hp' hh fun hover => hn (ho hover)
    · exact h.hopes i _ hp' trivial fun hover => hn (ho hover)
  · obtain ⟨_, hp', rfl | ⟨_, _, rfl, _, rfl⟩⟩ := answer_reading hp
    · exact h.data i pc hp' hdata
    · exact h.hopes i _ hp' trivial (hd hdata)

theorem stopped_replied (h : Stopped s) (ho : s.worker.Over → worker.Over)
    (hf : response.Failed → worker.Over) (hd : response.HasData → ¬ s.worker.Over) :
    Stopped { s.answer requests response with worker := worker, log := .replied i :: s.log } := by
  have hanswer : Stopped { s.answer requests response with worker := worker } :=
    stopped_answer h ho hf hd
  exact stopped_log hanswer id

theorem stopped_worker (h : Stopped s) (hs : WorkerStep body s s') : Stopped s' := by
  cases hs with
  | poll hw hc | pendRecv hw | recv hw hq => exact stopped_running h (by rw [hw]; exact id)
  | interrupt hw hc => exact stopped_answer h (fun _ => trivial) (fun _ => trivial) nofun
  | readError hw => exact stopped_work h (fun _ => trivial) (fun _ _ => trivial) id
  | recvClosed hw hq hr => exact stopped_work h (fun _ => trivial) (fun _ _ => trivial) id
  | pendFrame hw | data hw hb | trailers hw hb | error hw hb | eof hw hb =>
    exact stopped_polled h (by rw [hw]; exact id)
  | publish hw => exact stopped_work h (by rw [hw]; exact False.elim) nofun id
  | reply hw hl =>
    have hn : ¬ s.worker.Over := by
      rw [hw]
      exact id
    exact stopped_replied h (fun ho => absurd ho hn) nofun fun _ => hn
  | replyLost hw hl =>
    have hwork : Stopped { s with worker := .failing .ofCancelled } :=
      stopped_work h (fun _ => trivial) (fun _ _ => trivial) id
    exact stopped_log hwork id
  | refuse hw => exact stopped_replied h (fun _ => trivial) (fun _ => trivial) nofun
  | fail hw => exact stopped_work h (fun _ => trivial) (fun _ _ => trivial) fun _ => rfl
  | complete hw => exact stopped_work h (fun _ => trivial) (fun _ _ => trivial) id
  | finish hw => exact stopped_answer h (fun _ => trivial) (fun _ => trivial) nofun
  | drop hw => exact stopped_answer h (fun _ => trivial) (fun _ => trivial) nofun

end Stops

end Dhttp.Api
