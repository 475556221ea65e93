import Mathlib
import Dhttp.Api.BridgeStops

namespace Dhttp.Api
open Dhttp.Lib
set_option autoImplicit true

section Accounts
variable {I J : Type} {body : Nat → PollFrame} {s s' : Bridge I J}

def WorkerPc.data : WorkerPc I → List Bytes
  | replying _ (some bytes) => [bytes]
  | _ => []

/-- The worker has come to the end of the body. -/
def WorkerPc.AtEof : WorkerPc I → Prop
  | publishing _ | replying _ none => True
  | _ => False

/-- The data that is under way to the call that reads. -/
def Bridge.readingData (s : Bridge I J) : List Bytes := s.reading.elim [] fun call => call.2.data

/-- The body is at its end and all its data has been returned. -/
def Ended (body : Nat → PollFrame) (s : Bridge I J) : Prop :=
  body s.taken = .none ∧ returnedData s.log = dataFrames body s.taken

/-- No data is lost as long as the bridge can go on. -/
structure Accounts (body : Nat → PollFrame) (s : Bridge I J) : Prop where
  frames : Frames body s.taken
  data : s.Whole ∨ s.worker.Serves ∨ s.queue ≠ [] ∧ ¬ s.worker.Over →
    returnedData s.log ++ (s.readingData ++ s.worker.data) = dataFrames body s.taken
  worker : s.worker.AtEof → Ended body s
  reading : ∀ i pc, s.reading = some (i, pc) → pc.AtEof → Ended body s
  completed : ∀ fields, s.completion = some (.ok fields) →
    Ended body s ∧ fields = HeaderMap.appendAll [] (trailerFields body s.taken)
  fields : s.worker.Collects → s.fields = HeaderMap.appendAll [] (trailerFields body s.taken)

theorem Bridge.readingData_of (hp : s.reading = some (i, pc)) : s.readingData = pc.data := by
  rw [readingData, hp, Option.elim_some]

theorem ReadPc.data_of_not_alone {pc : ReadPc} (h : ¬ pc.Alone) : pc.data = [] := by
  cases pc with
  | awaiting response _ =>
    cases response with
    | sent _ => exact absurd trivial h
    | pending | closed => rfl
  | leaving result =>
    cases result with
    | error _ => rfl
    | ok next =>
      cases next with
      | none => rfl
      | some _ => exact absurd trivial h
  | checking | sending | unwinding | unlocking => rfl

theorem WorkerPc.Serves.handles {worker : WorkerPc I} (h : worker.Serves) :
    ∃ i, worker.Handles i := by
  cases worker with
  | running stage _ =>
    cases stage with
    | recv => exact h.elim
    | framing i => exact ⟨i, rfl⟩
  | publishing i | replying i _ => exact ⟨i, rfl⟩
  | refusing | interrupted | failing | completing | finished | gone => exact h.elim

theorem WorkerPc.Serves.data_eq {worker : WorkerPc I} (h : worker.Serves) : worker.data = [] := by
  cases worker with
  | replying _ next =>
    cases next with
    | none => rfl
    | some _ => exact h.elim
  | running | publishing | refusing | interrupted | failing | completing | finished | gone => rfl

theorem WorkerPc.data_of_idle {worker : WorkerPc I} (h : ∀ i, ¬ worker.Handles i) :
    worker.data = [] := by
  cases worker with
  | replying i _ => exact absurd rfl (h i)
  | running | publishing | refusing | interrupted | failing | completing | finished | gone => rfl

/-- While a request is with the worker no data is under way to its call. -/
theorem Requested.readingData_eq (h : Requested s) (hj : s.Pending j) : s.readingData = [] := by
  cases hp : s.reading with
  | none => rw [Bridge.readingData, hp, Option.elim_none]
  | some call =>
    rw [Bridge.readingData_of hp]
    exact ReadPc.data_of_not_alone fun ha => h.alone call.1 call.2 hp ha j hj

theorem Accounts.serving (h : Accounts body s) (hr : Requested s) (hs : s.worker.Serves) :
    returnedData s.log = dataFrames body s.taken := by
  obtain ⟨i, hi⟩ := hs.handles
  have hdata := h.data (.inr (.inl hs))
  rw [hr.readingData_eq (.inr hi), hs.data_eq] at hdata
  exact (List.append_nil _).symm.trans hdata

/-- A call goes on, and everything else stays. -/
theorem accounts_go (h : Accounts body s) (hp : s.reading = some (i, p)) (hn : ¬ p.IsError)
    (hd : p'.data = p.data ∨ (p'.IsError ∨ ¬ s.Clean) ∧ ∀ j, ¬ s.Pending j)
    (he : p'.AtEof → Ended body s) : Accounts body (s.go i p') := by
  refine ⟨h.frames, fun ha => ?_, h.worker, ?_, h.completed, h.fields⟩
  · obtain hd | ⟨herror, hnone⟩ := hd
    · have hdata : (s.go i p').readingData = s.readingData := by
        rw [Bridge.readingData_of hp, ← hd]
        rfl
      rw [hdata]
      exact h.data (ha.imp_left fun hw => whole_of_reading hw.1 hp hn)
    · obtain hw | hs | ⟨hq, -⟩ := ha
      · exact absurd hw.1 (herror.resolve_left (hw.2 i p' rfl))
      · obtain ⟨j, hj⟩ := hs.handles
        exact absurd (.inr hj) (hnone j)
      · obtain ⟨j, hj⟩ := List.exists_mem_of_ne_nil s.queue hq
        exact absurd (.inl hj) (hnone j)
  · rintro _ _ ⟨⟩
    exact he

theorem accounts_log (h : Accounts body s) (hr : returnedData (e :: s.log) = returnedData s.log) :
    Accounts body { s with log := e :: s.log } := by
  have hended : Ended body s → Ended body { s with log := e :: s.log } :=
    fun hs => ⟨hs.1, hr.trans hs.2⟩
  refine ⟨h.frames, fun ha => ?_, fun hw => hended (h.worker hw),
    fun i pc hp he => hended (h.reading i pc hp he),
    fun fields hc => (h.completed fields hc).imp_left hended, h.fields⟩
  have hdata := h.data (ha.imp_left fun hw => ⟨clean_of_cons hw.1, hw.2⟩)
  rw [← hr] at hdata
  exact hdata

theorem accounts_unlock (h : Accounts body s) (hp : s.reading = some (i, p))
    (hn : p.IsError → ¬ s.Clean) (hd : p.data = []) :
    Accounts body { s with reading := none } := by
  refine ⟨h.frames, fun ha => ?_, h.worker, nofun, h.completed, h.fields⟩
  have hdata := h.data (ha.imp_left fun hw => whole_of_reading hw.1 hp fun he => hn he hw.1)
  rw [Bridge.readingData_of hp, hd] at hdata
  exact hdata

theorem Accounts.not_ended (h : Accounts body s) (hw : s.Whole) (hd : s.readingData ≠ []) :
    ¬ Ended body s := by
  intro hended
  have hdata := h.data (.inl hw)
  rw [← hended.2, List.append_right_eq_self] at hdata
  exact hd (List.append_eq_nil_iff.1 hdata).1

theorem accounts_next (hr : Requested s) (hst : Stopped s) (h : Accounts body s)
    (hs : NextStep s s') : Accounts body s' := by
  cases hs with
  | @refuse _ i hi hr hl =>
    have hlog := accounts_log (e := .refused i) h rfl
    exact ⟨hlog.frames, hlog.data, hlog.worker, hlog.reading, hlog.completed, hlog.fields⟩
  | @lock _ i hi hr hl =>
    refine ⟨h.frames, fun ha => ?_, h.worker, ?_, h.completed, h.fields⟩
    · have hdata := h.data (ha.imp_left fun hw => whole_of_none hw.1 hl)
      rw [Bridge.readingData, hl] at hdata
      exact hdata
    · rintro _ _ ⟨⟩ he
      exact he.elim
  | @completed result _ i hp hc =>
    cases result with
    | error _ => exact accounts_go h hp id (.inl rfl) nofun
    | ok fields => exact accounts_go h hp id (.inl rfl) fun _ => (h.completed fields hc).1
  | begin hp _ => exact accounts_go h hp id (.inl rfl) nofun
  | pollSend hp _ => exact accounts_go h hp id (.inl rfl) nofun
  | giveUpSend hp _ => exact accounts_go h hp id (.inl rfl) nofun
  | pendSend hp => exact accounts_go h hp id (.inl rfl) nofun
  | @dropSend _ i hp =>
    exact accounts_go (accounts_log (e := .dropped i) h rfl) hp id (.inl rfl) nofun
  | @request _ i hp hw hq =>
    have hgo : Accounts body ({ s with log := .requested i :: s.log }.go i
        (.awaiting .pending true)) :=
      accounts_go (accounts_log (e := .requested i) h rfl) hp id (.inl rfl) nofun
    refine ⟨hgo.frames, fun ha => ?_, hgo.worker, hgo.reading, hgo.completed, hgo.fields⟩
    have hwhole : s.Whole ∨ s.worker.Serves := by
      obtain hw | hs | ⟨-, hn⟩ := ha
      · exact .inl (whole_of_reading (clean_of_cons hw.1) hp id)
      · exact .inr hs
      · exact .inl (whole_of_reading (hst.hopes i _ hp trivial hn) hp id)
    have hdata := h.data (hwhole.imp_right .inl)
    rw [Bridge.readingData_of hp] at hdata
    exact hdata
  | hangUp hp _ => exact accounts_go h hp id (.inl rfl) nofun
  | @poll _ _ i hp _ =>
    have he := h.reading i _ hp
    exact accounts_go h hp id (.inl rfl) he
  | @giveUp response _ i hp _ =>
    refine accounts_go h hp id ?_ nofun
    by_cases ha : response.IsSent
    · exact .inr ⟨.inl trivial, hr.alone i _ hp ha⟩
    · have hdata : (ReadPc.awaiting response false).data = [] := ReadPc.data_of_not_alone ha
      exact .inl hdata.symm
  | @pend _ _ i hp =>
    have he := h.reading i _ hp
    exact accounts_go h hp id (.inl rfl) he
  | @drop response _ i hp =>
    refine accounts_go (accounts_log (e := .dropped i) h rfl) hp id ?_ nofun
    by_cases ha : response.IsSent
    · exact .inr ⟨.inr (not_clean_of_mem List.mem_cons_self trivial), hr.alone i _ hp ha⟩
    · have hdata : (ReadPc.awaiting response false).data = [] := ReadPc.data_of_not_alone ha
      exact .inl hdata.symm
  | @receive result _ i hp =>
    have he := h.reading i _ hp
    cases result with
    | error _ => exact accounts_go h hp id (.inl rfl) nofun
    | ok next =>
      cases next with
      | none => exact accounts_go h hp id (.inl rfl) he
      | some _ => exact accounts_go h hp id (.inl rfl) nofun
  | lost hp => exact accounts_go h hp id (.inl rfl) nofun
  | @unwind _ i hp =>
    have hgo : Accounts body (s.go i .unlocking) := accounts_go h hp id (.inl rfl) nofun
    exact ⟨hgo.frames, hgo.data, hgo.worker, hgo.reading, hgo.completed, hgo.fields⟩
  | unlock hp => exact accounts_unlock h hp nofun rfl
  | @leave result _ i hp =>
    cases result with
    | error error =>
      have hlog := accounts_log (e := .returned i (.error error)) h rfl
      exact accounts_unlock hlog hp (fun _ => not_clean_of_mem List.mem_cons_self trivial) rfl
    | ok next =>
      cases next with
      | none =>
        have hlog := accounts_log (e := .returned i (.ok none)) h rfl
        exact accounts_unlock hlog hp nofun rfl
      | some bytes =>
        have hwhole := whole_of_reading (hst.data i _ hp trivial) hp id
        have hdata := h.data (.inl hwhole)
        have hnot := h.not_ended hwhole (by rw [Bridge.readingData_of hp]; nofun)
        rw [Bridge.readingData_of hp] at hdata
        refine ⟨h.frames, fun _ => ?_, fun hw => absurd (h.worker hw) hnot, nofun,
          fun fields hc => absurd (h.completed fields hc).1 hnot, h.fields⟩
        change returnedData s.log ++ [bytes] ++ ([] ++ s.worker.data) = _
        rw [List.append_assoc]
        exact hdata

theorem accounts_owner (h : Accounts body s) :
    Accounts body { s with watching := watching, reader := reader, state := state } :=
  ⟨h.frames, h.data, h.worker, h.reading, h.completed, h.fields⟩

/-- The worker goes on with the data and the trailers that it has. -/
theorem accounts_work (h : Accounts body s)
    (hs : worker.Serves ∨ queue ≠ [] ∧ ¬ worker.Over →
      s.worker.Serves ∨ s.queue ≠ [] ∧ ¬ s.worker.Over)
    (hd : worker.data = s.worker.data) (he : worker.AtEof → Ended body s)
    (hf : worker.Collects → s.worker.Collects)
    (hc : ∀ fields, completion = some (.ok fields) → s.completion = some (.ok fields)) :
    Accounts body { s with
      worker := worker, queue := queue, completion := completion, state := state } := by
  refine ⟨h.frames, fun ha => ?_, he, h.reading, fun fields hm => h.completed fields (hc fields hm),
    fun hw => h.fields (hf hw)⟩
  have hdata := h.data (ha.imp_right hs)
  rw [← hd] at hdata
  exact hdata

theorem accounts_stop (h : Accounts body s) (hd : worker.data = s.worker.data)
    (ho : worker.Over) (hs : ¬ worker.Serves) (he : ¬ worker.AtEof) (hf : ¬ worker.Collects)
    (hc : ∀ fields, completion = some (.ok fields) → s.completion = some (.ok fields)) :
    Accounts body { s with
      worker := worker, queue := queue, completion := completion, state := state } :=
  accounts_work h (fun ha => ha.elim (fun hw => absurd hw hs) fun hq => absurd ho hq.2) hd
    (fun hw => absurd hw he) (fun hw => absurd hw hf) hc

theorem accounts_polled (h : Accounts body s) (hs : s.worker.Serves)
    (hd : worker.data = s.worker.data) (he : worker.AtEof → Ended body s)
    (hf : worker.Collects → s.worker.Collects) :
    Accounts body { s with worker := worker, log := .polled :: s.log } := by
  have hwork : Accounts body { s with worker := worker } :=
    accounts_work h (fun _ => .inl hs) hd he hf fun _ hc => hc
  exact accounts_log hwork rfl

/-- The worker gets a frame. -/
theorem accounts_frame (hr : Requested s) (h : Accounts body s)
    (hw : s.worker = .running (.framing i) true) (hb : (body s.taken).IsFrame)
    (hn : body s.taken ≠ .none) (he : ¬ worker.AtEof)
    (hd : dataFrames body (s.taken + 1) = dataFrames body s.taken ++ worker.data)
    (hf : fields = HeaderMap.appendAll [] (trailerFields body (s.taken + 1))) :
    Accounts body { s with
      worker := worker, taken := s.taken + 1, fields := fields, log := .polled :: s.log } := by
  have hserves : s.worker.Serves := by
    rw [hw]
    trivial
  have hpending : s.Pending i := .inr (by rw [hw]; rfl)
  refine ⟨h.frames.succ hb, fun _ => ?_, fun hw' => absurd hw' he,
    fun i pc hp ha => absurd (h.reading i pc hp ha).1 hn,
    fun fields hc => absurd (h.completed fields hc).1.1 hn, fun _ => hf⟩
  change returnedData s.log ++ (s.readingData ++ worker.data) = _
  rw [hr.readingData_eq hpending, h.serving hr hserves, hd]
  rfl

/-- The reply does not reach its call, whose end has been seen to. -/
theorem not_whole_of_lost (hr : Requested s) (hi : s.Pending i) (hl : ¬ s.Listens i) :
    ¬ s.Whole := by
  obtain ⟨polled, hreading⟩ | ⟨hwhole, -⟩ := hr.awaited i hi
  · exact absurd ⟨_, polled, hreading⟩ hl
  · exact hwhole

theorem accounts_replyLost (hr : Requested s) (h : Accounts body s)
    (hw : s.worker = .replying i next) (hl : ¬ s.Listens i) :
    Accounts body { s with worker := .failing .ofCancelled, log := .replied i :: s.log } := by
  have hpending : s.Pending i := .inr (by rw [hw]; rfl)
  have hnot := not_whole_of_lost hr hpending hl
  refine ⟨h.frames, fun ha => ?_, nofun, h.reading, h.completed, nofun⟩
  obtain hwhole | hs | ⟨-, ho⟩ := ha
  · exact absurd ⟨clean_of_cons hwhole.1, hwhole.2⟩ hnot
  · exact hs.elim
  · exact absurd trivial ho

section Answers
variable [DecidableEq I]

theorem whole_of_answer (h : (s.answer requests response).Whole) : s.Whole := by
  refine ⟨h.1, fun i pc hp he => h.2 i pc ?_ he⟩
  rw [Bridge.answer, hp]
  cases pc with
  | awaiting => exact he.elim
  | checking | sending | unwinding | unlocking | leaving => rfl

theorem answer_readingData (hd : response.data = [])
    (hr : requests = [] ∨ s.readingData = []) :
    (s.answer requests response).readingData = s.readingData := by
  obtain rfl | hr := hr
  · rw [answer_nil]
  · rw [hr]
    cases hp : (s.answer requests response).reading with
    | none => rw [Bridge.readingData, hp, Option.elim_none]
    | some call =>
      rw [Bridge.readingData_of hp]
      obtain ⟨pc, hp', heq | ⟨_, _, _, _, heq⟩⟩ := answer_reading hp
      · rw [heq, ← Bridge.readingData_of hp', hr]
      · rw [heq]
        exact hd

theorem accounts_answer (h : Accounts body s) (hd : response.data = [])
    (hr : requests = [] ∨ s.readingData = []) (hw : worker.data = s.worker.data)
    (hs : worker.Serves ∨ queue ≠ [] ∧ ¬ worker.Over →
      s.worker.Serves ∨ s.queue ≠ [] ∧ ¬ s.worker.Over)
    (he : response.AtEof → Ended body s) (hn : ¬ worker.AtEof)
    (hf : worker.Collects → s.worker.Collects) :
    Accounts body { s.answer requests response with worker := worker, queue := queue } := by
  refine ⟨h.frames, fun ha => ?_, fun hw => absurd hw hn, fun i pc hp ha => ?_, h.completed,
    fun hw => h.fields (hf hw)⟩
  · have hdata := h.data (ha.imp whole_of_answer hs)
    rw [← hw, ← answer_readingData hd hr] at hdata
    exact hdata
  · obtain ⟨_, hp', rfl | ⟨_, _, _, _, rfl⟩⟩ := answer_reading hp
    · exact h.reading i pc hp' ha
    · exact he ha

/-- The worker is over, with the reply that it had. -/
theorem accounts_hang (hr : Requested s) (h : Accounts body s) (hw : s.worker = .running stage b)
    (ho : worker.Over) (hd : worker.data = []) (hn : ¬ worker.AtEof) (hf : ¬ worker.Collects) :
    Accounts body { s.answer stage.requests .closed with worker := worker } := by
  refine accounts_answer h rfl ?_ (by rw [hd, hw]; rfl) (fun ha => ?_) nofun hn
    fun hc => absurd hc hf
  · cases stage with
    | recv => exact .inl rfl
    | framing i => exact .inr (hr.readingData_eq (.inr (by rw [hw]; rfl)))
  · obtain hs | ⟨-, hnot⟩ := ha
    · cases worker <;> first | exact hs.elim | exact ho.elim
    · exact absurd ho hnot

theorem accounts_reply (hr : Requested s) (hst : Stopped s) (h : Accounts body s)
    (hw : s.worker = .replying i next) (hl : s.Listens i) :
    Accounts body { s.answer [i] (.sent (.ok next)) with
      worker := if next = none then .finished else .running .recv true
      log := .replied i :: s.log } := by
  have hhandles : s.worker.Handles i := by
    rw [hw]
    rfl
  have hdata := hr.readingData_eq (.inr hhandles)
  cases next with
  | none =>
    have hended := h.worker (by rw [hw]; trivial)
    have hanswer : Accounts body { s.answer [i] (.sent (.ok none)) with worker := .finished } :=
      accounts_answer h rfl (.inr hdata) (by rw [hw]; rfl)
        (fun ha => ha.elim False.elim fun hq => absurd trivial hq.2) (fun _ => hended) id
        False.elim
    exact accounts_log hanswer rfl
  | some bytes =>
    obtain ⟨response, polled, hp⟩ := hl
    have hnot : ¬ s.worker.Over := by
      rw [hw]
      exact id
    have haccount := h.data (.inl (whole_of_reading (hst.hopes i _ hp trivial hnot) hp id))
    rw [hdata, hw] at haccount
    have hp' : (s.answer [i] (.sent (.ok (some bytes)))).reading =
        some (i, .awaiting (.sent (.ok (some bytes))) polled) := by
      rw [Bridge.answer, hp, Option.map_some]
      simp only [List.mem_singleton, if_true]
    refine ⟨h.frames, fun _ => ?_, False.elim, fun j pc hj he => ?_, h.completed, fun _ => ?_⟩
    · change returnedData s.log ++ ((s.answer [i] (.sent (.ok (some bytes)))).readingData ++ []) = _
      rw [Bridge.readingData_of hp']
      exact haccount
    · cases hp'.symm.trans hj
      exact he.elim
    · exact h.fields (by rw [hw]; trivial)

theorem accounts_worker (hr : Requested s) (hst : Stopped s) (h : Accounts body s)
    (hs : WorkerStep body s s') : Accounts body s' := by
  cases hs with
  | @poll stage _ hw hc =>
    cases stage with
    | recv | framing =>
      exact accounts_work h (by rw [hw]; exact id) (by rw [hw]; rfl) False.elim
        (by rw [hw]; exact id) fun _ hc => hc
  | interrupt hw hc => exact accounts_hang hr h hw trivial rfl id id
  | readError hw => exact accounts_stop h (by rw [hw]; rfl) trivial nofun id id fun _ hc => hc
  | pendRecv hw =>
    exact accounts_work h (by rw [hw]; exact id) (by rw [hw]; rfl) False.elim
      (by rw [hw]; exact id) fun _ hc => hc
  | recv hw hq =>
    refine accounts_work h (fun _ => .inr ⟨?_, by rw [hw]; exact id⟩) (by rw [hw]; rfl) False.elim
      (by rw [hw]; exact id) fun _ hc => hc
    rw [hq]
    nofun
  | recvClosed hw hq hl =>
    exact accounts_stop h (by rw [hw]; rfl) trivial nofun id id fun _ hc => hc
  | pendFrame hw =>
    exact accounts_polled h (by rw [hw]; trivial) (by rw [hw]; rfl) False.elim
      (by rw [hw]; exact id)
  | data hw hb =>
    refine accounts_frame hr h hw (by rw [hb]; trivial) (by rw [hb]; nofun) id
      (dataFrames_data hb) ?_
    rw [h.fields (by rw [hw]; trivial), trailerFields_data hb]
  | trailers hw hb =>
    refine accounts_frame hr h hw (by rw [hb]; trivial) (by rw [hb]; nofun) (by rw [hw]; exact id)
      ?_ ?_
    · rw [dataFrames_trailers hb, hw]
      exact (List.append_nil _).symm
    · rw [h.fields (by rw [hw]; trivial), trailerFields_trailers hb, HeaderMap.appendAll,
        HeaderMap.appendAll, HeaderMap.appendAll, List.foldl_append]
  | error hw hb =>
    exact accounts_polled h (by rw [hw]; trivial) (by rw [hw]; rfl) False.elim False.elim
  | eof hw hb =>
    have hserves : s.worker.Serves := by
      rw [hw]
      trivial
    exact accounts_polled h hserves (by rw [hw]; rfl) (fun _ => ⟨hb, h.serving hr hserves⟩)
      (by rw [hw]; exact id)
  | publish hw =>
    have hended := h.worker (by rw [hw]; trivial)
    have hfields := h.fields (by rw [hw]; trivial)
    have hdata := h.data (.inr (.inl (by rw [hw]; trivial)))
    rw [hw] at hdata
    refine ⟨h.frames, fun _ => hdata, fun _ => hended, h.reading, ?_, nofun⟩
    rintro _ ⟨⟩
    exact ⟨hended, hfields⟩
  | reply hw hl => exact accounts_reply hr hst h hw hl
  | replyLost hw hl => exact accounts_replyLost hr h hw hl
  | @refuse error _ i hw =>
    have hanswer : Accounts body { s.answer [i] (.sent (.error error)) with
        worker := .failing error } :=
      accounts_answer h rfl (.inr (hr.readingData_eq (.inr (by rw [hw]; rfl)))) (by rw [hw]; rfl)
        (fun ha => ha.elim False.elim fun hq => absurd trivial hq.2) nofun id False.elim
    exact accounts_log hanswer rfl
  | fail hw => exact accounts_stop h (by rw [hw]; rfl) trivial nofun id id fun _ hc => hc
  | complete hw => exact accounts_stop h (by rw [hw]; rfl) trivial nofun id id nofun
  | finish hw =>
    refine accounts_answer h rfl ?_ (by rw [hw]; rfl)
      (fun ha => ha.elim False.elim fun hq => absurd rfl hq.1) nofun id False.elim
    by_cases hq : s.queue = []
    · exact .inl hq
    · obtain ⟨i, hi⟩ := List.exists_mem_of_ne_nil s.queue hq
      exact .inr (hr.readingData_eq (.inl hi))
  | drop hw => exact accounts_hang hr h hw trivial rfl id id

end Answers

end Accounts

section Delivery
variable {I J : Type} {body : Nat → PollFrame} {s s' : Bridge I J}

/-- The history of the bridge, newest event first, is that of a reader of `body`. -/
structure Received (body : Nat → PollFrame) (log : List (BridgeEvent I J)) : Prop where
  data : ∃ n, Frames body n ∧ returnedData log = dataFrames body n
  eof : ∀ later i earlier, log = later ++ .returned i (.ok none) :: earlier →
    ∃ n, Frames body n ∧ body n = .none ∧ returnedData earlier = dataFrames body n
  trailers : ∀ later j fields earlier, log = later ++ .trailers j (.ok fields) :: earlier →
    ∃ n, Frames body n ∧ body n = .none ∧
      fields = HeaderMap.appendAll [] (trailerFields body n) ∧
      ∀ name, fields.getAll name = (trailerFields body n).getAll name
  polled : ∀ later earlier, log = later ++ .polled :: earlier →
    ∃ i, .requested i ∈ earlier ∧ .replied i ∉ earlier
  stops : ∀ later e earlier, log = later ++ e :: earlier → e.Stops →
    ∀ i bytes, .returned i (.ok (some bytes)) ∉ later

theorem returnedData_of_lawful {log : List (BridgeEvent I J)} (h : Lawful (BridgeLaw body) log) :
    ∃ n, Frames body n ∧ returnedData log = dataFrames body n := by
  induction log with
  | nil => exact ⟨0, nofun, rfl⟩
  | cons e log ih =>
    have hlog := ih h.2
    cases e with
    | returned i result =>
      cases result with
      | error _ => exact hlog
      | ok next =>
        cases next with
        | none => exact hlog
        | some bytes => exact h.1.2
    | requested | polled | replied | refused | dropped | trailers => exact hlog

theorem received_of_lawful {log : List (BridgeEvent I J)} (h : Lawful (BridgeLaw body) log) :
    Received body log where
  data := returnedData_of_lawful h
  eof later _ earlier heq := by
    rw [heq] at h
    exact h.law
  trailers later _ fields earlier heq := by
    rw [heq] at h
    obtain ⟨n, hframes, hend, rfl⟩ := h.law
    exact ⟨n, hframes, hend, rfl, fun name => HeaderMap.getAll_appendAll name [] _⟩
  polled later earlier heq := by
    rw [heq] at h
    exact h.law
  stops later e earlier heq he i bytes hm := by
    obtain ⟨later₁, later₂, rfl⟩ := List.append_of_mem hm
    rw [heq, List.append_assoc, List.cons_append] at h
    exact h.law.1 e (List.mem_append_right later₂ List.mem_cons_self) he

/-- All that holds of the bridge along a run. -/
structure Sound (body : Nat → PollFrame) (s : Bridge I J) : Prop where
  requested : Requested s
  stopped : Stopped s
  accounts : Accounts body s
  lawful : Lawful (BridgeLaw body) s.log

theorem bridge_idle (state : OperationState) (i : I) : ¬ (bridge I J state).Pending i := by
  rintro (hi | hi)
  · cases hi
  · exact hi

theorem bridge_clean (state : OperationState) : (bridge I J state).Clean := by
  intro e hm
  cases hm

theorem bridge_sound (state : OperationState) : Sound body (bridge I J state) where
  requested :=
    { single := Nat.zero_le 1
      alternates := fun _ _ => rfl
      logged := fun i hi => absurd hi (bridge_idle state i)
      replied := fun _ hm => by cases hm
      called := fun _ _ hp => by cases hp
      before := fun _ _ hp => by cases hp
      awaited := fun i hi => absurd hi (bridge_idle state i)
      alone := fun _ _ hp => by cases hp }
  stopped :=
    { error := fun _ he => by cases he
      failed := fun _ _ hp => by cases hp
      leaving := fun _ _ hp => by cases hp
      stopped := fun hc => absurd (bridge_clean state) hc
      hopes := fun _ _ _ _ _ => bridge_clean state
      data := fun _ _ _ _ => bridge_clean state }
  accounts :=
    { frames := fun _ hm => absurd hm (Nat.not_lt_zero _)
      data := fun _ => rfl
      worker := fun hw => hw.elim
      reading := fun _ _ hp => by cases hp
      completed := fun _ hc => by cases hc
      fields := fun _ => rfl }
  lawful := trivial

theorem lawful_next (h : Sound body s) (hs : NextStep s s') : Lawful (BridgeLaw body) s'.log := by
  cases hs with
  | refuse | dropSend | request | drop => exact ⟨trivial, h.lawful⟩
  | lock | completed | begin | pollSend | giveUpSend | pendSend | hangUp | poll | giveUp | pend
    | receive | lost | unwind | unlock => exact h.lawful
  | @leave result _ i hp =>
    refine ⟨?_, h.lawful⟩
    cases result with
    | error _ => trivial
    | ok next =>
      cases next with
      | none => exact ⟨s.taken, h.accounts.frames, h.accounts.reading i _ hp trivial⟩
      | some bytes =>
        have hclean := h.stopped.data i _ hp trivial
        have hdata := h.accounts.data (.inl (whole_of_reading hclean hp id))
        have hidle : s.worker.data = [] :=
          WorkerPc.data_of_idle fun j hj => h.requested.alone i _ hp trivial j (.inr hj)
        rw [Bridge.readingData_of hp, hidle, List.append_nil] at hdata
        exact ⟨hclean, s.taken, h.accounts.frames, hdata⟩

theorem lawful_worker [DecidableEq I] (h : Sound body s) (hs : WorkerStep body s s') :
    Lawful (BridgeLaw body) s'.log := by
  cases hs with
  | poll | interrupt | readError | pendRecv | recv | recvClosed | publish | fail | complete
    | finish | drop => exact h.lawful
  | reply | replyLost | refuse => exact ⟨trivial, h.lawful⟩
  | @pendFrame _ i hw | @data _ _ i hw | @trailers _ _ i hw | @error _ _ i hw | @eof _ i hw =>
    obtain ⟨hrequested, hreplied, -⟩ := h.requested.logged i (.inr (by rw [hw]; rfl))
    exact ⟨⟨i, hrequested, hreplied⟩, h.lawful⟩

variable [DecidableEq I] [DecidableEq J]

theorem sound_step (h : Sound body s) (hs : BridgeStep body s e s') : Sound body s' := by
  cases hs with
  | next hs =>
    exact ⟨requested_next h.requested hs, stopped_next h.stopped hs,
      accounts_next h.requested h.stopped h.accounts hs, lawful_next h hs⟩
  | owner hs =>
    obtain ⟨watching, reader, state, hc, hs⟩ := ownerStep_cases hs
    have howner : Sound body { s with watching := watching, reader := reader, state := state } :=
      ⟨requested_owner h.requested hc, stopped_owner h.stopped hc, accounts_owner h.accounts,
        h.lawful⟩
    obtain rfl | ⟨j, result, rfl, hresult⟩ := hs
    · exact howner
    · refine ⟨requested_log howner.requested nofun, stopped_log howner.stopped id,
        accounts_log howner.accounts rfl, ?_, h.lawful⟩
      cases result with
      | error _ => trivial
      | ok fields =>
        obtain ⟨⟨hend, -⟩, hfields⟩ := h.accounts.completed fields (hresult fields rfl)
        exact ⟨s.taken, h.accounts.frames, hend, hfields⟩
  | worker hs =>
    exact ⟨requested_worker h.requested hs, stopped_worker h.stopped hs,
      accounts_worker h.requested h.stopped h.accounts hs, lawful_worker h hs⟩

theorem bridge_receives (h : Reaches (BridgeStep body) (fun _ _ => True) (bridge I J state) s) :
    Received body s.log :=
  received_of_lawful (h.invariant (bridge_sound state) fun _ _ _ hs _ => sound_step hs).lawful

def oneFrame : Nat → PollFrame
  | 0 => .data [1]
  | 1 => .trailers [(['x'], [2])]
  | _ => .none

theorem bridge_receives_oneFrame :
    ∃ s, Reaches (BridgeStep oneFrame) (fun _ _ => True) (bridge Nat Unit .new) s ∧
      s.log.head? = some (.trailers () (.ok [(['x'], [2])])) ∧ returnedData s.log = [[1]] ∧
        Received oneFrame s.log := by
  have h := @Reaches.refl _ Unit (BridgeStep oneFrame) (fun _ _ => True) (bridge Nat Unit .new)
  have h := h.tail (e := ()) trivial (.next (.lock (i := 0) List.not_mem_nil rfl rfl))
  have h := h.tail (e := ()) trivial (.next (.begin rfl rfl))
  have h := h.tail (e := ()) trivial (.next (.pollSend rfl rfl))
  have h := h.tail (e := ()) trivial (.next (.request rfl nofun Nat.zero_lt_one))
  have h := h.tail (e := ()) trivial (.worker (.poll rfl rfl))
  have h := h.tail (e := ()) trivial (.worker (.recv rfl rfl))
  have h := h.tail (e := ()) trivial (.worker (.data rfl rfl))
  have h := h.tail (e := ()) trivial (.worker (.reply rfl ⟨_, _, rfl⟩))
  have h := h.tail (e := ()) trivial (.next (.receive rfl))
  have h := h.tail (e := ()) trivial (.next (.leave rfl))
  have h := h.tail (e := ()) trivial (.next (.lock (i := 1) (by decide) rfl rfl))
  have h := h.tail (e := ()) trivial (.next (.begin rfl rfl))
  have h := h.tail (e := ()) trivial (.next (.pollSend rfl rfl))
  have h := h.tail (e := ()) trivial (.next (.request rfl nofun Nat.zero_lt_one))
  have h := h.tail (e := ()) trivial (.worker (.recv rfl rfl))
  have h := h.tail (e := ()) trivial (.worker (.trailers rfl rfl))
  have h := h.tail (e := ()) trivial (.worker (.eof rfl rfl))
  have h := h.tail (e := ()) trivial (.worker (.publish rfl))
  have h := h.tail (e := ()) trivial (.worker (.reply rfl ⟨_, _, rfl⟩))
  have h := h.tail (e := ()) trivial (.next (.receive rfl))
  have h := h.tail (e := ()) trivial (.next (.leave rfl))
  have h := h.tail (e := ()) trivial (.owner (.start (j := ()) rfl rfl))
  have h := h.tail (e := ()) trivial (.owner (.completed (j := ()) rfl rfl))
  exact ⟨_, h, rfl, rfl, bridge_receives h⟩

end Delivery

end Dhttp.Api
