import Dhttp.Api.ReceiveBridge

namespace Dhttp.Api
open Dhttp.Lib
set_option autoImplicit true

namespace PollFrame

def bytes? : PollFrame → Option Bytes
  | data bytes => some bytes
  | _ => Option.none

def fields : PollFrame → HeaderMap
  | trailers fields => fields
  | _ => []

def IsFrame : PollFrame → Prop
  | data _ | trailers _ => True
  | none | error _ => False

end PollFrame

/-- The body gives at least `n` frames. -/
def Frames (body : Nat → PollFrame) (n : Nat) : Prop := ∀ m < n, (body m).IsFrame

/-- The data of the first `n` frames. -/
def dataFrames (body : Nat → PollFrame) (n : Nat) : List Bytes :=
  (List.range n).filterMap fun m => (body m).bytes?

/-- The trailer fields of the first `n` frames. -/
def trailerFields (body : Nat → PollFrame) (n : Nat) : HeaderMap :=
  (List.range n).flatMap fun m => (body m).fields

theorem Frames.succ (h : Frames body n) (hb : (body n).IsFrame) : Frames body (n + 1) := by
  intro m hm
  obtain hm | rfl := Nat.lt_succ_iff_lt_or_eq.1 hm
  · exact h m hm
  · exact hb

theorem dataFrames_data (hb : body n = .data bytes) :
    dataFrames body (n + 1) = dataFrames body n ++ [bytes] := by
  simp [dataFrames, List.range_succ, hb, PollFrame.bytes?]

theorem dataFrames_trailers (hb : body n = .trailers fields) :
    dataFrames body (n + 1) = dataFrames body n := by
  simp [dataFrames, List.range_succ, hb, PollFrame.bytes?]

theorem trailerFields_data (hb : body n = .data bytes) :
    trailerFields body (n + 1) = trailerFields body n := by
  simp [trailerFields, List.range_succ, hb, PollFrame.fields]

theorem trailerFields_trailers (hb : body n = .trailers fields) :
    trailerFields body (n + 1) = trailerFields body n ++ fields := by
  simp [trailerFields, List.range_succ, hb, PollFrame.fields]

variable {I J : Type}

/-- A `next` ends without data and without EOF. -/
def BridgeEvent.Stops : BridgeEvent I J → Prop
  | returned _ (.error _) | dropped _ => True
  | _ => False

/-- The data that `next` has returned. -/
def returnedData : List (BridgeEvent I J) → List Bytes
  | [] => []
  | .returned _ (.ok (some bytes)) :: log => returnedData log ++ [bytes]
  | _ :: log => returnedData log

def BridgeLaw (body : Nat → PollFrame) :
    BridgeEvent I J → List (BridgeEvent I J) → Prop
  | .polled, log => ∃ i, .requested i ∈ log ∧ .replied i ∉ log
  | .returned _ (.ok (some bytes)), log => (∀ e ∈ log, ¬ e.Stops) ∧
    ∃ n, Frames body n ∧ returnedData log ++ [bytes] = dataFrames body n
  | .returned _ (.ok none), log =>
    ∃ n, Frames body n ∧ body n = .none ∧ returnedData log = dataFrames body n
  | .trailers _ (.ok fields), _ => ∃ n, Frames body n ∧ body n = .none ∧
    fields = HeaderMap.appendAll [] (trailerFields body n)
  | _, _ => True

/-- The worker polls the body no more. -/
def WorkerPc.Over : WorkerPc I → Prop
  | interrupted | failing _ | completing _ | finished | gone => True
  | _ => False

/-- The request has been received and not been replied to. -/
def WorkerPc.Handles : WorkerPc I → I → Prop
  | running (.framing j) _, i | publishing j, i | replying j _, i | refusing j _, i => j = i
  | _, _ => False

/-- The worker has all data that it has read. -/
def WorkerPc.Serves : WorkerPc I → Prop
  | running (.framing _) _ | publishing _ | replying _ none => True
  | _ => False

/-- The worker collects the trailers. -/
def WorkerPc.Collects : WorkerPc I → Prop
  | running _ _ | publishing _ | replying _ (some _) => True
  | _ => False

namespace Response

def IsSent : Response → Prop
  | sent _ => True
  | pending | closed => False

def HasData : Response → Prop
  | sent (.ok (some _)) => True
  | _ => False

def data : Response → List Bytes
  | sent (.ok (some bytes)) => [bytes]
  | _ => []

def AtEof : Response → Prop
  | sent (.ok none) => True
  | _ => False

def Failed : Response → Prop
  | sent (.error _) | closed => True
  | _ => False

end Response

namespace ReadPc

/-- The call has not sent its request. -/
def Before : ReadPc → Prop
  | checking | sending _ => True
  | _ => False

/-- No request is with the worker. -/
def Alone : ReadPc → Prop
  | awaiting response _ => response.IsSent
  | sending true | leaving (.ok (some _)) => True
  | _ => False

/-- The call gets data if the worker goes on. -/
def Hopes : ReadPc → Prop
  | sending true | awaiting _ _ => True
  | _ => False

/-- Data is under way to the call. -/
def HasData : ReadPc → Prop
  | awaiting response _ => response.HasData
  | leaving (.ok (some _)) => True
  | _ => False

def data : ReadPc → List Bytes
  | awaiting response _ => response.data
  | leaving (.ok (some bytes)) => [bytes]
  | _ => []

/-- The call has learnt that the body has ended. -/
def AtEof : ReadPc → Prop
  | awaiting response _ => response.AtEof
  | leaving (.ok none) => True
  | _ => False

/-- The call has learnt that the worker is over. -/
def Failed : ReadPc → Prop
  | awaiting response _ => response.Failed
  | _ => False

def IsError : ReadPc → Prop
  | leaving (.error _) => True
  | _ => False

end ReadPc

namespace Bridge

/-- The request is with the worker, and there is no reply. -/
def Pending (s : Bridge I J) (i : I) : Prop := i ∈ s.queue ∨ s.worker.Handles i

/-- Every `next` that has ended has returned data or EOF. -/
def Clean (s : Bridge I J) : Prop := ∀ e ∈ s.log, ¬ e.Stops

/-- Nor is a `next` about to return an error. -/
def Whole (s : Bridge I J) : Prop :=
  s.Clean ∧ ∀ i pc, s.reading = some (i, pc) → ¬ pc.IsError

end Bridge

section Requests
variable {s s' : Bridge I J}

/-- The worker has one request at a time. Its call awaits the reply, or no call gets past the
cancellation check any more. -/
structure Requested (s : Bridge I J) : Prop where
  single : s.queue.length ≤ 1
  alternates : ∀ i, s.worker.Handles i → s.queue = []
  logged : ∀ i, s.Pending i → .requested i ∈ s.log ∧ .replied i ∉ s.log ∧ i ∈ s.called
  replied : ∀ i, .replied i ∈ s.log → i ∈ s.called
  called : ∀ i pc, s.reading = some (i, pc) → i ∈ s.called
  before : ∀ i pc, s.reading = some (i, pc) → pc.Before → ¬ s.Pending i ∧ .replied i ∉ s.log
  awaited : ∀ i, s.Pending i → (∃ polled, s.reading = some (i, .awaiting .pending polled)) ∨
    ¬ s.Whole ∧ (s.state.cancelled = true ∨ s.reading = some (i, .unwinding))
  alone : ∀ i pc, s.reading = some (i, pc) → pc.Alone → ∀ j, ¬ s.Pending j

theorem whole_of_reading (hc : s.Clean) (hp : s.reading = some (i, pc)) (he : ¬ pc.IsError) :
    s.Whole := by
  refine ⟨hc, fun j pc' hj => ?_⟩
  cases hp.symm.trans hj
  exact he

theorem whole_of_none (hc : s.Clean) (hp : s.reading = none) : s.Whole :=
  ⟨hc, fun _ _ hj => absurd (hp.symm.trans hj) nofun⟩

/-- A call goes on, and everything else stays. -/
theorem requested_go (h : Requested s) (hp : s.reading = some (i, p)) (hn : ¬ p.IsError)
    (hu : p ≠ .unwinding) (hb : p'.Before → p.Before) (ha : p'.Alone → ∀ j, ¬ s.Pending j)
    (hw : ∀ polled, p = .awaiting .pending polled → (∃ polled, p' = .awaiting .pending polled) ∨
      (p'.IsError ∨ ¬ s.Clean) ∧ (s.state.cancelled = true ∨ p' = .unwinding)) :
    Requested (s.go i p') := by
  refine ⟨h.single, h.alternates, h.logged, h.replied, ?_, ?_, fun j hj => ?_, ?_⟩
  · rintro _ _ ⟨⟩
    exact h.called i p hp
  · rintro _ _ ⟨⟩ hbefore
    exact h.before i p hp (hb hbefore)
  · obtain ⟨polled, hreading⟩ | ⟨hwhole, hstop⟩ := h.awaited j hj
    · cases hp.symm.trans hreading
      obtain ⟨polled', rfl⟩ | ⟨he, hc⟩ := hw polled rfl
      · exact .inl ⟨polled', rfl⟩
      · refine .inr ⟨fun hwhole => ?_, hc.imp_right fun hu => by rw [hu]; rfl⟩
        exact he.elim (hwhole.2 i p' rfl) fun hclean => hclean hwhole.1
    · refine .inr ⟨fun hwhole' => hwhole (whole_of_reading hwhole'.1 hp hn), .inl ?_⟩
      refine hstop.resolve_right fun hunwinding => ?_
      cases hp.symm.trans hunwinding
      exact hu rfl
  · rintro _ _ ⟨⟩ halone
    exact ha halone

theorem clean_of_cons {log : List (BridgeEvent I J)} (h : ∀ e' ∈ e :: log, ¬ e'.Stops) :
    ∀ e' ∈ log, ¬ e'.Stops := fun e' hm => h e' (List.mem_cons_of_mem e hm)

theorem requested_log (h : Requested s) (he : ∀ i, e ≠ .replied i) :
    Requested { s with log := e :: s.log } := by
  have hreplied : ∀ i, BridgeEvent.replied i ∈ e :: s.log → .replied i ∈ s.log := by
    intro i hm
    exact (List.mem_cons.1 hm).resolve_left fun heq => he i heq.symm
  refine ⟨h.single, h.alternates, fun i hi => ?_, fun i hm => h.replied i (hreplied i hm), h.called,
    fun i pc hp hb => ?_, fun i hi => ?_, h.alone⟩
  · obtain ⟨hrequested, hnot, hcalled⟩ := h.logged i hi
    exact ⟨List.mem_cons_of_mem e hrequested, fun hm => hnot (hreplied i hm), hcalled⟩
  · obtain ⟨hpending, hnot⟩ := h.before i pc hp hb
    exact ⟨hpending, fun hm => hnot (hreplied i hm)⟩
  · refine (h.awaited i hi).imp_right fun ⟨hwhole, hstop⟩ => ⟨fun hwhole' => hwhole ?_, hstop⟩
    exact ⟨clean_of_cons hwhole'.1, hwhole'.2⟩

theorem not_clean_of_mem (hm : e ∈ s.log) (he : e.Stops) : ¬ s.Clean := fun hclean =>
  hclean e hm he

theorem requested_unlock (h : Requested s) (hp : s.reading = some (i, p))
    (hw : ∀ polled, p ≠ .awaiting .pending polled) (hu : p ≠ .unwinding)
    (hn : p.IsError → ¬ s.Clean) : Requested { s with reading := none } := by
  refine ⟨h.single, h.alternates, h.logged, h.replied, nofun, nofun, fun j hj => .inr ?_, nofun⟩
  obtain ⟨polled, hreading⟩ | ⟨hwhole, hstop⟩ := h.awaited j hj
  · cases hp.symm.trans hreading
    exact absurd rfl (hw polled)
  · refine ⟨fun hwhole' => hwhole (whole_of_reading hwhole'.1 hp fun he => hn he hwhole'.1),
      .inl ?_⟩
    refine hstop.resolve_right fun hreading => ?_
    cases hp.symm.trans hreading
    exact hu rfl

theorem requested_next (h : Requested s) (hs : NextStep s s') : Requested s' := by
  cases hs with
  | @refuse _ i hi hr hl =>
    have hlog := requested_log (e := .refused i) h nofun
    exact ⟨hlog.single, hlog.alternates,
      fun j hj => (hlog.logged j hj).imp_right (.imp_right (List.mem_cons_of_mem i)),
      fun j hj => List.mem_cons_of_mem i (hlog.replied j hj),
      fun j pc hj => List.mem_cons_of_mem i (hlog.called j pc hj), hlog.before, hlog.awaited,
      hlog.alone⟩
  | @lock _ i hi hr hl =>
    refine ⟨h.single, h.alternates,
      fun j hj => (h.logged j hj).imp_right (.imp_right (List.mem_cons_of_mem i)),
      fun j hj => List.mem_cons_of_mem i (h.replied j hj), ?_, ?_, fun j hj => .inr ?_, ?_⟩
    · rintro _ _ ⟨⟩
      exact List.mem_cons_self
    · rintro _ _ ⟨⟩ -
      exact ⟨fun hj => hi (h.logged i hj).2.2, fun hj => hi (h.replied i hj)⟩
    · obtain ⟨polled, hreading⟩ | ⟨hwhole, hstop⟩ := h.awaited j hj
      · exact absurd (hl.symm.trans hreading) nofun
      · refine ⟨fun hwhole' => hwhole (whole_of_none hwhole'.1 hl), .inl ?_⟩
        exact hstop.resolve_right fun hreading => absurd (hl.symm.trans hreading) nofun
    · rintro _ _ ⟨⟩ halone
      exact halone.elim
  | @completed result _ i hp hc =>
    refine requested_go h hp id nofun nofun (fun ha => ?_) nofun
    cases result with
    | error _ | ok _ => exact ha.elim
  | begin hp hc => exact requested_go h hp id nofun (fun _ => trivial) nofun nofun
  | pollSend hp hc =>
    refine requested_go h hp id nofun (fun _ => trivial) (fun _ j hj => ?_) nofun
    obtain ⟨polled, hreading⟩ | ⟨-, hcancelled | hreading⟩ := h.awaited j hj
    · exact absurd (hp.symm.trans hreading) nofun
    · exact absurd (hc.symm.trans hcancelled) nofun
    · exact absurd (hp.symm.trans hreading) nofun
  | giveUpSend hp hc => exact requested_go h hp id nofun nofun nofun nofun
  | pendSend hp => exact requested_go h hp id nofun (fun _ => trivial) nofun nofun
  | @dropSend _ i hp =>
    exact requested_go (requested_log (e := .dropped i) h nofun) hp id nofun nofun nofun nofun
  | @request _ i hp hw hq =>
    have hidle := h.alone i _ hp trivial
    have hnil := List.length_eq_zero_iff.1 (Nat.lt_one_iff.1 hq)
    have hpending : ∀ j, j ∈ s.queue ++ [i] ∨ s.worker.Handles j → j = i := by
      rintro j (hj | hj)
      · rw [hnil] at hj
        exact List.mem_singleton.1 hj
      · exact absurd (.inr hj) (hidle j)
    refine ⟨?_, fun j hj => absurd (.inr hj) (hidle j), fun j hj => ?_, fun j hj => ?_, ?_, ?_,
      fun j hj => ?_, ?_⟩
    · change (s.queue ++ [i]).length ≤ 1
      rw [hnil]
      exact Nat.le_refl 1
    · rw [hpending j hj]
      refine ⟨List.mem_cons_self, fun hm => ?_, h.called i _ hp⟩
      exact (h.before i _ hp trivial).2 ((List.mem_cons.1 hm).resolve_left nofun)
    · exact h.replied j ((List.mem_cons.1 hj).resolve_left nofun)
    · rintro _ _ ⟨⟩
      exact h.called i _ hp
    · rintro _ _ ⟨⟩ hbefore
      exact hbefore.elim
    · rw [hpending j hj]
      exact .inl ⟨true, rfl⟩
    · rintro _ _ ⟨⟩ halone
      exact halone.elim
  | hangUp hp hw => exact requested_go h hp id nofun nofun nofun nofun
  | @poll _ _ i hp hc =>
    have halone := h.alone i _ hp
    refine requested_go h hp id nofun nofun halone ?_
    rintro _ ⟨⟩
    exact .inl ⟨true, rfl⟩
  | giveUp hp hc =>
    exact requested_go h hp id nofun nofun nofun fun _ _ => .inr ⟨.inl trivial, .inl hc⟩
  | @pend _ _ i hp =>
    have halone := h.alone i _ hp
    refine requested_go h hp id nofun nofun halone ?_
    rintro _ ⟨⟩
    exact .inl ⟨false, rfl⟩
  | @drop _ _ i hp =>
    refine requested_go (requested_log (e := .dropped i) h nofun) hp id nofun nofun nofun ?_
    exact fun _ _ => .inr ⟨.inr (not_clean_of_mem List.mem_cons_self trivial), .inr rfl⟩
  | @receive _ _ i hp =>
    exact requested_go h hp id nofun nofun (fun _ => h.alone i _ hp trivial) nofun
  | lost hp => exact requested_go h hp id nofun nofun nofun nofun
  | @unwind _ i hp =>
    refine ⟨h.single, h.alternates, h.logged, h.replied, ?_, ?_, fun j hj => .inr ?_, ?_⟩
    · rintro _ _ ⟨⟩
      exact h.called i _ hp
    · rintro _ _ ⟨⟩ hbefore
      exact hbefore.elim
    · obtain ⟨polled, hreading⟩ | ⟨hwhole, -⟩ := h.awaited j hj
      · exact absurd (hp.symm.trans hreading) nofun
      · exact ⟨fun hwhole' => hwhole (whole_of_reading hwhole'.1 hp id), .inl rfl⟩
    · rintro _ _ ⟨⟩ halone
      exact halone.elim
  | unlock hp => exact requested_unlock h hp nofun nofun nofun
  | @leave result _ i hp =>
    refine requested_unlock (requested_log (e := .returned i result) h nofun) hp nofun nofun ?_
    intro he
    cases result with
    | error _ => exact not_clean_of_mem List.mem_cons_self trivial
    | ok _ => exact he.elim

/-- All that the owner's steps do to the bridge. -/
theorem ownerStep_cases [DecidableEq J] (hs : OwnerStep s s') : ∃ watching reader state,
    (s.state.cancelled = true → state.cancelled = true) ∧
      (s' = { s with watching := watching, reader := reader, state := state } ∨ ∃ j result,
        s' = { s with
          watching := watching, reader := reader, state := state
          log := .trailers j result :: s.log } ∧
        ∀ fields, result = .ok fields → s.completion = some (.ok fields)) := by
  cases hs with
  | start | wait | poll | pend | changed | dropTrailers | drop =>
    exact ⟨_, _, _, id, .inl rfl⟩
  | completed hp hc => exact ⟨_, _, _, id, .inr ⟨_, _, rfl, fun _ hr => by rw [hc, hr]⟩⟩
  | giveUp | lost => exact ⟨_, _, _, id, .inr ⟨_, _, rfl, nofun⟩⟩
  | fail | cancelOwner | release => exact ⟨_, _, _, fun _ => rfl, .inl rfl⟩

theorem requested_owner (h : Requested s)
    (hc : s.state.cancelled = true → state.cancelled = true) :
    Requested { s with watching := watching, reader := reader, state := state } :=
  ⟨h.single, h.alternates, h.logged, h.replied, h.called, h.before,
    fun i hi => (h.awaited i hi).imp_right (.imp_right (.imp_left hc)), h.alone⟩

/-- The worker goes on, with the requests that it has. -/
theorem requested_work (h : Requested s) (hs : queue.length ≤ 1)
    (ha : ∀ i, worker.Handles i → queue = [])
    (hp : ∀ i, i ∈ queue ∨ worker.Handles i → s.Pending i)
    (hc : s.state.cancelled = true → state.cancelled = true) :
    Requested { s with
      worker := worker, queue := queue, taken := taken, fields := fields
      completion := completion, state := state } :=
  ⟨hs, ha, fun i hi => h.logged i (hp i hi), h.replied, h.called,
    fun i pc hi hb => (h.before i pc hi hb).imp_left fun hn hi => hn (hp i hi),
    fun i hi => (h.awaited i (hp i hi)).imp_right (.imp_right (.imp_left hc)),
    fun i pc hi hb j hj => h.alone i pc hi hb j (hp j hj)⟩

theorem requested_polled (h : Requested s) (hw : ∀ i, worker.Handles i → s.worker.Handles i) :
    Requested { s with
      worker := worker, taken := taken, fields := fields, log := .polled :: s.log } :=
  requested_log (e := .polled) (requested_work h h.single (fun i hi => h.alternates i (hw i hi))
    (fun i hi => hi.imp_right (hw i)) id) nofun

section Answers
variable [DecidableEq I]

theorem answer_reading (h : (s.answer requests response).reading = some (i, pc')) :
    ∃ pc, s.reading = some (i, pc) ∧ (pc' = pc ∨ ∃ current polled,
      pc = .awaiting current polled ∧ i ∈ requests ∧ pc' = .awaiting response polled) := by
  obtain ⟨⟨j, pc⟩, hreading, hcall⟩ := Option.map_eq_some_iff.1 h
  cases pc with
  | awaiting current polled =>
    obtain ⟨rfl, rfl⟩ := Prod.mk.inj hcall
    refine ⟨_, hreading, ?_⟩
    by_cases hj : j ∈ requests
    · rw [if_pos hj]
      exact .inr ⟨current, polled, rfl, hj, rfl⟩
    · rw [if_neg hj]
      exact .inl rfl
  | checking | sending | unwinding | unlocking | leaving =>
    obtain ⟨rfl, rfl⟩ := Prod.mk.inj hcall
    exact ⟨_, hreading, .inl rfl⟩

theorem answer_nil (s : Bridge I J) (response : Response) : s.answer [] response = s := by
  have hreading : (s.answer [] response).reading = s.reading := by
    rw [Bridge.answer]
    cases s.reading with
    | none => rfl
    | some call =>
      obtain ⟨i, pc⟩ := call
      cases pc with
      | awaiting current polled => simp only [Option.map_some, List.not_mem_nil, if_false]
      | checking | sending | unwinding | unlocking | leaving => rfl
  calc s.answer [] response
    _ = { s with reading := (s.answer [] response).reading } := rfl
    _ = s := by rw [hreading]

/-- No request is left with the worker. -/
theorem requested_answer (h : Requested s) (hq : queue = []) (ha : ∀ i, ¬ worker.Handles i)
    (hl : ∀ i, .replied i ∈ log → .replied i ∈ s.log ∨ s.Pending i) :
    Requested { s.answer requests response with worker := worker, queue := queue, log := log } := by
  subst hq
  have hnone : ∀ i, ¬ (i ∈ ([] : List I) ∨ worker.Handles i) := by
    rintro i (hi | hi)
    · cases hi
    · exact ha i hi
  refine ⟨Nat.zero_le 1, fun _ _ => rfl, fun i hi => absurd hi (hnone i), fun i hi => ?_,
    fun i pc hp => ?_, fun i pc hp hb => ⟨hnone i, fun hi => ?_⟩, fun i hi => absurd hi (hnone i),
    fun _ _ _ _ => hnone⟩
  · exact (hl i hi).elim (h.replied i) fun hp => (h.logged i hp).2.2
  · obtain ⟨pc, hp, -⟩ := answer_reading hp
    exact h.called i pc hp
  · obtain ⟨pc', hp', rfl | ⟨_, _, _, _, rfl⟩⟩ := answer_reading hp
    · obtain ⟨hpending, hreplied⟩ := h.before i pc hp' hb
      exact (hl i hi).elim hreplied hpending
    · exact hb.elim

theorem WorkerPc.Handles.polled (h : (running stage b).Handles i) (b' : Bool) :
    (running stage b').Handles i := by
  cases stage with
  | recv => exact h.elim
  | framing j => exact h

theorem requested_hang (h : Requested s) (hw : s.worker = .running stage b)
    (hn : ∀ i, ¬ worker.Handles i) :
    Requested { s.answer stage.requests .closed with worker := worker } := by
  cases stage with
  | recv =>
    rw [WorkerStage.requests, answer_nil]
    exact requested_work h h.single (fun i hi => absurd hi (hn i))
      (fun i hi => hi.imp_right fun hi => absurd hi (hn i)) id
  | framing i =>
    exact requested_answer h (h.alternates i (by rw [hw]; exact rfl)) hn fun _ hi => .inl hi

/-- The worker has used its reply. -/
theorem requested_replied (h : Requested s) (hw : s.worker.Handles i)
    (hn : ∀ j, ¬ worker.Handles j) :
    Requested { s.answer requests response with
      worker := worker, log := .replied i :: s.log } := by
  refine requested_answer h (h.alternates i hw) hn fun j hj => ?_
  obtain heq | hj := List.mem_cons.1 hj
  · rw [BridgeEvent.replied.inj heq]
    exact .inr (.inr hw)
  · exact .inl hj

theorem requested_worker (h : Requested s) (hs : WorkerStep body s s') : Requested s' := by
  cases hs with
  | poll hw hc =>
    exact requested_work h h.single (fun i hi => h.alternates i (by rw [hw]; exact hi.polled _))
      (fun i hi => hi.imp_right fun hi => by rw [hw]; exact hi.polled _) id
  | interrupt hw hc => exact requested_hang h hw nofun
  | readError hw => exact requested_work h h.single nofun (fun i hi => hi.imp_right nofun) id
  | pendRecv hw => exact requested_work h h.single nofun (fun i hi => hi.imp_right nofun) id
  | @recv queue _ i hw hq =>
    have hsingle := h.single
    rw [hq, List.length_cons] at hsingle
    obtain rfl := List.length_eq_zero_iff.1 (Nat.le_zero.1 (Nat.le_of_succ_le_succ hsingle))
    refine requested_work h (Nat.zero_le 1) (fun _ _ => rfl) ?_ id
    rintro j (hj | rfl)
    · cases hj
    · exact .inl (by rw [hq]; exact List.mem_cons_self)
  | recvClosed hw hq hr =>
    exact requested_work h h.single nofun (fun i hi => hi.imp_right nofun) id
  | pendFrame hw => exact requested_polled h fun i hi => by rw [hw]; exact hi
  | data hw hb => exact requested_polled h fun i hi => by rw [hw]; exact hi
  | trailers hw hb => exact requested_polled h fun _ hi => hi
  | error hw hb => exact requested_polled h fun i hi => by rw [hw]; exact hi
  | eof hw hb => exact requested_polled h fun i hi => by rw [hw]; exact hi
  | publish hw =>
    refine requested_work h h.single (fun i hi => h.alternates i ?_)
      (fun i hi => hi.imp_right fun hi => ?_) id
    all_goals rw [hw]; exact hi
  | @reply next _ i hw hl =>
    refine requested_replied h (by rw [hw]; exact rfl) fun j hj => ?_
    by_cases hnext : next = none
    · rw [if_pos hnext] at hj
      exact hj
    · rw [if_neg hnext] at hj
      exact hj
  | @replyLost _ _ i hw hl =>
    have hreplied : Requested { s.answer [] .closed with
        worker := .failing .ofCancelled, log := .replied i :: s.log } :=
      requested_replied h (by rw [hw]; exact rfl) nofun
    rw [answer_nil] at hreplied
    exact hreplied
  | refuse hw => exact requested_replied h (by rw [hw]; exact rfl) nofun
  | fail hw => exact requested_work h h.single nofun (fun i hi => hi.imp_right nofun) fun _ => rfl
  | complete hw => exact requested_work h h.single nofun (fun i hi => hi.imp_right nofun) id
  | finish hw => exact requested_answer h rfl nofun fun _ hi => .inl hi
  | drop hw => exact requested_hang h hw nofun

end Answers

end Requests

end Dhttp.Api
