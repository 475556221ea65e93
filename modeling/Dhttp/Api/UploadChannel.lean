import Dhttp.Api.Lifecycle
import Dhttp.Lib.Interleaving
import Mathlib.Data.List.Basic

namespace Dhttp.Api
open Dhttp.Lib
set_option autoImplicit true

/-- Header fields in order, duplicates kept. -/
abbrev HeaderMap := List (List Char × Bytes)

def chunkBytes : Nat := 16 * 1024

def queuedChunks : Nat := 4

/-- `slice::chunks`. -/
def chunks (n : Nat) (bytes : List α) : List (List α) :=
  if _h : n = 0 ∨ bytes = [] then [] else bytes.take n :: chunks n (bytes.drop n)
termination_by bytes.length
decreasing_by
  rw [not_or] at _h
  have hlength := List.length_pos_of_ne_nil _h.2
  rw [List.length_drop]
  omega

theorem chunks_nil (n : Nat) : chunks n ([] : List α) = [] := by
  rw [chunks, dif_pos (.inr rfl)]

theorem chunks_cons {bytes : List α} (hn : 0 < n) (hb : bytes ≠ []) :
    chunks n bytes = bytes.take n :: chunks n (bytes.drop n) := by
  rw [chunks, dif_neg (not_or.2 ⟨Nat.ne_of_gt hn, hb⟩)]

theorem chunks_append {n : Nat} {chunk : List α} (hn : 0 < n) (hc : chunk.length = n)
    (bytes : List α) : chunks n (chunk ++ bytes) = chunk :: chunks n bytes := by
  have hne : chunk ++ bytes ≠ [] := by
    refine List.append_ne_nil_of_left_ne_nil (List.ne_nil_of_length_pos ?_) bytes
    rw [hc]
    exact hn
  rw [chunks_cons hn hne, List.take_left' hc, List.drop_left' hc]

theorem chunks_flatten (hn : 0 < n) (bytes : List α) : (chunks n bytes).flatten = bytes := by
  induction bytes using chunks.induct n with
  | case1 bytes h =>
    rw [h.resolve_left (Nat.ne_of_gt hn), chunks_nil, List.flatten_nil]
  | case2 bytes h ih =>
    rw [chunks_cons hn fun hb => h (.inr hb), List.flatten_cons, ih, List.take_append_drop]

theorem chunks_length_le {n : Nat} {bytes : List α} (hm : chunk ∈ chunks n bytes) :
    chunk.length ≤ n := by
  induction bytes using chunks.induct n with
  | case1 bytes h =>
    rw [chunks, dif_pos h] at hm
    cases hm
  | case2 bytes h ih =>
    rw [chunks, dif_neg h] at hm
    obtain rfl | hm := List.mem_cons.1 hm
    · exact List.length_take_le n bytes
    · exact ih hm

inductive UploadFrame where
  | data (bytes : Bytes)
  | finish (trailers : HeaderMap)
  deriving DecidableEq

/-- What a call is made with. -/
inductive UploadCall where
  | send (bytes : Bytes)
  | finish (trailers : HeaderMap)

/-- What the awaited future of a call is at. -/
inductive UploadStage where
  | waiting
  | sending (rest : List Bytes)
  | finishing
  deriving DecidableEq

namespace UploadStage

/-- The call has the writer's lock. -/
def Holds : UploadStage → Prop
  | waiting => False
  | sending _ | finishing => True

/-- The future cannot go on without another party. -/
def Awaits (stage : UploadStage) : Prop := stage ≠ sending []

/-- The chunks that have not been enqueued. -/
def rest : UploadStage → List Bytes
  | sending rest => rest
  | waiting | finishing => []

end UploadStage

/-- Where a call is. `polled` says that its current poll has passed the cancellation check. -/
inductive UploadPc where
  | idle
  | running (stage : UploadStage) (polled : Bool)
  /-- The awaited future has been dropped, the guard is left. -/
  | unwinding
  | returned (result : Except Error Unit)
  | dropped

namespace UploadPc

def Holds : UploadPc → Prop
  | running stage _ => stage.Holds
  | _ => False

/-- The call does not borrow the writer. -/
def Over : UploadPc → Prop
  | idle | returned _ | dropped => True
  | running _ _ | unwinding => False

end UploadPc

/-- What a poll of the body yields. -/
inductive PollFrame where
  | data (bytes : Bytes)
  | trailers (trailers : HeaderMap)
  | none
  | error (error : Error)

/-- The writer, the channel and the body. On record: the sends in the order in which they got the
lock, those that have returned Ok, the finish that has enqueued its marker with the sends that had
returned Ok by then, and whether a send has given up with chunks left. -/
structure Upload (I : Type) where
  pc : I → UploadPc
  lock : Option I
  sender : Bool
  writer : Bool
  state : OperationState
  queue : List UploadFrame
  closed : Bool
  polled : Bool
  ended : Bool
  yielded : List PollFrame
  acquired : List I
  completed : List I
  marker : Option (I × List I)
  abandoned : Bool

def uploadChannel (I : Type) : Upload I where
  pc _ := .idle
  lock := none
  sender := true
  writer := true
  state := .new
  queue := []
  closed := false
  polled := false
  ended := false
  yielded := []
  acquired := []
  completed := []
  marker := none
  abandoned := false

def uploadFinished : Error := .new .closed "upload finished"

def consumerClosed : Error := .new .closed "upload consumer closed"

def writerDropped : Error := .new .producer "upload writer dropped before finish"

/-- The last frame of a finished upload. -/
def endFrame (trailers : HeaderMap) : PollFrame :=
  if trailers.isEmpty then .none else .trailers trailers

namespace Upload
variable {I : Type} [DecidableEq I]

def fail (s : Upload I) (error : Error) : Upload I := { s with state := s.state.fail error }

def go (s : Upload I) (i : I) (pc : UploadPc) : Upload I :=
  { s with pc := Function.update s.pc i pc }

/-- The awaited future of a call ends, and its lock is released. -/
def leave (s : Upload I) (i : I) (stage : UploadStage) (pc : UploadPc) : Upload I :=
  { s.go i pc with
    lock := if stage = .waiting then s.lock else none
    abandoned := s.abandoned || stage.rest ≠ [] }

end Upload

/-- Whether a step puts a frame into the queue. -/
inductive UploadEvent where
  | enqueue
  | other
  deriving DecidableEq

/-- One step of a call, of the writer or of the body, at the grain of the awaits; `call` says what
the calls are made with. -/
inductive UploadStep {I : Type} [DecidableEq I] (call : I → UploadCall) :
    Upload I → UploadEvent → Upload I → Prop
  | start (hp : s.pc i = .idle) (hw : s.writer = true) :
    UploadStep call s .other (s.go i (.running .waiting false))
  /-- A poll looks at the cancellation first. -/
  | poll (hp : s.pc i = .running stage false) (hc : s.state.cancelled = false) :
    UploadStep call s .other (s.go i (.running stage true))
  | giveUp (hp : s.pc i = .running stage false) (hc : s.state.cancelled = true) :
    UploadStep call s .other (s.leave i stage (.returned (.error s.state.error)))
  | pend (hp : s.pc i = .running stage true) (ha : stage.Awaits) :
    UploadStep call s .other (s.go i (.running stage false))
  | lockFinished (hp : s.pc i = .running .waiting true) (hl : s.lock = none)
      (hs : s.sender = false) :
    UploadStep call s .other (s.go i (.returned (.error uploadFinished)))
  | lockSend {i : I} {bytes : Bytes} (hp : s.pc i = .running .waiting true)
      (hl : s.lock = none) (hs : s.sender = true) (hi : call i = .send bytes) :
    UploadStep call s .other { s.go i (.running (.sending (chunks chunkBytes bytes)) true) with
      lock := some i
      acquired := s.acquired ++ [i] }
  | lockFinish {i : I} {trailers : HeaderMap} (hp : s.pc i = .running .waiting true)
      (hl : s.lock = none) (hs : s.sender = true) (hi : call i = .finish trailers) :
    UploadStep call s .other { s.go i (.running .finishing true) with lock := some i }
  /-- A permit is reserved and used at once. -/
  | enqueue {i : I} {chunk : Bytes} {rest : List Bytes}
      (hp : s.pc i = .running (.sending (chunk :: rest)) true) (ho : s.closed = false)
      (hq : s.queue.length < queuedChunks) :
    UploadStep call s .enqueue { s.go i (.running (.sending rest) true) with
      queue := s.queue ++ [.data chunk] }
  | complete {i : I} (hp : s.pc i = .running (.sending []) true) :
    UploadStep call s .other { s.leave i (.sending []) (.returned (.ok ())) with
      completed := s.completed ++ [i] }
  /-- The marker is enqueued, the sender goes, and the call returns. -/
  | mark {i : I} {trailers : HeaderMap} (hp : s.pc i = .running .finishing true)
      (hi : call i = .finish trailers) (ho : s.closed = false)
      (hq : s.queue.length < queuedChunks) :
    UploadStep call s .enqueue { s.leave i .finishing (.returned (.ok ())) with
      queue := s.queue ++ [.finish trailers]
      sender := false
      marker := some (i, s.completed) }
  | hangUp {i : I} {stage : UploadStage} (hp : s.pc i = .running stage true)
      (hs : stage.Holds) (ha : stage.Awaits) (ho : s.closed = true) :
    UploadStep call s .other (s.leave i stage (.returned (.error consumerClosed)))
  /-- The awaited future goes first, with the lock it has. -/
  | drop (hp : s.pc i = .running stage false) :
    UploadStep call s .other (s.leave i stage .unwinding)
  | unwind (hp : s.pc i = .unwinding) :
    UploadStep call s .other ((s.fail .ofCancelled).go i .dropped)
  | fail (hw : s.writer = true) : UploadStep call s .other (s.fail error)
  | dropWriter (hw : s.writer = true) (hp : ∀ i, (s.pc i).Over) :
    UploadStep call s .other { s with sender := false, writer := false }
  | pollEnded (hp : s.polled = false) (he : s.ended = true) :
    UploadStep call s .other { s with yielded := s.yielded ++ [.none] }
  | pollCancelled (hp : s.polled = false) (he : s.ended = false) (hc : s.state.cancelled = true) :
    UploadStep call s .other { s with
      ended := true
      closed := true
      yielded := s.yielded ++ [.error s.state.error] }
  | pollFrame (hp : s.polled = false) (he : s.ended = false) (hc : s.state.cancelled = false) :
    UploadStep call s .other { s with polled := true }
  | receiveData {chunk : Bytes} {queue : List UploadFrame} (hp : s.polled = true)
      (hq : s.queue = .data chunk :: queue) :
    UploadStep call s .other { s with
      polled := false
      queue := queue
      yielded := s.yielded ++ [.data chunk] }
  | receiveFinish {trailers : HeaderMap} {queue : List UploadFrame} (hp : s.polled = true)
      (hq : s.queue = .finish trailers :: queue) :
    UploadStep call s .other { s with
      polled := false
      queue := queue
      ended := true
      closed := true
      yielded := s.yielded ++ [endFrame trailers] }
  | receiveDropped (hp : s.polled = true) (hq : s.queue = []) (hs : s.sender = false) :
    UploadStep call s .other { s with
      polled := false
      ended := true
      yielded := s.yielded ++ [.error writerDropped] }
  | pendFrame (hp : s.polled = true) : UploadStep call s .other { s with polled := false }

end Dhttp.Api
