import Dhttp.Api.UploadChannel

namespace Dhttp.Api
open Dhttp.Lib
set_option autoImplicit true

namespace HeaderMap

/-- `HeaderMap::append`: a further value comes behind the values that its name has. -/
def append (name : List Char) (value : Bytes) : HeaderMap → HeaderMap
  | [] => [(name, value)]
  | field :: fields =>
    if field.1 = name ∧ ∀ other ∈ fields, other.1 ≠ name then field :: (name, value) :: fields
    else field :: append name value fields

def appendAll (fields more : HeaderMap) : HeaderMap :=
  more.foldl (fun fields field => append field.1 field.2 fields) fields

def getAll (name : List Char) (fields : HeaderMap) : List Bytes :=
  (fields.filter fun field => field.1 = name).map (·.2)

theorem getAll_cons (name : List Char) (field : List Char × Bytes) (fields : HeaderMap) :
    getAll name (field :: fields) =
      if field.1 = name then field.2 :: getAll name fields else getAll name fields := by
  rw [getAll, List.filter_cons]
  by_cases h : field.1 = name
  · rw [if_pos (decide_eq_true h), if_pos h, List.map_cons, getAll]
  · rw [if_neg (by rw [decide_eq_true_eq]; exact h), if_neg h, getAll]

theorem getAll_eq_nil (h : ∀ other ∈ fields, other.1 ≠ name) : getAll name fields = [] := by
  rw [getAll, List.filter_eq_nil_iff.2 fun other ho => by simpa using h other ho, List.map_nil]

theorem getAll_append (name name' : List Char) (value : Bytes) (fields : HeaderMap) :
    getAll name (append name' value fields) =
      getAll name fields ++ if name' = name then [value] else [] := by
  induction fields with
  | nil => rw [append, getAll_cons]; rfl
  | cons field fields ih =>
    by_cases h : field.1 = name' ∧ ∀ other ∈ fields, other.1 ≠ name'
    · rw [append, if_pos h, getAll_cons, getAll_cons, getAll_cons, h.1]
      by_cases hn : name' = name
      · simp [hn, getAll_eq_nil (hn ▸ h.2)]
      · simp [hn]
    · rw [append, if_neg h, getAll_cons, getAll_cons, ih]
      by_cases hn : field.1 = name
      · rw [if_pos hn, if_pos hn, List.cons_append]
      · rw [if_neg hn, if_neg hn]

/-- The values of a name stay in order, and none is lost. -/
theorem getAll_appendAll (name : List Char) (fields more : HeaderMap) :
    getAll name (appendAll fields more) = getAll name fields ++ getAll name more := by
  induction more generalizing fields with
  | nil => exact (List.append_nil _).symm
  | cons field more ih =>
    calc getAll name (appendAll fields (field :: more))
      _ = getAll name (append field.1 field.2 fields) ++ getAll name more := ih _
      _ = getAll name fields ++ getAll name (field :: more) := by
        rw [getAll_append, getAll_cons, List.append_assoc]
        by_cases hn : field.1 = name
        · rw [if_pos hn, if_pos hn, List.singleton_append]
        · rw [if_neg hn, if_neg hn, List.nil_append]

end HeaderMap

/-- The oneshot of a request, as its receiver sees it. -/
inductive Response where
  | pending
  | sent (result : Except Error (Option Bytes))
  | closed

/-- Where the `next` that has the lock is. `polled` says that its current poll has passed the
cancellation check. -/
inductive ReadPc where
  | checking
  | sending (polled : Bool)
  | awaiting (response : Response) (polled : Bool)
  /-- The awaited future has been dropped, the guard is left. -/
  | unwinding
  | unlocking
  | leaving (result : Except Error (Option Bytes))

/-- Where a `trailers` is. -/
inductive WatchPc where
  | idle
  | checking
  | waiting (polled : Bool)
  | over

inductive WorkerStage (I : Type) where
  | recv
  | framing (i : I)

def WorkerStage.requests : WorkerStage I → List I
  | recv => []
  | framing i => [i]

/-- Where the worker is, with the request whose reply it has. -/
inductive WorkerPc (I : Type) where
  | running (stage : WorkerStage I) (polled : Bool)
  | publishing (i : I)
  | replying (i : I) (next : Option Bytes)
  | refusing (i : I) (error : Error)
  | interrupted
  | failing (error : Error)
  | completing (error : Error)
  | finished
  | gone

inductive ReaderPc where
  | held
  | releasing
  | released
  deriving DecidableEq

inductive BridgeEvent (I J : Type) where
  | requested (i : I)
  /-- The body is polled. -/
  | polled
  | replied (i : I)
  /-- A `next` returns BodyInUse. -/
  | refused (i : I)
  | returned (i : I) (result : Except Error (Option Bytes))
  | dropped (i : I)
  | trailers (j : J) (result : Except Error HeaderMap)

/-- The reader, its calls and the worker. `taken` counts the frames that the worker has got from
the body. On record: the calls of `next` that have begun and, newest first, what happened. -/
structure Bridge (I J : Type) where
  reading : Option (I × ReadPc)
  watching : J → WatchPc
  reader : ReaderPc
  state : OperationState
  queue : List I
  worker : WorkerPc I
  taken : Nat
  fields : HeaderMap
  completion : Option (Except Error HeaderMap)
  called : List I
  log : List (BridgeEvent I J)

def bridge (I J : Type) (state : OperationState) : Bridge I J where
  reading := none
  watching _ := .idle
  reader := .held
  state := state
  queue := []
  worker := .running .recv false
  taken := 0
  fields := []
  completion := none
  called := []
  log := []

namespace Bridge
variable {I J : Type} [DecidableEq I]

def go (s : Bridge I J) (i : I) (pc : ReadPc) : Bridge I J := { s with reading := some (i, pc) }

/-- The receiver of the reply is there. -/
def Listens (s : Bridge I J) (i : I) : Prop :=
  ∃ response polled, s.reading = some (i, .awaiting response polled)

/-- The oneshots of these requests are used or dropped. -/
def answer (s : Bridge I J) (requests : List I) (response : Response) : Bridge I J :=
  { s with reading := s.reading.map fun
    | (i, .awaiting current polled) =>
      (i, .awaiting (if i ∈ requests then response else current) polled)
    | call => call }

end Bridge

section Steps
variable {I J : Type} [DecidableEq I] [DecidableEq J]

/-- A step of a `next`. -/
inductive NextStep : Bridge I J → Bridge I J → Prop
  | refuse {s : Bridge I J} {i : I} (hi : i ∉ s.called) (hr : s.reader = .held)
      (hl : s.reading ≠ none) :
    NextStep s { s with called := i :: s.called, log := .refused i :: s.log }
  | lock {s : Bridge I J} {i : I} (hi : i ∉ s.called) (hr : s.reader = .held)
      (hl : s.reading = none) :
    NextStep s { s.go i .checking with called := i :: s.called }
  | completed {s : Bridge I J} {i : I} (hp : s.reading = some (i, .checking))
      (hc : s.completion = some result) :
    NextStep s (s.go i (.leaving (result.map fun _ => none)))
  | begin {s : Bridge I J} {i : I} (hp : s.reading = some (i, .checking))
      (hc : s.completion = none) : NextStep s (s.go i (.sending false))
  | pollSend {s : Bridge I J} {i : I} (hp : s.reading = some (i, .sending false))
      (hc : s.state.cancelled = false) : NextStep s (s.go i (.sending true))
  | giveUpSend {s : Bridge I J} {i : I} (hp : s.reading = some (i, .sending false))
      (hc : s.state.cancelled = true) : NextStep s (s.go i (.leaving (.error s.state.error)))
  | pendSend {s : Bridge I J} {i : I} (hp : s.reading = some (i, .sending true)) :
    NextStep s (s.go i (.sending false))
  | dropSend {s : Bridge I J} {i : I} (hp : s.reading = some (i, .sending false)) :
    NextStep s { s.go i .unwinding with log := .dropped i :: s.log }
  | request {s : Bridge I J} {i : I} (hp : s.reading = some (i, .sending true))
      (hw : s.worker ≠ .gone) (hq : s.queue.length < 1) :
    NextStep s { s.go i (.awaiting .pending true) with
      queue := s.queue ++ [i]
      log := .requested i :: s.log }
  | hangUp {s : Bridge I J} {i : I} (hp : s.reading = some (i, .sending true))
      (hw : s.worker = .gone) : NextStep s (s.go i (.leaving (.error s.state.error)))
  | poll {s : Bridge I J} {i : I} (hp : s.reading = some (i, .awaiting response false))
      (hc : s.state.cancelled = false) : NextStep s (s.go i (.awaiting response true))
  | giveUp {s : Bridge I J} {i : I} (hp : s.reading = some (i, .awaiting response false))
      (hc : s.state.cancelled = true) : NextStep s (s.go i (.leaving (.error s.state.error)))
  | pend {s : Bridge I J} {i : I} (hp : s.reading = some (i, .awaiting response true)) :
    NextStep s (s.go i (.awaiting response false))
  | drop {s : Bridge I J} {i : I} (hp : s.reading = some (i, .awaiting response false)) :
    NextStep s { s.go i .unwinding with log := .dropped i :: s.log }
  | receive {s : Bridge I J} {i : I} (hp : s.reading = some (i, .awaiting (.sent result) true)) :
    NextStep s (s.go i (.leaving result))
  | lost {s : Bridge I J} {i : I} (hp : s.reading = some (i, .awaiting .closed true)) :
    NextStep s (s.go i (.leaving (.error s.state.error)))
  | unwind {s : Bridge I J} {i : I} (hp : s.reading = some (i, .unwinding)) :
    NextStep s { s.go i .unlocking with state := s.state.fail .ofCancelled }
  | unlock {s : Bridge I J} {i : I} (hp : s.reading = some (i, .unlocking)) :
    NextStep s { s with reading := none }
  | leave {s : Bridge I J} {i : I} (hp : s.reading = some (i, .leaving result)) :
    NextStep s { s with reading := none, log := .returned i result :: s.log }

namespace Bridge

def watch (s : Bridge I J) (j : J) (pc : WatchPc) : Bridge I J :=
  { s with watching := Function.update s.watching j pc }

/-- A `trailers` returns. -/
def answerTrailers (s : Bridge I J) (j : J) (result : Except Error HeaderMap) : Bridge I J :=
  { s.watch j .over with log := .trailers j result :: s.log }

end Bridge

/-- A step of a `trailers`, of the reader's owner or of another part of the operation. -/
inductive OwnerStep : Bridge I J → Bridge I J → Prop
  | start {s : Bridge I J} {j : J} (hp : s.watching j = .idle) (hr : s.reader = .held) :
    OwnerStep s (s.watch j .checking)
  | completed {s : Bridge I J} {j : J} (hp : s.watching j = .checking)
      (hc : s.completion = some result) : OwnerStep s (s.answerTrailers j result)
  | wait {s : Bridge I J} {j : J} (hp : s.watching j = .checking) (hc : s.completion = none) :
    OwnerStep s (s.watch j (.waiting false))
  | poll {s : Bridge I J} {j : J} (hp : s.watching j = .waiting false)
      (hc : s.state.cancelled = false) : OwnerStep s (s.watch j (.waiting true))
  | giveUp {s : Bridge I J} {j : J} (hp : s.watching j = .waiting false)
      (hc : s.state.cancelled = true) : OwnerStep s (s.answerTrailers j (.error s.state.error))
  | pend {s : Bridge I J} {j : J} (hp : s.watching j = .waiting true) :
    OwnerStep s (s.watch j (.waiting false))
  | changed {s : Bridge I J} {j : J} (hp : s.watching j = .waiting true)
      (hc : s.completion ≠ none) : OwnerStep s (s.watch j .checking)
  | lost {s : Bridge I J} {j : J} (hp : s.watching j = .waiting true) (hc : s.completion = none)
      (hw : s.worker = .gone) : OwnerStep s (s.answerTrailers j (.error s.state.error))
  | dropTrailers {s : Bridge I J} {j : J} (hp : s.watching j = .waiting false) :
    OwnerStep s (s.watch j .over)
  /-- `cancel`, or a failure elsewhere in the operation. -/
  | fail {s : Bridge I J} : OwnerStep s { s with state := s.state.fail error }
  | cancelOwner {s : Bridge I J} : OwnerStep s { s with state := s.state.cancelOwner }
  /-- The reader is dropped when no call borrows it. -/
  | drop {s : Bridge I J} (hr : s.reader = .held) (hl : s.reading = none)
      (hw : ∀ j, s.watching j = .idle ∨ s.watching j = .over) :
    OwnerStep s { s with
      reader := if s.completion matches some (.ok _) then .released else .releasing }
  | release {s : Bridge I J} (hr : s.reader = .releasing) :
    OwnerStep s { s with reader := .released, state := s.state.fail .ofCancelled }

/-- A step of the worker over `body`, which gives its items one after another. -/
inductive WorkerStep (body : Nat → PollFrame) : Bridge I J → Bridge I J → Prop
  | poll {s : Bridge I J} (hw : s.worker = .running stage false)
      (hc : s.state.cancelled = false) :
    WorkerStep body s { s with worker := .running stage true }
  /-- The inner future is dropped, with the reply that it has. -/
  | interrupt {s : Bridge I J} (hw : s.worker = .running stage false)
      (hc : s.state.cancelled = true) :
    WorkerStep body s { s.answer stage.requests .closed with worker := .interrupted }
  | readError {s : Bridge I J} (hw : s.worker = .interrupted) :
    WorkerStep body s { s with worker := .failing s.state.error }
  | pendRecv {s : Bridge I J} (hw : s.worker = .running .recv true) :
    WorkerStep body s { s with worker := .running .recv false }
  | recv {s : Bridge I J} {i : I} (hw : s.worker = .running .recv true)
      (hq : s.queue = i :: queue) :
    WorkerStep body s { s with worker := .running (.framing i) true, queue := queue }
  | recvClosed {s : Bridge I J} (hw : s.worker = .running .recv true) (hq : s.queue = [])
      (hr : s.reader = .released) : WorkerStep body s { s with worker := .failing .ofCancelled }
  | pendFrame {s : Bridge I J} {i : I} (hw : s.worker = .running (.framing i) true) :
    WorkerStep body s { s with worker := .running (.framing i) false, log := .polled :: s.log }
  | data {s : Bridge I J} {i : I} (hw : s.worker = .running (.framing i) true)
      (hb : body s.taken = .data bytes) :
    WorkerStep body s { s with
      worker := .replying i (some bytes)
      taken := s.taken + 1
      log := .polled :: s.log }
  | trailers {s : Bridge I J} {i : I} (hw : s.worker = .running (.framing i) true)
      (hb : body s.taken = .trailers fields) :
    WorkerStep body s { s with
      taken := s.taken + 1
      fields := s.fields.appendAll fields
      log := .polled :: s.log }
  | error {s : Bridge I J} {i : I} (hw : s.worker = .running (.framing i) true)
      (hb : body s.taken = .error error) :
    WorkerStep body s { s with worker := .refusing i error, log := .polled :: s.log }
  | eof {s : Bridge I J} {i : I} (hw : s.worker = .running (.framing i) true)
      (hb : body s.taken = .none) :
    WorkerStep body s { s with worker := .publishing i, log := .polled :: s.log }
  | publish {s : Bridge I J} {i : I} (hw : s.worker = .publishing i) :
    WorkerStep body s { s with
      worker := .replying i none
      completion := some (.ok s.fields)
      fields := [] }
  | reply {s : Bridge I J} {i : I} (hw : s.worker = .replying i next) (hl : s.Listens i) :
    WorkerStep body s { s.answer [i] (.sent (.ok next)) with
      worker := if next = none then .finished else .running .recv true
      log := .replied i :: s.log }
  | replyLost {s : Bridge I J} {i : I} (hw : s.worker = .replying i next) (hl : ¬ s.Listens i) :
    WorkerStep body s { s with worker := .failing .ofCancelled, log := .replied i :: s.log }
  | refuse {s : Bridge I J} {i : I} (hw : s.worker = .refusing i error) :
    WorkerStep body s { s.answer [i] (.sent (.error error)) with
      worker := .failing error
      log := .replied i :: s.log }
  | fail {s : Bridge I J} (hw : s.worker = .failing error) :
    WorkerStep body s { s with worker := .completing error, state := s.state.fail error }
  | complete {s : Bridge I J} (hw : s.worker = .completing error) :
    WorkerStep body s { s with worker := .finished, completion := some (.error error) }
  /-- The receiver of the requests goes, with those that it has. -/
  | finish {s : Bridge I J} (hw : s.worker = .finished) :
    WorkerStep body s { s.answer s.queue .closed with worker := .gone, queue := [] }
  /-- The sibling future of the worker has failed. -/
  | drop {s : Bridge I J} (hw : s.worker = .running stage false) :
    WorkerStep body s { s.answer stage.requests .closed with worker := .finished }

inductive BridgeStep (body : Nat → PollFrame) : Bridge I J → Unit → Bridge I J → Prop
  | next (h : NextStep s s') : BridgeStep body s e s'
  | owner (h : OwnerStep s s') : BridgeStep body s e s'
  | worker (h : WorkerStep body s s') : BridgeStep body s e s'

end Steps

end Dhttp.Api
