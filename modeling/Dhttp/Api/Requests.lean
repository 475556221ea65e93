import Dhttp.Api.BridgeRuns

namespace Dhttp.Api
open Dhttp.Lib
set_option autoImplicit true

namespace OperationState

/-- The first half of `fail`: the error is kept, and the token is cancelled afterwards. -/
def store (state : OperationState) (error : Error) : OperationState :=
  { state with firstError := some (state.firstError.getD error) }

def cancel (state : OperationState) : OperationState := { state with cancelled := true }

theorem cancel_store (state : OperationState) (error : Error) :
    (state.store error).cancel = state.fail error := rfl

end OperationState

/-- Where the upload of an exchange is. -/
inductive PumpPc where
  | waiting
  | writing (rest : Bytes)
  | appending (rest : HeaderMap)
  /-- `shutdown` has begun, and EOF is not out. -/
  | closing
  | flushing
  | done

/-- Where the receipt of the response is. -/
inductive ReceivePc where
  | awaiting
  | reading
  | done

inductive ExchangePc where
  | connecting
  | running (pump : PumpPc) (receive : ReceivePc)

/-- Where the task of a request is. `polled` says that its current poll has passed the
cancellation check. -/
inductive RequestPc where
  | running (exchange : ExchangePc) (polled : Bool)
  /-- The exchange has been dropped, the error is not read yet. -/
  | interrupted
  | settled (result : Except Error Unit)
  | failing (error : Error)
  | answering (error : Error)
  | releasing
  | ended
  /-- The runtime has dropped the task. -/
  | dropped

namespace RequestPc

/-- The operation is released. -/
def Over : RequestPc → Prop
  | ended | dropped => True
  | _ => False

/-- The exchange is being polled. -/
def Polls : RequestPc → Prop
  | running _ polled => polled = true
  | _ => False

def IsRunning : RequestPc → Prop
  | running _ _ => True
  | _ => False

end RequestPc

/-- What is left of the response future. -/
inductive FuturePc (R : Type) where
  | waiting
  | resolved (result : Except Error R)
  /-- Dropped before its answer: `drop` has stored its error, then it has cancelled. -/
  | dropping
  | closing
  | dropped

/-- The task of the request writer, which sends what the window holds. -/
inductive UploadTask where
  | unopened
  | running
  | finished
  | aborted
  deriving DecidableEq

/-- A request from its task on, with the channel of its answer. `taken` counts the frames that the
upload has given, `sent` is what the window has accepted. On record: the response whose headers
came, whether its body was received to the end, and how the exchange ended by itself. -/
structure ClientRequest (R : Type) where
  task : RequestPc
  state : OperationState
  sender : Bool
  message : Option (Except Error R)
  future : FuturePc R
  taken : Nat
  sent : Bytes
  trailers : HeaderMap
  eof : Bool
  upload : UploadTask
  received : Option R
  read : Bool
  outcome : Option (Except Error Unit)

/-- A request as it is spawned; it has the trailers of its extensions. -/
def clientRequest (R : Type) (trailers : HeaderMap) : ClientRequest R where
  task := .running .connecting false
  state := .new
  sender := true
  message := none
  future := .waiting
  taken := 0
  sent := []
  trailers := trailers
  eof := false
  upload := .unopened
  received := none
  read := false
  outcome := none

def deadlineExceeded : Error := .new .deadlineExceeded "request deadline exceeded"

namespace ClientRequest
variable {R : Type}

def go (s : ClientRequest R) (task : RequestPc) : ClientRequest R := { s with task := task }

/-- A dropped writer aborts the upload that is not finished. -/
def hangUp (s : ClientRequest R) : ClientRequest R :=
  { s with upload := if s.upload = .running then .aborted else s.upload }

/-- The exchange ends by itself. -/
def settle (s : ClientRequest R) (result : Except Error Unit) : ClientRequest R :=
  { s with task := .settled result, outcome := some result }

end ClientRequest

section Steps
variable {R : Type}

/-- A step of `pumping`; it goes on, or it fails with an error. -/
inductive PumpStep (body : Option (Nat → PollFrame)) :
    ClientRequest R → PumpPc → ClientRequest R → Except Error PumpPc → Prop
  | noBody (hb : body = none) : PumpStep body s .waiting s (.ok .closing)
  | data {s : ClientRequest R} (hb : body = some frames) (hf : frames s.taken = .data bytes) :
    PumpStep body s .waiting { s with taken := s.taken + 1 } (.ok (.writing bytes))
  | trailers {s : ClientRequest R} (hb : body = some frames)
      (hf : frames s.taken = .trailers fields) :
    PumpStep body s .waiting { s with taken := s.taken + 1 } (.ok (.appending fields))
  | frameFails {s : ClientRequest R} (hb : body = some frames)
      (hf : frames s.taken = .error error) :
    PumpStep body s .waiting s (.error error)
  | bodyEnds {s : ClientRequest R} (hb : body = some frames) (hf : frames s.taken = .none) :
    PumpStep body s .waiting s (.ok .closing)
  /-- `write_all` goes on with what the window has not accepted. -/
  | write {s : ClientRequest R} (hn : 0 < n) (hl : n ≤ rest.length) :
    PumpStep body s (.writing rest) { s with sent := s.sent ++ rest.take n }
      (.ok (.writing (rest.drop n)))
  | writeFails (hr : rest ≠ []) : PumpStep body s (.writing rest) s (.error error)
  | written : PumpStep body s (.writing []) s (.ok .waiting)
  | append {s : ClientRequest R} {field : List Char × Bytes} {rest : HeaderMap}
      (hu : s.upload = .running) :
    PumpStep body s (.appending (field :: rest))
      { s with trailers := s.trailers.append field.1 field.2 } (.ok (.appending rest))
  | appendFails {s : ClientRequest R} (hr : rest ≠ []) (hu : s.upload ≠ .running) :
    PumpStep body s (.appending rest) s (.error error)
  | appended : PumpStep body s (.appending []) s (.ok .waiting)
  | publish {s : ClientRequest R} :
    PumpStep body s .closing { s with eof := true } (.ok .flushing)
  | shutdownFails : PumpStep body s .closing s (.error error)
  | finish {s : ClientRequest R} (hu : s.upload = .finished) :
    PumpStep body s .flushing s (.ok .done)
  | uploadFails {s : ClientRequest R} (hu : s.upload = .finished) :
    PumpStep body s .flushing s (.error error)

/-- A step of `receiving`. The bridge of the response body has its own steps. -/
inductive ReceiveStep :
    ClientRequest R → ReceivePc → ClientRequest R → Except Error ReceivePc → Prop
  | headers {s : ClientRequest R} (response : R) (hf : s.future ≠ .dropped)
      (hs : s.sender = true) :
    ReceiveStep s .awaiting { s with
      sender := false
      message := some (.ok response)
      received := some response } (.ok .reading)
  /-- Nobody waits for the response: it is dropped with its reader. -/
  | unwanted {s : ClientRequest R} (response : R) (hf : s.future = .dropped)
      (hs : s.sender = true) :
    ReceiveStep s .awaiting { s with
      sender := false
      state := s.state.fail .ofCancelled
      received := some response } (.error .ofCancelled)
  /-- A failed response resets the upload. -/
  | responseFails {s : ClientRequest R} : ReceiveStep s .awaiting s.hangUp (.error error)
  | read {s : ClientRequest R} : ReceiveStep s .reading { s with read := true } (.ok .done)
  | readFails {s : ClientRequest R} :
    ReceiveStep s .reading { s with state := s.state.fail error } (.error error)

/-- A step of the task of a request; `timed` says that it has a deadline. -/
inductive RequestTaskStep (body : Option (Nat → PollFrame)) (timed : Bool) :
    ClientRequest R → ClientRequest R → Prop
  /-- A poll looks at the cancellation first. -/
  | poll {s : ClientRequest R} (ht : s.task = .running exchange false)
      (hc : s.state.cancelled = false) :
    RequestTaskStep body timed s (s.go (.running exchange true))
  | pend {s : ClientRequest R} (ht : s.task = .running exchange true) :
    RequestTaskStep body timed s (s.go (.running exchange false))
  | interrupt {s : ClientRequest R} (ht : s.task = .running exchange false)
      (hc : s.state.cancelled = true) :
    RequestTaskStep body timed s (s.hangUp.go .interrupted)
  | readError {s : ClientRequest R} (ht : s.task = .interrupted) :
    RequestTaskStep body timed s (s.go (.settled (.error s.state.error)))
  | connect {s : ClientRequest R} (ht : s.task = .running .connecting true) :
    RequestTaskStep body timed s
      { s.go (.running (.running .waiting .awaiting) true) with upload := .running }
  | connectFails {s : ClientRequest R} (ht : s.task = .running .connecting true) :
    RequestTaskStep body timed s (s.settle (.error error))
  | pump {s s' : ClientRequest R} (ht : s.task = .running (.running pump receive) true)
      (hs : PumpStep body s pump s' (.ok pump')) :
    RequestTaskStep body timed s (s'.go (.running (.running pump' receive) true))
  | pumpFails {s s' : ClientRequest R} (ht : s.task = .running (.running pump receive) true)
      (hs : PumpStep body s pump s' (.error error)) :
    RequestTaskStep body timed s (s'.hangUp.settle (.error error))
  | receive {s s' : ClientRequest R} (ht : s.task = .running (.running pump receive) true)
      (hs : ReceiveStep s receive s' (.ok receive')) :
    RequestTaskStep body timed s (s'.go (.running (.running pump receive') true))
  | receiveFails {s s' : ClientRequest R} (ht : s.task = .running (.running pump receive) true)
      (hs : ReceiveStep s receive s' (.error error)) :
    RequestTaskStep body timed s (s'.hangUp.settle (.error error))
  | complete {s : ClientRequest R} (ht : s.task = .running (.running .done .done) true) :
    RequestTaskStep body timed s (s.settle (.ok ()))
  /-- The exchange has been polled before the deadline is looked at. -/
  | deadline {s : ClientRequest R} (hd : timed = true) (ht : s.task = .running exchange true) :
    RequestTaskStep body timed s (s.hangUp.settle (.error deadlineExceeded))
  | store {s : ClientRequest R} (ht : s.task = .settled (.error error)) :
    RequestTaskStep body timed s { s.go (.failing error) with state := s.state.store error }
  | cancel {s : ClientRequest R} (ht : s.task = .failing error) :
    RequestTaskStep body timed s { s.go (.answering error) with state := s.state.cancel }
  | answer {s : ClientRequest R} (ht : s.task = .answering error) :
    RequestTaskStep body timed s { s.go .releasing with
      sender := false
      message := if s.sender then some (.error error) else s.message }
  | succeed {s : ClientRequest R} (ht : s.task = .settled (.ok ())) :
    RequestTaskStep body timed s (s.go .releasing)
  | release {s : ClientRequest R} (ht : s.task = .releasing) :
    RequestTaskStep body timed s { s.go .ended with sender := false }

/-- A step of the response future, of another holder of the operation, of the owner, of the upload
task or of the runtime. -/
inductive RequestOwnerStep : ClientRequest R → ClientRequest R → Prop
  | resolve {s : ClientRequest R} (hf : s.future = .waiting) (hm : s.message = some result) :
    RequestOwnerStep s { s with future := .resolved result }
  | lost {s : ClientRequest R} (hf : s.future = .waiting) (hm : s.message = none)
      (hs : s.sender = false) :
    RequestOwnerStep s { s with future := .resolved (.error s.state.error) }
  | drop {s : ClientRequest R} (hf : s.future = .waiting) :
    RequestOwnerStep s { s with future := .dropping, state := s.state.store .ofCancelled }
  | cancelDropped {s : ClientRequest R} (hf : s.future = .dropping) :
    RequestOwnerStep s { s with future := .closing, state := s.state.cancel }
  | closeDropped {s : ClientRequest R} (hf : s.future = .closing) :
    RequestOwnerStep s { s with future := .dropped }
  | storeError {s : ClientRequest R} :
    RequestOwnerStep s { s with state := s.state.store error }
  | cancelToken {s : ClientRequest R} (hs : s.state.firstError ≠ none) :
    RequestOwnerStep s { s with state := s.state.cancel }
  | cancelOwner {s : ClientRequest R} : RequestOwnerStep s { s with state := s.state.cancelOwner }
  | uploadEnds {s : ClientRequest R} (hu : s.upload = .running) :
    RequestOwnerStep s { s with upload := .finished }
  | dropTask {s : ClientRequest R} (ht : ¬ s.task.Over) :
    RequestOwnerStep s { s.hangUp.go .dropped with sender := false }

inductive RequestStep (body : Option (Nat → PollFrame)) (timed : Bool) :
    ClientRequest R → Unit → ClientRequest R → Prop
  | task (h : RequestTaskStep body timed s s') : RequestStep body timed s e s'
  | owner (h : RequestOwnerStep s s') : RequestStep body timed s e s'

end Steps

end Dhttp.Api
