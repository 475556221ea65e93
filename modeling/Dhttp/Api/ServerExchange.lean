import Dhttp.Api.BridgeRuns
import Dhttp.Api.Scopes

namespace Dhttp.Api
open Dhttp.Lib
set_option autoImplicit true

/-- How the future of a handler ends; a body gives its items one after another. -/
inductive Handled (R : Type) where
  | response (head : R) (body : Nat → PollFrame)
  | failed (error : Error)
  | panicked

/-- Where the `call` of a service is. -/
inductive ServePc where
  | registering
  /-- The operation of the handler is registered, that of the request body is not. -/
  | reading
  | handling (polled : Bool)
  /-- The future of the handler has been dropped. -/
  | interrupted
  | failed (error : Error)
  /-- The response has been returned with its body. -/
  | answered (polled : Bool)
  /-- The call, or the body that it returned, has been dropped. -/
  | dropped
  deriving DecidableEq

/-- The `call` of a service and the body of its response, with the scope's flag. `operation` and
`reading` say which of its operations are there, `body` is what the body owns. On record: the
response, how many frames its body has given, and what the polls of the owned body have yielded. -/
structure ServerExchange (R : Type) where
  closed : Bool
  pc : ServePc
  state : OperationState
  operation : Bool
  reading : Bool
  body : Option (Nat → PollFrame)
  response : Option (R × (Nat → PollFrame))
  taken : Nat
  yielded : List PollFrame

def serverExchange (R : Type) : ServerExchange R where
  closed := false
  pc := .registering
  state := .new
  operation := false
  reading := false
  body := none
  response := none
  taken := 0
  yielded := []

/-- `Full::new(Bytes::new())` has no frame. -/
def emptyBody : Nat → PollFrame := fun _ => .none

/-- The response that is sent for what a handler did; `refusal` is the response with status 500. -/
def Handled.answer {R : Type} (refusal : R) : Handled R → R × (Nat → PollFrame)
  | response head body => (head, body)
  | failed _ | panicked => (refusal, emptyBody)

namespace ServerExchange
variable {R : Type}

def go (s : ServerExchange R) (pc : ServePc) : ServerExchange R := { s with pc := pc }

/-- The operation is dropped with what it owns. -/
def release (s : ServerExchange R) : ServerExchange R :=
  { s with operation := false, body := none }

def yield (s : ServerExchange R) (frame : PollFrame) : ServerExchange R :=
  { s with yielded := s.yielded ++ [frame] }

def isEndStream (s : ServerExchange R) : Bool := s.body.isNone

end ServerExchange

section Steps
variable {R : Type}

/-- A step of the `call`. -/
inductive ServeStep (refusal : R) (handled : Handled R) :
    ServerExchange R → ServerExchange R → Prop
  | register (hp : s.pc = .registering) (hc : s.closed = false) :
    ServeStep refusal handled s { s.go .reading with operation := true }
  | refuse (hp : s.pc = .registering) (hc : s.closed = true) :
    ServeStep refusal handled s (s.go (.failed closedError))
  /-- The worker that reads the request body is spawned with an operation of its own. -/
  | read (hp : s.pc = .reading) (hc : s.closed = false) :
    ServeStep refusal handled s { s.go (.handling false) with reading := true }
  | refuseReading (hp : s.pc = .reading) (hc : s.closed = true) :
    ServeStep refusal handled s (s.release.go (.failed closedError))
  /-- A poll looks at the cancellation first. -/
  | poll (hp : s.pc = .handling false) (hc : s.state.cancelled = false) :
    ServeStep refusal handled s (s.go (.handling true))
  | pend (hp : s.pc = .handling true) : ServeStep refusal handled s (s.go (.handling false))
  | interrupt (hp : s.pc = .handling false) (hc : s.state.cancelled = true) :
    ServeStep refusal handled s (s.go .interrupted)
  | readError (hp : s.pc = .interrupted) :
    ServeStep refusal handled s (s.release.go (.failed s.state.error))
  | answer (hp : s.pc = .handling true) :
    ServeStep refusal handled s { s.go (.answered false) with
      response := some (handled.answer refusal)
      body := some (handled.answer refusal).2 }
  | drop (hp : s.pc = .registering ∨ s.pc = .handling false) :
    ServeStep refusal handled s (s.release.go .dropped)

/-- A step of the body of the response. -/
inductive OwnedBodyStep : ServerExchange R → ServerExchange R → Prop
  | pollGone (hp : s.pc = .answered false) (hb : s.body = none) :
    OwnedBodyStep s (s.yield .none)
  | pollCancelled (hp : s.pc = .answered false) (hb : s.body = some body)
      (hc : s.state.cancelled = true) : OwnedBodyStep s (s.release.yield (.error s.state.error))
  | poll (hp : s.pc = .answered false) (hb : s.body = some body)
      (hc : s.state.cancelled = false) : OwnedBodyStep s (s.go (.answered true))
  | pend (hp : s.pc = .answered true) : OwnedBodyStep s (s.go (.answered false))
  | frame {s : ServerExchange R} {body : Nat → PollFrame} (hp : s.pc = .answered true)
      (hb : s.body = some body) (hf : (body s.taken).IsFrame) :
    OwnedBodyStep s { (s.go (.answered false)).yield (body s.taken) with taken := s.taken + 1 }
  /-- The end of the body or its error is the last that it is asked for. -/
  | last {s : ServerExchange R} {body : Nat → PollFrame} (hp : s.pc = .answered true)
      (hb : s.body = some body) (hf : ¬ (body s.taken).IsFrame) :
    OwnedBodyStep s ((s.release.go (.answered false)).yield (body s.taken))
  | drop (hp : s.pc = .answered false) : OwnedBodyStep s (s.release.go .dropped)

/-- A step of the scope or of the worker. Nobody else has the state of the operation. -/
inductive ServerOwnerStep : ServerExchange R → ServerExchange R → Prop
  | close {s : ServerExchange R} : ServerOwnerStep s { s with closed := true }
  | cancelOwner {s : ServerExchange R} :
    ServerOwnerStep s { s with state := s.state.cancelOwner }
  | workerEnds {s : ServerExchange R} : ServerOwnerStep s { s with reading := false }

inductive ServerStep (refusal : R) (handled : Handled R) :
    ServerExchange R → Unit → ServerExchange R → Prop
  | serve (h : ServeStep refusal handled s s') : ServerStep refusal handled s e s'
  | body (h : OwnedBodyStep s s') : ServerStep refusal handled s e s'
  | owner (h : ServerOwnerStep s s') : ServerStep refusal handled s e s'

end Steps

end Dhttp.Api
