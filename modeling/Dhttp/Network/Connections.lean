import Dhttp.Client.Routing
import Dhttp.Network.ListenerRuns

namespace Dhttp.Network
open Dhttp.Lib Dhttp.Client
set_option autoImplicit true

/-- The names that the handshake of a connection has verified. -/
structure Handshake where
  localName : Option Name
  remote : Option Name

inductive ConnectionKey where
  | incoming (localName : Name) (remote : Option Name)
  | outgoing (localName : Option Name) (remote : Name)

/-- What keys are compared by, whoever opened the connection. -/
def ConnectionKey.names : ConnectionKey → Option Name × Option Name
  | incoming localName remote => (some localName, remote)
  | outgoing localName remote => (localName, some remote)

inductive ErrorCode where
  | noError
  | requestRejected
  | requestCancelled
  | other (code : ℕ)
  deriving DecidableEq

/-- What `handle_request` fails with. -/
inductive HandleError where
  | read
  | service
  | write (code : ErrorCode)
  deriving DecidableEq

/-- What is done to the directions of a stream. -/
inductive Signal (Response : Type) where
  | stop (code : ErrorCode)
  | cancel (code : ErrorCode)
  | reply (r : Reply Response)

/-- Where a stream is: between its accept and its handler, and then in the handler. -/
inductive StreamPc (H : HttpCrate) (Response : Type) where
  | accepted
  | listed
  | unlisted
  | rejected
  | reading
  | waiting (request : Request H)
  | calling (request : Request H)
  | writing (r : Reply Response)
  | finished (result : Except HandleError Unit)
  /-- The service or the body of its response has panicked. -/
  | panicked

/-- A stream with the connection it came on, and with the listen whose service it was given. -/
structure Stream (I K : Type) (H : HttpCrate) (Response : Type) where
  connection : K
  service : Option I
  pc : StreamPc H Response
  signals : List (Signal Response)

/-- Where the loop of a connection is. -/
inductive LoopPc (T : Type) where
  | accepting
  | serving (stream : T)
  | ended

structure Connection (T : Type) where
  key : ConnectionKey
  handshake : Handshake
  pc : LoopPc T

/-- A call of the service of a listen, with the handshake that the request carries. -/
structure ServiceCall (I T : Type) (H : HttpCrate) where
  service : I
  stream : T
  handshake : Handshake
  request : Request H

/-- The listeners, the connections and their streams. On record: the calls of the services. -/
structure Serving (I C S R E K T : Type) (H : HttpCrate) (Response : Type) where
  listeners : Listeners I C S R E
  connections : K → Option (Connection T)
  streams : T → Option (Stream I K H Response)
  calls : List (ServiceCall I T H)

/-- The callback of the listen has been given to the QUIC registry. -/
def CallPc.Accepts : CallPc I C S R E → Prop
  | listen .inserting | listen .unlocking | listen .listening | listen .dropping
  | listen .removing | listen .unregistering | listen .releasing | listen .dropped => True
  | _ => False

/-- Who takes a step. -/
inductive Actor (I K T : Type) where
  | call (i : I)
  | connection (k : K)
  | stream (t : T)

/-- No connection. -/
def unconnected (registry : Name → Option (Registration I C S R E)) :
    Serving I C S R E K T H Response where
  listeners := noListeners registry
  connections _ := none
  streams _ := none
  calls := []

/-- The write of a response that the peer declines is no failure of the service. -/
def writeResult : Reply Response → Except ErrorCode Unit → Except HandleError Unit
  | _, .ok () => .ok ()
  | .response _, .error .noError => .ok ()
  | _, .error code => .error (.write code)

section Steps
variable {I C S R E H' K T Response : Type} {H : HttpCrate}

namespace Stream

def go (stream : Stream I K H Response) (pc : StreamPc H Response) : Stream I K H Response :=
  { stream with pc := pc }

/-- The guard of the write direction is dropped. -/
def cancel (stream : Stream I K H Response) (pc : StreamPc H Response) : Stream I K H Response :=
  { stream with pc := pc, signals := stream.signals ++ [.cancel .requestCancelled] }

/-- The write direction is taken from its guard. -/
def reply (stream : Stream I K H Response) (r : Reply Response) : Stream I K H Response :=
  { stream with pc := .writing r, signals := stream.signals ++ [.reply r] }

end Stream

variable [DecidableEq I] [DecidableEq H'] [DecidableEq K] [DecidableEq T]

namespace Serving

def setLoop (s : Serving I C S R E K T H Response) (k : K) (connection : Connection T)
    (pc : LoopPc T) : Serving I C S R E K T H Response :=
  { s with connections := Function.update s.connections k (some { connection with pc := pc }) }

def setStream (s : Serving I C S R E K T H Response) (t : T) (stream : Stream I K H Response) :
    Serving I C S R E K T H Response :=
  { s with streams := Function.update s.streams t (some stream) }

end Serving

/-- A step of a call of the listeners, of the loop of a connection or of the handler of a stream. -/
inductive ServeStep (listens : I → ListenCall C S R E) (reloads : I → ReloadCall H' C) :
    Serving I C S R E K T H Response → Actor I K T → Serving I C S R E K T H Response → Prop
  | call (hs : ListenerStep listens reloads s.listeners i listeners) :
    ServeStep listens reloads s (.call i) { s with listeners := listeners }
  | incoming (handshake : Handshake) (hi : (s.listeners.pc i).Accepts)
      (hk : s.connections k = none) :
    ServeStep listens reloads s (.connection k)
      (s.setLoop k ⟨.incoming (listens i).name handshake.remote, handshake, .accepting⟩ .accepting)
  | connect (localName : Option Name) (remote : Name) (handshake : Handshake)
      (hk : s.connections k = none) :
    ServeStep listens reloads s (.connection k)
      (s.setLoop k ⟨.outgoing localName remote, handshake, .accepting⟩ .accepting)
  | accept (t : T) (hk : s.connections k = some connection) (hp : connection.pc = .accepting)
      (ht : s.streams t = none) :
    ServeStep listens reloads s (.connection k)
      ((s.setLoop k connection (.serving t)).setStream t ⟨k, none, .accepted, []⟩)
  | acceptFailed (hk : s.connections k = some connection) (hp : connection.pc = .accepting) :
    ServeStep listens reloads s (.connection k) (s.setLoop k connection .ended)
  | anonymous (hk : s.connections k = some connection) (hp : connection.pc = .serving t)
      (hn : connection.key.names.1 = none) (ht : s.streams t = some stream)
      (ha : stream.pc = .accepted) :
    ServeStep listens reloads s (.connection k) (s.setStream t (stream.go .unlisted))
  /-- The lock is free and is released again at once. -/
  | lookup (hk : s.connections k = some connection) (hp : connection.pc = .serving t)
      (hn : connection.key.names.1 = some name) (hl : s.listeners.lock = none)
      (ht : s.streams t = some stream) (ha : stream.pc = .accepted)
      (hi : s.listeners.listeners name = some i) :
    ServeStep listens reloads s (.connection k)
      (s.setStream t { stream with service := some i, pc := .listed })
  | lookupFailed (hk : s.connections k = some connection) (hp : connection.pc = .serving t)
      (hn : connection.key.names.1 = some name) (hl : s.listeners.lock = none)
      (ht : s.streams t = some stream) (ha : stream.pc = .accepted)
      (hi : s.listeners.listeners name = none) :
    ServeStep listens reloads s (.connection k) (s.setStream t (stream.go .unlisted))
  | reject (hk : s.connections k = some connection) (hp : connection.pc = .serving t)
      (ht : s.streams t = some stream) (ha : stream.pc = .unlisted) :
    ServeStep listens reloads s (.connection k)
      ((s.setLoop k connection .accepting).setStream t { stream with
        pc := .rejected
        signals := stream.signals ++ [.stop .requestRejected, .cancel .requestRejected] })
  | spawn (hk : s.connections k = some connection) (hp : connection.pc = .serving t)
      (ht : s.streams t = some stream) (ha : stream.pc = .listed) :
    ServeStep listens reloads s (.connection k)
      ((s.setLoop k connection .accepting).setStream t (stream.go .reading))
  | readFailed (ht : s.streams t = some stream) (hp : stream.pc = .reading) :
    ServeStep listens reloads s (.stream t)
      (s.setStream t (stream.cancel (.finished (.error .read))))
  | misdirected (request : Request H) (ht : s.streams t = some stream) (hp : stream.pc = .reading)
      (hk : s.connections stream.connection = some connection)
      (hu : acceptedUri connection.handshake.localName request.uri = none) :
    ServeStep listens reloads s (.stream t) (s.setStream t (stream.reply .misdirected))
  | read (request : Request H) (ht : s.streams t = some stream) (hp : stream.pc = .reading)
      (hk : s.connections stream.connection = some connection)
      (hu : acceptedUri connection.handshake.localName request.uri = some uri) :
    ServeStep listens reloads s (.stream t)
      (s.setStream t (stream.go (.waiting { request with uri := uri })))
  | notReady (ht : s.streams t = some stream) (hp : stream.pc = .waiting request) :
    ServeStep listens reloads s (.stream t)
      (s.setStream t (stream.cancel (.finished (.error .service))))
  | ready (ht : s.streams t = some stream) (hp : stream.pc = .waiting request)
      (hk : s.connections stream.connection = some connection) (hi : stream.service = some i) :
    ServeStep listens reloads s (.stream t)
      { s.setStream t (stream.go (.calling request)) with
        calls := ⟨i, t, connection.handshake, request⟩ :: s.calls }
  | callFailed (ht : s.streams t = some stream) (hp : stream.pc = .calling request) :
    ServeStep listens reloads s (.stream t)
      (s.setStream t (stream.cancel (.finished (.error .service))))
  | answer (r : Response) (ht : s.streams t = some stream) (hp : stream.pc = .calling request) :
    ServeStep listens reloads s (.stream t) (s.setStream t (stream.reply (.response r)))
  | panicReady (ht : s.streams t = some stream) (hp : stream.pc = .waiting request) :
    ServeStep listens reloads s (.stream t) (s.setStream t (stream.cancel .panicked))
  | panicCall (ht : s.streams t = some stream) (hp : stream.pc = .calling request) :
    ServeStep listens reloads s (.stream t) (s.setStream t (stream.cancel .panicked))
  | panicWrite (ht : s.streams t = some stream) (hp : stream.pc = .writing (.response r)) :
    ServeStep listens reloads s (.stream t) (s.setStream t (stream.go .panicked))
  | written (result : Except ErrorCode Unit) (ht : s.streams t = some stream)
      (hp : stream.pc = .writing r) :
    ServeStep listens reloads s (.stream t)
      (s.setStream t (stream.go (.finished (writeResult r result))))

end Steps

end Dhttp.Network
