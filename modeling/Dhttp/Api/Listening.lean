import Dhttp.Api.ScopeRuns

namespace Dhttp.Api
open Dhttp.Lib
set_option autoImplicit true

/-- Where a `listen` is, and from `waiting` on the task that it has spawned. -/
inductive ListenPc where
  | idle
  | registering
  /-- The operation is registered; the endpoint is read. -/
  | preparing
  | starting (polled : Bool)
  | failed
  /-- The service is registered, and the task waits for its cancellation. -/
  | waiting
  | unlisted
  | closing
  | closed
  | released
  deriving DecidableEq

/-- There is a listener, with a service. -/
def ListenPc.Spawned : ListenPc → Prop
  | waiting | unlisted | closing | closed | released => True
  | _ => False

/-- Where a `close` of a listener is. -/
inductive ClosePc where
  | idle
  /-- The error is stored, the token not yet cancelled. -/
  | failing
  | locking
  /-- It has the lock and the handle of the task. -/
  | joining
  | returned
  /-- The future was dropped with the handle. -/
  | abandoned
  | dropped
  deriving DecidableEq

def ClosePc.Holds (pc : ClosePc) : Prop := pc = joining

/-- The places of a call that registers. -/
def ScopeCall.Registers : ScopeCall → Prop
  | registering | locked | passed | tracked | linked | registered | refused _ => True
  | _ => False

/-- A handle of the SDK and its listeners. The scope of the handle has a call for every listener
beside its other calls. Each listener has a scope of its own, whose first call is the `close` of
its task and whose runs are those of its handlers. `handle` says that the handle of a listener's
task has not been taken. -/
structure Listening (K L J X C T : Type) where
  outer : Scope (K ⊕ L)
  pc : L → ListenPc
  listed : L → Bool
  inner : L → ScopeSystem (Option J) X T
  closer : L → C → ClosePc
  lock : L → Option C
  handle : L → Bool

def Listening.new (K L J X C T : Type) : Listening K L J X C T where
  outer := .new (K ⊕ L)
  pc _ := .idle
  listed _ := false
  inner _ := scopeSystem (Option J) X T
  closer _ _ := .idle
  lock _ := none
  handle _ := true

def listenerClosed : Error := .new .closed "listener closed"

section Steps
variable {K L J X C T : Type} [DecidableEq K] [DecidableEq L] [DecidableEq J] [DecidableEq X]
  [DecidableEq C]

namespace Listening

def go (s : Listening K L J X C T) (l : L) (pc : ListenPc) : Listening K L J X C T :=
  { s with pc := Function.update s.pc l pc }

def list (s : Listening K L J X C T) (l : L) (listed : Bool) : Listening K L J X C T :=
  { s with listed := Function.update s.listed l listed }

def within (s : Listening K L J X C T) (l : L) (inner : ScopeSystem (Option J) X T) :
    Listening K L J X C T :=
  { s with inner := Function.update s.inner l inner }

/-- The operation of a listener is dropped. -/
def dropOperation (s : Listening K L J X C T) (l : L) : Listening K L J X C T :=
  { s with outer := s.outer.go (.inr l) .dropped }

def goCloser (s : Listening K L J X C T) (l : L) (c : C) (pc : ClosePc) :
    Listening K L J X C T :=
  { s with closer := Function.update s.closer l (Function.update (s.closer l) c pc) }

def setLock (s : Listening K L J X C T) (l : L) (lock : Option C) : Listening K L J X C T :=
  { s with lock := Function.update s.lock l lock }

/-- The call of the task's `close` on the scope of its listener. -/
def taskCall (s : Listening K L J X C T) (l : L) : ScopeCall := (s.inner l).scope.call none

end Listening

/-- One step of a `listen` or of the task of a listener. -/
inductive ListenStep : Listening K L J X C T → L → Listening K L J X C T → Prop
  | start (hp : s.pc l = .idle) : ListenStep s l (s.go l .registering)
  | register (hp : s.pc l = .registering) (hs : ScopeStep s.outer outer)
      (hr : (outer.call (.inr l)).Registers)
      (hl : ∀ l', l' ≠ l → outer.call (.inr l') = s.outer.call (.inr l')) :
    ListenStep s l { s with outer := outer }
  | refused (hp : s.pc l = .registering) (hr : s.outer.call (.inr l) = .refused error) :
    ListenStep s l (s.go l .failed)
  | registered (hp : s.pc l = .registering) (hr : s.outer.call (.inr l) = .registered) :
    ListenStep s l (s.go l .preparing)
  /-- An anonymous handle, or a dropped future. -/
  | unprepared (hp : s.pc l = .preparing) : ListenStep s l ((s.dropOperation l).go l .failed)
  | begin (hp : s.pc l = .preparing) : ListenStep s l (s.go l (.starting false))
  | poll (hp : s.pc l = .starting false) (hc : s.outer.operationCancelled (.inr l) = false) :
    ListenStep s l (s.go l (.starting true))
  | giveUp (hp : s.pc l = .starting false) (hc : s.outer.operationCancelled (.inr l) = true) :
    ListenStep s l ((s.dropOperation l).go l .failed)
  | pend (hp : s.pc l = .starting true) : ListenStep s l (s.go l (.starting false))
  | drop (hp : s.pc l = .starting false) : ListenStep s l ((s.dropOperation l).go l .failed)
  | fail (hp : s.pc l = .starting true) : ListenStep s l ((s.dropOperation l).go l .failed)
  /-- The service is registered and the task spawned within one poll. -/
  | listen (hp : s.pc l = .starting true) : ListenStep s l ((s.list l true).go l .waiting)
  | wake (hp : s.pc l = .waiting) (hc : s.outer.operationCancelled (.inr l) = true) :
    ListenStep s l ((s.list l false).go l .unlisted)
  | close (hp : s.pc l = .unlisted) (hi : s.taskCall l = .idle) :
    ListenStep s l ((s.within l { s.inner l with
      scope := (s.inner l).scope.go none (.stopping .close) }).go l .closing)
  | closed (hp : s.pc l = .closing) (hi : s.taskCall l = .stopped .close) :
    ListenStep s l (s.go l .closed)
  | release (hp : s.pc l = .closed) : ListenStep s l ((s.dropOperation l).go l .released)

/-- One step of a `close` of a listener. -/
inductive CloseStep : Listening K L J X C T → L → Listening K L J X C T → Prop
  | fail {c : C} (hp : s.closer l c = .idle) (hl : (s.pc l).Spawned) :
    CloseStep s l { s.goCloser l c .failing with
      outer := { s.outer with
        firstError := Function.update s.outer.firstError (.inr l)
          ((s.outer.state (.inr l)).fail listenerClosed).firstError } }
  | cancel {c : C} (hp : s.closer l c = .failing) :
    CloseStep s l { s.goCloser l c .locking with
      outer := s.outer.cancelOperation (.inr l) true }
  | join {c : C} (hp : s.closer l c = .locking) (hl : s.lock l = none)
      (hh : s.handle l = true) :
    CloseStep s l { (s.goCloser l c .joining).setLock l (some c) with
      handle := Function.update s.handle l false }
  /-- Another `close` has taken the handle. -/
  | taken {c : C} (hp : s.closer l c = .locking) (hl : s.lock l = none)
      (hh : s.handle l = false) : CloseStep s l (s.goCloser l c .returned)
  | joined {c : C} (hp : s.closer l c = .joining) (ht : s.pc l = .released) :
    CloseStep s l ((s.goCloser l c .returned).setLock l none)
  | abandon {c : C} (hp : s.closer l c = .joining) :
    CloseStep s l ((s.goCloser l c .abandoned).setLock l none)
  | drop {c : C} (hp : s.closer l c = .locking) : CloseStep s l (s.goCloser l c .dropped)

/-- One step of a listener, of the service of one, or of another holder of the handle. -/
inductive ListeningStep : Listening K L J X C T → Unit → Listening K L J X C T → Prop
  | listen (hs : ListenStep s l s') : ListeningStep s () s'
  | close (hs : CloseStep s l s') : ListeningStep s () s'
  /-- Requests, other calls on the handle, and failures of an operation. -/
  | outer (hs : ScopeStep s.outer outer)
      (hl : ∀ l : L, outer.call (.inr l) = s.outer.call (.inr l)) :
    ListeningStep s () { s with outer := outer }
  /-- A service registers operations, runs its handler and drops the operations again. -/
  | inner {scopes : ScopeSystem (Option J) X T} {l : L} (hp : (s.pc l).Spawned)
      (hs : SystemStep (s.inner l) () scopes)
      (hi : s.taskCall l = .idle → scopes.scope.call none = .idle) :
    ListeningStep s () (s.within l scopes)

end Steps

end Dhttp.Api
