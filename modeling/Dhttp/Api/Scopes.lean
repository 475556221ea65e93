import Dhttp.Api.Lifecycle
import Dhttp.Lib.Interleaving

namespace Dhttp.Api
open Dhttp.Lib
set_option autoImplicit true

/-- Who cancels a scope: `cancel`, `close`, or the drop of its last handle. -/
inductive StopKind where
  | cancel
  | close
  | drop
  deriving DecidableEq, Repr

/-- How far a call on a scope is. From `locked` to `linked` it holds the mutex. -/
inductive ScopeCall where
  | idle
  | registering
  | locked
  | passed
  | tracked
  | linked
  | registered
  | dropped
  | refused (error : Error)
  | stopping (kind : StopKind)
  | cancelling (kind : StopKind)
  | untracking (kind : StopKind)
  | waiting
  | stopped (kind : StopKind)
  deriving DecidableEq

namespace ScopeCall

def HoldsLock : ScopeCall → Prop
  | locked | passed | tracked | linked => True
  | _ => False

/-- The check found the scope open, and the mutex is still held. -/
def Admitted : ScopeCall → Prop
  | passed | tracked | linked => True
  | _ => False

/-- The call's operation has a token of the tracker. -/
def Live : ScopeCall → Prop
  | tracked | linked | registered => True
  | _ => False

/-- The call's operation has its cancellation token, which outlives the operation. -/
def HasToken : ScopeCall → Prop
  | linked | registered | dropped => True
  | _ => False

end ScopeCall

/-- The calls on a scope and what they share: the mutex and its flag, the cancellation tokens of
the scope and of the operations, and the tracker. -/
structure Scope (I : Type) where
  call : I → ScopeCall
  lock : Option I
  closed : Bool
  cancelled : Bool
  trackerClosed : Bool
  operationCancelled : I → Bool
  firstError : I → Option Error

def closedError : Error := .new .closed "SDK handle is closed"

namespace Scope

def new (I : Type) : Scope I where
  call _ := .idle
  lock := none
  closed := false
  cancelled := false
  trackerClosed := false
  operationCancelled _ := false
  firstError _ := none

def ensureOpen (s : Scope I) : Except Error Unit :=
  if s.closed then .error closedError else .ok ()

def state (s : Scope I) (i : I) : OperationState :=
  ⟨s.operationCancelled i, s.cancelled, s.firstError i⟩

variable {I : Type} [DecidableEq I]

def go (s : Scope I) (i : I) (call : ScopeCall) : Scope I :=
  { s with call := Function.update s.call i call }

def cancelOperation (s : Scope I) (i : I) (cancelled : Bool) : Scope I :=
  { s with operationCancelled := Function.update s.operationCancelled i cancelled }

end Scope

section Steps
variable {I : Type} [DecidableEq I]

/-- One step of a call on a scope, or of a holder of one of its operations. -/
inductive ScopeStep : Scope I → Scope I → Prop
  | register {s : Scope I} {i : I} (hp : s.call i = .idle) : ScopeStep s (s.go i .registering)
  | lock {s : Scope I} {i : I} (hp : s.call i = .registering) (hl : s.lock = none) :
    ScopeStep s { s.go i .locked with lock := some i }
  | refuse {s : Scope I} {i : I} (hp : s.call i = .locked) (hc : s.ensureOpen = .error error) :
    ScopeStep s { s.go i (.refused error) with lock := none }
  | pass {s : Scope I} {i : I} (hp : s.call i = .locked) (hc : s.ensureOpen = .ok ()) :
    ScopeStep s (s.go i .passed)
  | track {s : Scope I} {i : I} (hp : s.call i = .passed) : ScopeStep s (s.go i .tracked)
  /-- The child of a cancelled token is cancelled from the start. -/
  | link {s : Scope I} {i : I} (hp : s.call i = .tracked) :
    ScopeStep s ((s.go i .linked).cancelOperation i s.cancelled)
  | registered {s : Scope I} {i : I} (hp : s.call i = .linked) :
    ScopeStep s { s.go i .registered with lock := none }
  | drop {s : Scope I} {i : I} (hp : s.call i = .registered) : ScopeStep s (s.go i .dropped)
  | stop {s : Scope I} {i : I} (hp : s.call i = .idle) (hk : kind ≠ .drop) :
    ScopeStep s (s.go i (.stopping kind))
  /-- The last handle is dropped: the tokens are cancelled and nothing else. -/
  | release {s : Scope I} {i : I} (hp : s.call i = .idle) :
    ScopeStep s (s.go i (.cancelling .drop))
  | setClosed {s : Scope I} {i : I} (hp : s.call i = .stopping kind) (hl : s.lock = none) :
    ScopeStep s { s.go i (.cancelling kind) with closed := true }
  | cancelChild {s : Scope I} {i j : I} (hp : s.call i = .cancelling kind)
      (hj : (s.call j).HasToken) : ScopeStep s (s.cancelOperation j true)
  /-- The token of the scope counts as cancelled when its children are. -/
  | cancelScope {s : Scope I} {i : I} (hp : s.call i = .cancelling kind)
      (hall : ∀ j, (s.call j).HasToken → s.operationCancelled j = true) :
    ScopeStep s { s.go i (if kind = .drop then .stopped kind else .untracking kind) with
      cancelled := true }
  | closeTracker {s : Scope I} {i : I} (hp : s.call i = .untracking kind) :
    ScopeStep s { s.go i (if kind = .close then .waiting else .stopped kind) with
      trackerClosed := true }
  /-- `TaskTracker::wait` returns when the tracker is closed and has no token. -/
  | waited {s : Scope I} {i : I} (hp : s.call i = .waiting) (ht : s.trackerClosed = true)
      (hlive : ∀ j, ¬ (s.call j).Live) : ScopeStep s (s.go i (.stopped .close))
  | storeError {s : Scope I} {j : I} (hj : (s.call j).HasToken) :
    ScopeStep s { s with
      firstError := Function.update s.firstError j (s.state j |>.fail error).firstError }
  | cancelToken {s : Scope I} {j : I} (hj : (s.call j).HasToken) :
    ScopeStep s (s.cancelOperation j true)

end Steps

/-- A call of `OperationState::run` on the state of operation `i`. -/
inductive RunPc (I T : Type) where
  | unstarted
  | between (i : I)
  | polling (i : I)
  | failing (i : I)
  | done (result : Except Error T)

/-- `polls` counts how often the future was polled. -/
structure OperationRun (I T : Type) where
  pc : RunPc I T
  polls : Nat

/-- A poll looks at the token first; the future is polled only if it is not cancelled. -/
inductive RunStep {I T : Type} (s : Scope I) : OperationRun I T → OperationRun I T → Prop
  | start (hj : (s.call j).HasToken) : RunStep s ⟨.unstarted, n⟩ ⟨.between j, n⟩
  | cancelled (hc : (s.state j).cancelled = true) : RunStep s ⟨.between j, n⟩ ⟨.failing j, n⟩
  | fails : RunStep s ⟨.failing j, n⟩ ⟨.done (.error (s.state j).error), n⟩
  | poll (hc : (s.state j).cancelled = false) : RunStep s ⟨.between j, n⟩ ⟨.polling j, n + 1⟩
  | pending : RunStep s ⟨.polling j, n⟩ ⟨.between j, n⟩
  | ready : RunStep s ⟨.polling j, n⟩ ⟨.done result, n⟩

structure ScopeSystem (I R T : Type) where
  scope : Scope I
  run : R → OperationRun I T

def scopeSystem (I R T : Type) : ScopeSystem I R T := ⟨.new I, fun _ => ⟨.unstarted, 0⟩⟩

inductive SystemStep {I R T : Type} [DecidableEq I] [DecidableEq R] :
    ScopeSystem I R T → Unit → ScopeSystem I R T → Prop
  | scope (h : ScopeStep s.scope scope) : SystemStep s () { s with scope := scope }
  | run (r : R) (h : RunStep s.scope (s.run r) run) :
    SystemStep s () { s with run := Function.update s.run r run }

end Dhttp.Api
