import Dhttp.Lib.Interleaving

namespace Dhttp.Network
open Dhttp.Lib
set_option autoImplicit true

abbrev Name := List Char

inductive ListenerError where
  | invalidName (name : Name)
  | alreadyListening
  | nameInUse (name : Name)
  | io (message : String)
  /-- What a library returns. -/
  | library
  deriving DecidableEq

/-- An entry of the QUIC server registry. On record: the listen that its callback comes from, if it
is one of ours. -/
structure Registration (I C S R E : Type) where
  credentials : C
  scopes : S
  acceptCb : R → E
  owner : Option I

/-- What `listen` is called with, and the callback it makes. -/
structure ListenCall (C S R E : Type) where
  name : Name
  credentials : C
  scopes : S
  accept : R → E

/-- An endpoint as `reload` looks at it. -/
structure Reloaded (H C : Type) where
  name : Name
  certChain : H
  credentials : C
  ocspValid : Bool

/-- The endpoint that `reload` is called on, and what the profile has been loaded to. -/
structure ReloadCall (H C : Type) where
  name : Name
  certChain : H
  loaded : Except ListenerError (Reloaded H C)

def certificateChanged : ListenerError := .io "certificate chain changed; restart required"

def registrationDisappeared : ListenerError := .io "listener TLS registration disappeared"

/-- The checks of `replace_staple`. -/
def ReloadCall.check [DecidableEq H] (call : ReloadCall H C) : Except ListenerError C :=
  match call.loaded with
  | .error error => .error error
  | .ok replacement =>
    if replacement.name ≠ call.name then .error (.invalidName replacement.name)
    else if replacement.certChain ≠ call.certChain then .error certificateChanged
    else if !replacement.ocspValid then .error .library
    else .ok replacement.credentials

/-- Where a `listen` is, and then its future. -/
inductive ListenPc where
  | waiting
  | checking
  | asking
  | registering
  | inserting
  | unlocking
  | listening
  | dropping
  | removing
  | unregistering
  | releasing
  | dropped
  deriving DecidableEq

/-- Where a `reload` is, with what it has got from the registry. -/
inductive ReloadPc (I C S R E : Type) where
  | waiting (credentials : C)
  | checking (credentials : C)
  | getting (credentials : C)
  | building (credentials : C) (registered : Registration I C S R E)
  | registering (credentials : C) (registered : Registration I C S R E)
  | unlocking
  | returned

inductive CallPc (I C S R E : Type) where
  | idle
  | listen (pc : ListenPc)
  | reload (pc : ReloadPc I C S R E)
  /-- The lock is about to be released with an error. -/
  | refusing (error : ListenerError)
  | failed (error : ListenerError)

/-- The calls, the lock of the listeners, the listeners with the call whose service they have, and
the QUIC server registry. -/
structure Listeners (I C S R E : Type) where
  pc : I → CallPc I C S R E
  lock : Option I
  listeners : Name → Option I
  registry : Name → Option (Registration I C S R E)

/-- No listener; the registry may have entries of others. -/
def noListeners (registry : Name → Option (Registration I C S R E)) : Listeners I C S R E where
  pc _ := .idle
  lock := none
  listeners _ := none
  registry := registry

section Steps
variable {I C S R E H : Type} [DecidableEq I] [DecidableEq H]

namespace Listeners

def go (s : Listeners I C S R E) (i : I) (pc : CallPc I C S R E) : Listeners I C S R E :=
  { s with pc := Function.update s.pc i pc }

/-- The lock is taken. -/
def take (s : Listeners I C S R E) (i : I) (pc : CallPc I C S R E) : Listeners I C S R E :=
  { s.go i pc with lock := some i }

/-- The lock is released. -/
def release (s : Listeners I C S R E) (i : I) (pc : CallPc I C S R E) : Listeners I C S R E :=
  { s.go i pc with lock := none }

end Listeners

def ListenCall.registration (call : ListenCall C S R E) (i : I) : Registration I C S R E :=
  ⟨call.credentials, call.scopes, call.accept, some i⟩

/-- The entry that `reload` replaces the registered one by. -/
def Registration.replace (registered : Registration I C S R E) (credentials : C) :
    Registration I C S R E :=
  { registered with
    credentials := credentials
    acceptCb := fun result => registered.acceptCb result }

/-- A step of a listen, of the drop of its future or of a reload. A call of the library does what
it says or fails with no effect. -/
inductive ListenerStep (listens : I → ListenCall C S R E) (reloads : I → ReloadCall H C) :
    Listeners I C S R E → I → Listeners I C S R E → Prop
  | configure (hp : s.pc i = .idle) :
    ListenerStep listens reloads s i (s.go i (.listen .waiting))
  | configureFailed (hp : s.pc i = .idle) :
    ListenerStep listens reloads s i (s.go i (.failed .library))
  | lock (hp : s.pc i = .listen .waiting) (hl : s.lock = none) :
    ListenerStep listens reloads s i (s.take i (.listen .checking))
  | alreadyListening (hp : s.pc i = .listen .checking)
      (hc : s.listeners (listens i).name ≠ none) :
    ListenerStep listens reloads s i (s.go i (.refusing .alreadyListening))
  | unlisted (hp : s.pc i = .listen .checking) (hc : s.listeners (listens i).name = none) :
    ListenerStep listens reloads s i (s.go i (.listen .asking))
  | nameInUse (hp : s.pc i = .listen .asking) (hr : s.registry (listens i).name ≠ none) :
    ListenerStep listens reloads s i (s.go i (.refusing (.nameInUse (listens i).name)))
  | unused (hp : s.pc i = .listen .asking) (hr : s.registry (listens i).name = none) :
    ListenerStep listens reloads s i (s.go i (.listen .registering))
  | register (hp : s.pc i = .listen .registering) :
    ListenerStep listens reloads s i { s.go i (.listen .inserting) with
      registry := Function.update s.registry (listens i).name
        (some ((listens i).registration i)) }
  | registerFailed (hp : s.pc i = .listen .registering) :
    ListenerStep listens reloads s i (s.go i (.refusing .library))
  | insert (hp : s.pc i = .listen .inserting) :
    ListenerStep listens reloads s i { s.go i (.listen .unlocking) with
      listeners := Function.update s.listeners (listens i).name (some i) }
  | unlock (hp : s.pc i = .listen .unlocking) :
    ListenerStep listens reloads s i (s.release i (.listen .listening))
  | drop (hp : s.pc i = .listen .listening) :
    ListenerStep listens reloads s i (s.go i (.listen .dropping))
  | lockDrop (hp : s.pc i = .listen .dropping) (hl : s.lock = none) :
    ListenerStep listens reloads s i (s.take i (.listen .removing))
  | remove (hp : s.pc i = .listen .removing) :
    ListenerStep listens reloads s i { s.go i (.listen .unregistering) with
      listeners := Function.update s.listeners (listens i).name none }
  | unregister (hp : s.pc i = .listen .unregistering) :
    ListenerStep listens reloads s i { s.go i (.listen .releasing) with
      registry := Function.update s.registry (listens i).name none }
  | unlockDrop (hp : s.pc i = .listen .releasing) :
    ListenerStep listens reloads s i (s.release i (.listen .dropped))
  | reload (hp : s.pc i = .idle) (hc : (reloads i).check = .ok credentials) :
    ListenerStep listens reloads s i (s.go i (.reload (.waiting credentials)))
  | reloadRefused (hp : s.pc i = .idle) (hc : (reloads i).check = .error error) :
    ListenerStep listens reloads s i (s.go i (.failed error))
  | lockReload (hp : s.pc i = .reload (.waiting credentials)) (hl : s.lock = none) :
    ListenerStep listens reloads s i (s.take i (.reload (.checking credentials)))
  | notListening (hp : s.pc i = .reload (.checking credentials))
      (hc : s.listeners (reloads i).name = none) :
    ListenerStep listens reloads s i (s.go i (.reload .unlocking))
  | isListening (hp : s.pc i = .reload (.checking credentials))
      (hc : s.listeners (reloads i).name ≠ none) :
    ListenerStep listens reloads s i (s.go i (.reload (.getting credentials)))
  | disappeared (hp : s.pc i = .reload (.getting credentials))
      (hr : s.registry (reloads i).name = none) :
    ListenerStep listens reloads s i (s.go i (.refusing registrationDisappeared))
  | get (hp : s.pc i = .reload (.getting credentials))
      (hr : s.registry (reloads i).name = some registered) :
    ListenerStep listens reloads s i (s.go i (.reload (.building credentials registered)))
  | build (hp : s.pc i = .reload (.building credentials registered)) :
    ListenerStep listens reloads s i (s.go i (.reload (.registering credentials registered)))
  | buildFailed (hp : s.pc i = .reload (.building credentials registered)) :
    ListenerStep listens reloads s i (s.go i (.refusing .library))
  | replace (hp : s.pc i = .reload (.registering credentials registered)) :
    ListenerStep listens reloads s i { s.go i (.reload .unlocking) with
      registry := Function.update s.registry (reloads i).name
        (some (registered.replace credentials)) }
  | replaceFailed (hp : s.pc i = .reload (.registering credentials registered)) :
    ListenerStep listens reloads s i (s.go i (.refusing .library))
  | unlockReload (hp : s.pc i = .reload .unlocking) :
    ListenerStep listens reloads s i (s.release i (.reload .returned))
  | fail (hp : s.pc i = .refusing error) :
    ListenerStep listens reloads s i (s.release i (.failed error))

end Steps

end Dhttp.Network
