import Dhttp.Network.InterfaceSnapshot
import Dhttp.Network.NatMappings

namespace Dhttp.Network
open Dhttp.Lib Dhttp.Home
set_option autoImplicit true

inductive Scope where
  | external
  | loopback
  | internal
  deriving DecidableEq

/-- An address published for a socket; it is recorded for the socket's local address. -/
structure Publication (S : Type) where
  socket : S
  outer : Bool
  deriving DecidableEq

abbrev Endpoint := EndpointAddr SocketAddr

/-- The dock, the QUIC registrations and the address book. -/
structure Stores (S : Type) where
  dock : Registry SocketAddr S
  quic : Registry Endpoint S
  book : Registry Endpoint (Publication S)

structure Binding (S : Type) where
  bound : SocketAddr
  socket : S

/-- What the operating system and the libraries decide once and for all. -/
structure Platform (S D : Type) where
  os : Text
  boundDevice : Text → BitVec 32 → Option D
  localAddr : S → SocketAddr
  scope : Endpoint → Option Scope

/-- What happens to the sockets of one scan, and the order in which it comes to what is wanted. -/
structure Outcomes (S D : Type) where
  order : IterationOrder (InterfaceAddress × D)
  bind : InterfaceAddress → D → Option S
  localAddrFails : S → Bool
  addFails : S → Bool
  publishFails : S → Bool

/-- The context, the stores it shares with others, the receivers that have finished, and on
record which sockets it has created and which publications it has made. -/
structure InterfacesCtx (S : Type) where
  snapshot : List Interface
  bindings : List (InterfaceAddress × Binding S)
  stores : Stores S
  finished : S → Bool
  created : List S
  inserted : List (S × Endpoint)

section Scan
variable {S D : Type} [DecidableEq S]

def keys (bindings : List (InterfaceAddress × Binding S)) : List InterfaceAddress :=
  bindings.map Prod.fst

/-- `Dock::add`: none where the address is registered already. -/
def add (out : Outcomes S D) (socket : S) (bound : SocketAddr) (stores : Stores S) :
    Except Unit (Option (Stores S)) :=
  if (stores.dock bound).isSome then .ok none
  else if out.addFails socket || (stores.quic (.direct bound)).isSome then .error ()
  else .ok (some { stores with
    dock := stores.dock.enter socket bound
    quic := stores.quic.enter socket (.direct bound) })

/-- `Dock::remove`. -/
def Stores.undock (stores : Stores S) (socket : S) : Stores S :=
  { stores with dock := stores.dock.release socket, quic := stores.quic.release socket }

/-- `AddressBook::remove_bound`. -/
def Stores.removeBound (platform : Platform S D) (stores : Stores S) (bound : SocketAddr) :
    Stores S :=
  { stores with
    book := fun endpoint =>
      if (stores.book endpoint).any (platform.localAddr ·.socket == bound) then none
      else stores.book endpoint }

/-- The binding and the publications made for it, none where the registration fails. -/
structure Registered (S : Type) where
  binding : Binding S
  inserted : List (S × Endpoint)

def register (platform : Platform S D) (out : Outcomes S D) (socket : S) (stores : Stores S) :
    Option (Registered S) × Stores S :=
  if out.localAddrFails socket then (none, stores)
  else
    let bound := platform.localAddr socket
    match add out socket bound stores with
    | .error () => (none, stores)
    | .ok none => (none, stores)
    | .ok (some stores) =>
      match platform.scope (.direct bound) with
      | none => (some ⟨⟨bound, socket⟩, []⟩, stores)
      | some scope =>
        if out.publishFails socket || (stores.book (.direct bound)).isSome then
          (none, stores.undock socket)
        else
          (some ⟨⟨bound, socket⟩, [(socket, .direct bound)]⟩, { stores with
            book := stores.book.enter ⟨socket, scope == .external⟩ (.direct bound) })

def live (ctx : InterfacesCtx S) (binding : Binding S) : Bool :=
  !ctx.finished binding.socket && ctx.stores.dock binding.bound == some binding.socket

def wanted (platform : Platform S D) (ctx : InterfacesCtx S) : List (InterfaceAddress × D) :=
  interfaces platform.os platform.boundDevice ctx.snapshot

def obsolete (platform : Platform S D) (ctx : InterfacesCtx S)
    (entry : InterfaceAddress × Binding S) : Bool :=
  !live ctx entry.2 || !((wanted platform ctx).map Prod.fst).contains entry.1

def InterfacesCtx.remove (platform : Platform S D) (ctx : InterfacesCtx S)
    (entry : InterfaceAddress × Binding S) : InterfacesCtx S :=
  { ctx with
    bindings := ctx.bindings.filter (·.1 ≠ entry.1)
    stores := (ctx.stores.removeBound platform entry.2.bound).undock entry.2.socket }

/-- The loop body of `scan` for a wanted binding. -/
def InterfacesCtx.bind (platform : Platform S D) (out : Outcomes S D) (ctx : InterfacesCtx S)
    (device : InterfaceAddress × D) : InterfacesCtx S :=
  if (keys ctx.bindings).contains device.1 then ctx
  else
    match out.bind device.1 device.2 with
    | none => ctx
    | some socket =>
      match register platform out socket ctx.stores with
      | (none, stores) => { ctx with stores := stores, created := socket :: ctx.created }
      | (some registered, stores) => { ctx with
          stores := stores
          created := socket :: ctx.created
          bindings := ctx.bindings ++ [(device.1, registered.binding)]
          inserted := ctx.inserted ++ registered.inserted }

/-- `scan`; the binding that is removed under an obsolete key is the one found under it. -/
def scan (platform : Platform S D) (out : Outcomes S D) (ctx : InterfacesCtx S) :
    InterfacesCtx S :=
  (out.order.list (wanted platform ctx)).foldl (InterfacesCtx.bind platform out)
    ((ctx.bindings.filter (obsolete platform ctx)).foldl (InterfacesCtx.remove platform) ctx)

end Scan

end Dhttp.Network
