import Dhttp.Home.Names
import Mathlib.Data.List.Nodup

namespace Dhttp.Network
open Dhttp.Home
set_option autoImplicit true

def stripPrefix (pre name : Text) : Option Text :=
  if pre.isPrefixOf name then some (name.drop pre.length) else none

def stripSuffix (suffix name : Text) : Option Text :=
  (stripPrefix suffix.reverse name.reverse).map List.reverse

def isHexDigit (c : Char) : Bool :=
  c.isDigit || ('a' ≤ c && c ≤ 'f') || ('A' ≤ c && c ≤ 'F')

def numberedInterface (name pre : Text) : Bool :=
  (stripPrefix pre name).any fun suffix => !suffix.isEmpty && suffix.all Char.isDigit

def excludedOnApple (name : Text) : Bool :=
  ["bridge", "awdl", "llw", "vboxnet"].any (numberedInterface name ·.toList) ||
    ["vmnet1", "vmnet8"].any (name == ·.toList)

def excludedOnLinux (name : Text) : Bool :=
  ["docker", "podman", "cni", "flannel.", "virbr", "vboxnet", "dummy", "ifb"].any
      (numberedInterface name ·.toList) ||
    ["docker_gwbridge", "kube-ipvs0", "vmnet1", "vmnet8"].any (name == ·.toList) ||
    (stripSuffix "-nic".toList name).any (numberedInterface · "virbr".toList) ||
    (stripPrefix "br-".toList name).any
      (fun suffix => utf8Length suffix == 12 && suffix.all isHexDigit) ||
    (stripPrefix "veth".toList name).any fun suffix => !suffix.isEmpty && suffix.all isHexDigit

def excludedOnWindows (name : Text) : Bool :=
  let name := toAsciiLowercase name
  ["vethernet (default switch)", "vethernet (dockernat)", "vethernet (wsl)",
      "vethernet (wsl (hyper-v firewall))", "vmware network adapter vmnet1",
      "vmware network adapter vmnet8"].any (name == ·.toList) ||
    ["virtualbox host-only ethernet adapter", "virtualbox host-only network"].any fun base =>
      name == base.toList ||
        (stripPrefix base.toList name).any (numberedInterface · " #".toList)

/-- Known auxiliary interfaces of a platform. -/
def excludedInterface (name os : Text) : Bool :=
  if os == "macos".toList || os == "ios".toList then excludedOnApple name
  else if os == "linux".toList || os == "android".toList then excludedOnLinux name
  else if os == "windows".toList then excludedOnWindows name
  else false

example : excludedInterface ['v', 'e', 't', 'h', '0', 'a'] ['l', 'i', 'n', 'u', 'x'] = true ∧
    excludedInterface ['v', 'e', 't', 'h', '-', 'u'] ['l', 'i', 'n', 'u', 'x'] = false := by
  decide

inductive IpAddr where
  | v4 (bits : BitVec 32)
  | v6 (bits : BitVec 128)
  deriving DecidableEq

namespace IpAddr

def isUnspecified : IpAddr → Bool
  | v4 bits => bits == 0
  | v6 bits => bits == 0

def isMulticast : IpAddr → Bool
  | v4 bits => bits >>> 28 == 0xE
  | v6 bits => bits >>> 120 == 0xFF

def isBroadcast : IpAddr → Bool
  | v4 bits => bits == 0xFFFFFFFF
  | v6 _ => false

def isUnicastLinkLocal (bits : BitVec 128) : Bool := bits >>> 118 == 0x3FA

/-- The addresses that a socket of ours can be bound to. -/
def usable (ip : IpAddr) : Bool := !(ip.isUnspecified || ip.isMulticast || ip.isBroadcast)

end IpAddr

inductive SocketAddr where
  | v4 (ip : BitVec 32) (port : BitVec 16)
  | v6 (ip : BitVec 128) (port : BitVec 16) (flowinfo scopeId : BitVec 32)
  deriving DecidableEq

structure Interface where
  index : BitVec 32
  name : Text
  hwAddr : Text
  ips : List IpAddr

/-- A binding that is wanted; its port is open. -/
structure InterfaceAddress where
  name : Text
  index : BitVec 32
  hwAddr : Text
  addr : SocketAddr
  deriving DecidableEq

/-- The address to bind, with the scope of the device where it is link-local. -/
def unboundAddr (interface : Interface) : IpAddr → SocketAddr
  | .v4 ip => .v4 ip 0
  | .v6 ip => .v6 ip 0 0 (if IpAddr.isUnicastLinkLocal ip then interface.index else 0)

/-- `HashMap::insert`. -/
def insertKey [DecidableEq K] (key : K) (value : V) (map : List (K × V)) : List (K × V) :=
  map.filter (·.1 ≠ key) ++ [(key, value)]

/-- The wanted bindings of a snapshot with their devices. -/
def interfaces (os : Text) (boundDevice : Text → BitVec 32 → Option D)
    (snapshot : List Interface) : List (InterfaceAddress × D) :=
  snapshot.foldl (fun current interface =>
    if excludedInterface interface.name os then current
    else
      match boundDevice interface.name interface.index with
      | none => current
      | some device =>
        interface.ips.foldl (fun current ip =>
          if !ip.usable then current
          else
            insertKey ⟨interface.name, interface.index, interface.hwAddr, unboundAddr interface ip⟩
              device current) current) []

theorem nodup_insertKey [DecidableEq K] {map : List (K × V)} (h : (map.map Prod.fst).Nodup)
    (key : K) (value : V) : ((insertKey key value map).map Prod.fst).Nodup := by
  rw [insertKey, List.map_append, List.map_singleton, List.nodup_append]
  refine ⟨h.sublist (List.filter_sublist.map _), List.nodup_singleton key, ?_⟩
  intro a ha b hb
  obtain ⟨pair, hm, rfl⟩ := List.mem_map.1 ha
  rw [List.mem_singleton.1 hb]
  simpa using (List.mem_filter.1 hm).2

end Dhttp.Network
