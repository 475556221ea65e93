import Dhttp.Home.Names

namespace Dhttp.Client
open Dhttp.Lib Dhttp.Home
set_option autoImplicit true

/-- The parts of a URI other than its authority. -/
structure PathAndQuery where
  path : Text
  query : Option Text
  deriving Repr, DecidableEq

/-- What the `http` crate decides: the texts it reads as an authority, all of them visible ASCII,
so that offsets in bytes are offsets in characters, and the parts it puts together to a URI. -/
structure HttpCrate where
  InvalidUri : Type
  parseAuthority : Text → Except InvalidUri Unit
  visible : ∀ {raw}, parseAuthority raw = .ok () → ∀ c ∈ raw, isVisible c = true
  fromParts : Option Text → Bool → Option PathAndQuery → Except Text Unit

variable {H : HttpCrate}

structure Authority (H : HttpCrate) where
  raw : Text
  parsed : H.parseAuthority raw = .ok ()

/-- `FromStr` of an authority. -/
def Authority.parse (H : HttpCrate) (raw : Text) : Except H.InvalidUri (Authority H) :=
  match h : H.parseAuthority raw with
  | .ok () => .ok ⟨raw, h⟩
  | .error e => .error e

namespace Authority

/-- Everything up to and including the last `@`. -/
def userInfo (authority : Authority H) : Text := throughLast '@' authority.raw

def hostPort (authority : Authority H) : Text := afterLast '@' authority.raw

/-- The host of an authority without user information: a bracketed address, or what stands before
the first colon. -/
def hostOf (hostPort : Text) : Text :=
  if hostPort.head? = some '[' then
    match splitOnce ']' hostPort with
    | some (address, _) => address ++ [']']
    | none => hostPort
  else hostPort.takeWhile (· ≠ ':')

def host (authority : Authority H) : Text := hostOf authority.hostPort

/-- What follows the host: a colon and a port or sequence, or nothing. -/
def port (authority : Authority H) : Text := authority.hostPort.drop authority.host.length

end Authority

structure Uri (H : HttpCrate) where
  scheme : Option Text
  authority : Option (Authority H)
  pathAndQuery : Option PathAndQuery
  consistent : H.fromParts scheme authority.isSome pathAndQuery = .ok ()

inductive Error (H : HttpCrate) where
  | invalidName (name : Text)
  | invalidRequest (message : Text)
  | invalidUri (source : H.InvalidUri)

/-- The host ends with the DHTTP suffix in any letter case. -/
def endsWithSuffix (host : Text) : Bool := dhttpSuffix.isSuffixOf (toAsciiLowercase host)

/-- The host an authority is delivered under, or nothing where it stays as it is. -/
def replacement (H : HttpCrate) (base : Option Text) (host : Text) :
    Except (Error H) (Option Text) :=
  if host = ['~'] then
    match base with
    | none => .error (.invalidRequest
        "cannot expand bare dhttp shorthand without a base name".toList)
    | some base =>
      match normalizeName base with
      | none => .error (.invalidRequest "invalid local DHTTP name".toList)
      | some name => .ok (some name)
  else if '~' ∈ host then
    let canonical := toAsciiLowercase (replace '~' dhttpSuffix host)
    if isValidDnsName canonical then .ok (some canonical)
    else .error (.invalidRequest ("invalid DHTTP shorthand host: ".toList ++ host))
  else if endsWithSuffix host then
    match normalizeName host with
    | none => .error (.invalidRequest ("invalid DHTTP authority host: ".toList ++ host))
    | some name => .ok (some name)
  else .ok none

/-- The length of the user information is taken up to the first `@`. -/
def userInfoLen (raw : Text) : Nat :=
  match splitOnce '@' raw with
  | some (userInfo, _) => userInfo.length + 1
  | none => 0

/-- The text of the new authority, cut out of the old one. -/
def expanded (authority : Authority H) (replacement : Text) : Text :=
  let raw := authority.raw
  if raw = authority.host then replacement
  else raw.take (userInfoLen raw) ++ replacement ++
    raw.drop (userInfoLen raw + authority.host.length)

def expandAuthorityWithBase (base : Option Text) (authority : Authority H) :
    Except (Error H) (Authority H) :=
  match replacement H base authority.host with
  | .error e => .error e
  | .ok none => .ok authority
  | .ok (some replacement) =>
    (Authority.parse H (expanded authority replacement)).mapError .invalidUri

/-- `Uri::from_parts`, its error as a message. -/
def Uri.fromParts (scheme : Option Text) (authority : Option (Authority H))
    (pathAndQuery : Option PathAndQuery) : Except (Error H) (Uri H) :=
  match h : H.fromParts scheme authority.isSome pathAndQuery with
  | .ok () => .ok ⟨scheme, authority, pathAndQuery, h⟩
  | .error message => .error (.invalidRequest message)

/-- Expand shorthand before routing or delivering a request. -/
def expandUriWithBase (base : Option Text) (uri : Uri H) : Except (Error H) (Uri H) :=
  match uri.authority with
  | none => Uri.fromParts uri.scheme none uri.pathAndQuery
  | some authority =>
    match expandAuthorityWithBase base authority with
    | .error e => .error e
    | .ok authority => Uri.fromParts uri.scheme (some authority) uri.pathAndQuery

theorem Authority.ext {a b : Authority H} (h : a.raw = b.raw) : a = b := by
  cases a
  cases b
  cases h
  rfl

theorem Authority.parse_ok {raw : Text} {a : Authority H} :
    Authority.parse H raw = .ok a ↔ a.raw = raw := by
  rw [Authority.parse]
  split
  · rename_i h
    constructor
    · intro he
      cases he
      rfl
    · intro he
      exact congrArg Except.ok (Authority.ext he.symm)
  · rename_i h
    constructor
    · intro he
      cases he
    · intro he
      rw [← he, a.parsed] at h
      cases h

theorem Uri.ext {uri uri' : Uri H} (hs : uri.scheme = uri'.scheme)
    (ha : uri.authority = uri'.authority) (hp : uri.pathAndQuery = uri'.pathAndQuery) :
    uri = uri' := by
  cases uri
  cases uri'
  cases hs
  cases ha
  cases hp
  rfl

theorem Uri.fromParts_ok {scheme : Option Text} {authority : Option (Authority H)}
    {pathAndQuery : Option PathAndQuery} {uri : Uri H} :
    Uri.fromParts scheme authority pathAndQuery = .ok uri ↔
      uri.scheme = scheme ∧ uri.authority = authority ∧ uri.pathAndQuery = pathAndQuery := by
  rw [Uri.fromParts]
  split
  · constructor
    · intro h
      cases h
      exact ⟨rfl, rfl, rfl⟩
    · rintro ⟨hs, ha, hp⟩
      exact congrArg Except.ok (Uri.ext hs.symm ha.symm hp.symm)
  · rename_i h
    constructor
    · intro he
      cases he
    · rintro ⟨rfl, rfl, rfl⟩
      rw [uri.consistent] at h
      cases h

namespace Authority

theorem userInfo_hostPort (a : Authority H) : a.userInfo ++ a.hostPort = a.raw :=
  throughLast_append_afterLast ..

theorem not_mem_hostPort (a : Authority H) : '@' ∉ a.hostPort :=
  not_mem_afterLast '@' a.raw

theorem hostOf_begins (s : Text) : hostOf s <+: s := by
  rw [hostOf]
  split
  · split
    · rename_i address rest hs
      exact ⟨rest, by rw [(splitOnce_eq_some.1 hs).2, List.append_assoc, List.singleton_append]⟩
    · exact List.prefix_refl s
  · exact List.takeWhile_prefix _

theorem host_port (a : Authority H) : a.host ++ a.port = a.hostPort :=
  List.prefix_iff_eq_append.1 (hostOf_begins a.hostPort)

theorem raw_eq (a : Authority H) : a.raw = a.userInfo ++ (a.host ++ a.port) := by
  rw [host_port, userInfo_hostPort]

theorem not_mem_host (a : Authority H) : '@' ∉ a.host := fun h =>
  a.not_mem_hostPort (a.host_port ▸ List.mem_append_left _ h)

theorem not_mem_port (a : Authority H) : '@' ∉ a.port := fun h =>
  a.not_mem_hostPort (a.host_port ▸ List.mem_append_right _ h)

theorem host_visible (a : Authority H) : ∀ c ∈ a.host, isVisible c = true := fun c hc =>
  H.visible a.parsed c (by
    rw [raw_eq]
    exact List.mem_append_right _ (List.mem_append_left _ hc))

/-- Unless it is bracketed the host ends before the first colon. -/
theorem host_takeWhile {a : Authority H} (h : '[' ∉ a.host) :
    a.host = a.hostPort.takeWhile (· ≠ ':') := by
  have hb : a.hostPort.head? ≠ some '[' := by
    intro hb
    obtain ⟨rest, hr⟩ : ∃ rest, a.hostPort = '[' :: rest := by
      cases hp : a.hostPort with
      | nil => rw [hp] at hb; cases hb
      | cons c rest => rw [hp] at hb; cases hb; exact ⟨rest, rfl⟩
    apply h
    rw [host, hostOf, if_pos hb]
    split
    · rename_i address after hs
      have hs := (splitOnce_eq_some.1 hs).2
      rw [hr] at hs
      cases address with
      | nil => cases hs
      | cons c address => cases hs; exact List.mem_cons_self ..
    · rw [hr]
      exact List.mem_cons_self ..
  rw [host, hostOf, if_neg hb]

theorem colon_not_mem_host {a : Authority H} (h : '[' ∉ a.host) : ':' ∉ a.host := by
  intro hm
  rw [host_takeWhile h] at hm
  have hp := List.mem_takeWhile_imp hm
  simp at hp

/-- A suffix after the host starts with a colon, unless the host is bracketed. -/
theorem port_cases (a : Authority H) (h : '[' ∉ a.host) :
    a.port = [] ∨ ∃ digits, a.port = ':' :: digits := by
  have hp : a.port = a.hostPort.dropWhile (· ≠ ':') := by
    have hsplit : a.host ++ a.port = a.host ++ a.hostPort.dropWhile (· ≠ ':') := by
      conv_rhs => rw [host_takeWhile h, List.takeWhile_append_dropWhile]
      exact a.host_port
    exact List.append_cancel_left hsplit
  cases hd : a.hostPort.dropWhile (· ≠ ':') with
  | nil => exact .inl (hp.trans hd)
  | cons c digits =>
    have hc := List.head?_dropWhile_not (fun c => decide (c ≠ ':')) a.hostPort
    rw [hd] at hc
    have hc : c = ':' := of_decide_eq_true (by simpa using hc)
    exact .inr ⟨digits, hp.trans (by rw [hd, hc])⟩

/-- An authority put together around a host without brackets and colons has that host. -/
theorem parts_of_host {a : Authority H} {host u p : Text} (hne : host ≠ []) (hat : '@' ∉ host)
    (hcolon : ':' ∉ host) (hbracket : '[' ∉ host) (hr : a.raw = u ++ (host ++ p))
    (hu : throughLast '@' u = u) (hn : '@' ∉ p) (hp : p = [] ∨ ∃ digits, p = ':' :: digits) :
    a.userInfo = u ∧ a.host = host ∧ a.port = p := by
  have hrest : '@' ∉ host ++ p := by
    rw [List.mem_append, not_or]
    exact ⟨hat, hn⟩
  have hui : a.userInfo = u := by rw [userInfo, hr, throughLast_append u hrest, hu]
  have hhp : a.hostPort = host ++ p := by
    have h := a.userInfo_hostPort
    rw [hui, hr] at h
    exact List.append_cancel_left h
  have hhost : a.host = host := by
    have hb : (host ++ p).head? ≠ some '[' := by
      rw [List.head?_append_of_ne_nil _ hne]
      exact fun hb => hbracket (List.mem_of_mem_head? hb)
    rw [Authority.host, hhp, hostOf, if_neg hb]
    exact takeWhile_sep hcolon hp
  refine ⟨hui, hhost, ?_⟩
  have h := a.host_port
  rw [hhost, hhp] at h
  exact List.append_cancel_left h

/-- An authority put together around a DNS name has that name as its host. -/
theorem parts_of_raw {a : Authority H} (hv : isValidDnsName name = true) {u p : Text}
    (hr : a.raw = u ++ (name ++ p)) (hu : throughLast '@' u = u) (hn : '@' ∉ p)
    (hp : p = [] ∨ ∃ digits, p = ':' :: digits) :
    a.userInfo = u ∧ a.host = name ∧ a.port = p :=
  parts_of_host (ne_nil_of_valid hv) (not_mem_of_valid hv (by decide))
    (not_mem_of_valid hv (by decide)) (not_mem_of_valid hv (by decide)) hr hu hn hp

end Authority

end Dhttp.Client
