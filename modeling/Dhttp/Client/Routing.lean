import Dhttp.Client.ExpansionExactness

namespace Dhttp.Client
open Dhttp.Lib Dhttp.Home
set_option autoImplicit true

variable {H : HttpCrate}

/-- `strip_suffix('.')` or the text itself. -/
def stripDot (host : Text) : Text := if host.getLast? = some '.' then host.dropLast else host

/-- `str::parse::<u16>`. -/
def parseU16 (s : Text) : Option Nat :=
  let digits := if s.head? = some '+' then s.tail else s
  if digits ≠ [] ∧ digits.all Char.isDigit then
    let n := digits.foldl (fun n c => 10 * n + (c.toNat - 48)) 0
    if n < 65536 then some n else none
  else none

def schemeAccepted (scheme : Text) : Bool :=
  ["https".toList, "http".toList, "dhttp".toList, "wss".toList, "ws".toList].contains scheme

/-- The authority that an ordinary DNS name is routed to. -/
def remoteOf (host : Text) (authority : Authority H) : Except (Error H) Text :=
  if ':' ∈ authority.hostPort then
    match (parseU16 (afterLast ':' authority.hostPort)).filter (· ≠ 0) with
    | some port => .ok (host ++ ':' :: Nat.toDigits 10 port)
    | none => .error (.invalidRequest "URI port must be between 1 and 65535".toList)
  else .ok host

/-- The expanded URI and the authority a request is routed to. `isDnsName` is the answer of
`ServerName::try_from`. -/
def resolveRequestUri (isDnsName : Text → Bool) (localName : Option Text) (uri : Uri H) :
    Except (Error H) (Uri H × Text) :=
  match expandUriWithBase localName uri with
  | .error e => .error e
  | .ok uri =>
    if (uri.scheme.elim true schemeAccepted) = false then
      .error (.invalidRequest "unsupported URI scheme".toList)
    else
      match uri.authority with
      | none => .error (.invalidRequest "URI has no remote authority".toList)
      | some authority =>
        if '_' ∈ authority.host ∨ isDnsName authority.host = false then
          .error (.invalidName authority.host)
        else
          let host := toAsciiLowercase (stripDot authority.host)
          if dhttpSuffix.isSuffixOf host then .ok (uri, host)
          else (remoteOf host authority).map fun remote => (uri, remote)

structure Request (H : HttpCrate) where
  method : Text
  uri : Uri H

/-- What a server writes: the answer of the service, or `421 Misdirected Request`. -/
inductive Reply (Response : Type) where
  | response (r : Response)
  | misdirected

/-- The requests the service was called with, and the reply. -/
structure Handled (H : HttpCrate) (Response : Type) where
  calls : List (Request H)
  reply : Except (Error H) (Reply Response)

/-- The URI under which the owner of a name accepts a request. -/
def acceptedUri (localName : Option Text) (uri : Uri H) : Option (Uri H) :=
  match localName with
  | none => none
  | some name =>
    match expandUriWithBase (some name) uri with
    | .error _ => none
    | .ok uri =>
      match uri.authority with
      | none => none
      | some authority =>
        if '@' ∉ authority.raw ∧
            toAsciiLowercase (stripDot authority.host) = toAsciiLowercase name then some uri
        else none

/-- `localName` is the verified name of the handshake, `ready` the readiness of the service. -/
def handleRequest (localName : Option Text) (ready : Except (Error H) Unit)
    (call : Request H → Except (Error H) Response) (read : Except (Error H) (Request H)) :
    Handled H Response :=
  match read with
  | .error e => ⟨[], .error e⟩
  | .ok request =>
    match acceptedUri localName request.uri with
    | none => ⟨[], .ok .misdirected⟩
    | some uri =>
      let request := { request with uri := uri }
      match ready with
      | .error e => ⟨[], .error e⟩
      | .ok () => ⟨[request], (call request).map .response⟩

/-- A port is no DHTTP suffix. -/
theorem not_suffix_port (host : Text) (port : Nat) :
    ¬ dhttpSuffix <:+ host ++ ':' :: Nat.toDigits 10 port := by
  rintro ⟨t, ht⟩
  have hlast := congrArg List.getLast? ht
  have hd : Nat.toDigits 10 port ≠ [] := Nat.toDigits_ne_nil
  have hs : (t ++ dhttpSuffix).getLast? = some 't' := by
    rw [List.getLast?_append_of_ne_nil _ (by decide)]
    rfl
  rw [hs, List.getLast?_append_of_ne_nil _ (List.cons_ne_nil _ _), List.getLast?_cons_of_ne_nil hd]
    at hlast
  have hm := List.mem_of_getLast? hlast.symm
  exact absurd (Nat.isDigit_of_mem_toDigits (by decide) (by decide) hm) (by decide)

/-- What is known of a request that was resolved. -/
theorem resolveRequestUri_ok {uri uri' : Uri H} {isDnsName : Text → Bool}
    (h : resolveRequestUri isDnsName base uri = .ok (uri', remote)) :
    expandUriWithBase base uri = .ok uri' ∧ ∃ a', uri'.authority = some a' ∧
      '_' ∉ a'.host ∧ isDnsName a'.host = true ∧
      ((dhttpSuffix <:+ toAsciiLowercase (stripDot a'.host) ∧
          remote = toAsciiLowercase (stripDot a'.host)) ∨
        (¬ dhttpSuffix <:+ toAsciiLowercase (stripDot a'.host) ∧
          remoteOf (toAsciiLowercase (stripDot a'.host)) a' = .ok remote)) := by
  rw [resolveRequestUri] at h
  split at h
  · cases h
  · rename_i u hu
    split at h
    · cases h
    · split at h
      · cases h
      · rename_i a ha
        split at h
        · cases h
        · rename_i hname
          rw [not_or, Bool.not_eq_false] at hname
          dsimp only at h
          split at h
          · rename_i hs
            cases h
            exact ⟨hu, a, ha, hname.1, hname.2, .inl ⟨List.isSuffixOf_iff_suffix.1 hs, rfl⟩⟩
          · rename_i hs
            rw [List.isSuffixOf_iff_suffix] at hs
            cases hr : remoteOf (toAsciiLowercase (stripDot a.host)) a with
            | error e =>
              rw [hr] at h
              cases h
            | ok found =>
              rw [hr] at h
              cases h
              exact ⟨hu, a, ha, hname.1, hname.2, .inr ⟨hs, hr⟩⟩

/-- What is known of a request that was resolved to a DHTTP name. -/
theorem resolveRequestUri_dhttp {uri uri' : Uri H} {isDnsName : Text → Bool}
    (h : resolveRequestUri isDnsName base uri = .ok (uri', remote)) (hs : dhttpSuffix <:+ remote) :
    expandUriWithBase base uri = .ok uri' ∧ ∃ a', uri'.authority = some a' ∧
      remote = toAsciiLowercase (stripDot a'.host) := by
  obtain ⟨hu, a', ha', -, -, ⟨-, hr⟩ | ⟨hn, hr⟩⟩ := resolveRequestUri_ok h
  · exact ⟨hu, a', ha', hr⟩
  · exfalso
    rw [remoteOf] at hr
    split at hr
    · split at hr
      · cases hr
        exact not_suffix_port _ _ hs
      · cases hr
    · cases hr
      exact hn hs

theorem slicedRight_of_not_mem {a : Authority H} (h : '@' ∉ a.raw) : SlicedRight a := by
  intro first rest hs
  rw [(splitOnce_eq_some.1 hs).2] at h
  exact absurd (List.mem_append_right _ (List.mem_cons_self ..)) h

/-- Expanding a URI without user information leaves one that every base expands to itself. -/
theorem expandUri_keeps {uri uri' : Uri H} {a' : Authority H}
    (h : expandUriWithBase base uri = .ok uri') (ha' : uri'.authority = some a')
    (hu : ∀ a, uri.authority = some a → '@' ∉ a.raw) :
    ∃ a, uri.authority = some a ∧ KeepsAround base a a' ∧ '@' ∉ a'.raw ∧
      ∀ base', expandUriWithBase base' uri' = .ok uri' := by
  obtain ⟨-, -, hrel⟩ := expandUriWithBase_ok.1 h
  rw [ha'] at hrel
  generalize ha : uri.authority = authority at hrel
  cases hrel with
  | @some a _ he =>
    have hn := hu a ha
    obtain ⟨hk, hstable⟩ := (expandAuthority_keepsAround_iff he).2 (slicedRight_of_not_mem hn)
    refine ⟨a, rfl, hk, ?_, fun base' => ?_⟩
    · have hui : a'.userInfo = [] := hk.userInfo.trans (throughLast_of_not_mem hn)
      rw [a'.raw_eq, hui, List.nil_append, List.mem_append, not_or]
      exact ⟨a'.not_mem_host, a'.not_mem_port⟩
    · rw [expandUriWithBase_ok, ha']
      exact ⟨rfl, rfl, .some (hstable base')⟩

/-- The owner of a name accepts the requests that were resolved to it, and no others. -/
theorem acceptedUri_of_resolved {uri uri' : Uri H} {isDnsName : Text → Bool}
    (h : resolveRequestUri isDnsName base uri = .ok (uri', remote)) (hs : dhttpSuffix <:+ remote)
    (hu : ∀ a, uri.authority = some a → '@' ∉ a.raw) (name : Text) :
    acceptedUri (some name) uri' =
      if remote = toAsciiLowercase name then some uri' else none := by
  obtain ⟨he, a', ha', hr⟩ := resolveRequestUri_dhttp h hs
  obtain ⟨a, -, -, hn, hstable⟩ := expandUri_keeps he ha' hu
  rw [acceptedUri]
  simp only [hstable, ha', hn, not_false_eq_true, true_and, hr]

/-- A request that a client resolves to a DHTTP name is served under that name, and under no other
canonical name. -/
theorem handleRequest_of_resolved {uri uri' : Uri H} {isDnsName : Text → Bool}
    (h : resolveRequestUri isDnsName base uri = .ok (uri', remote)) (hs : dhttpSuffix <:+ remote)
    (hu : ∀ a, uri.authority = some a → '@' ∉ a.raw) (request : Request H)
    (hr : request.uri = uri') (call : Request H → Except (Error H) Response) :
    handleRequest (some remote) (.ok ()) call (.ok request) =
        ⟨[request], (call request).map .response⟩ ∧
      uri'.pathAndQuery = uri.pathAndQuery ∧
      Option.Rel (fun a a' => a'.port = a.port) uri.authority uri'.authority ∧
      ∀ name, normalizeName name = some name → name ≠ remote → ∀ ready,
        handleRequest (some name) ready call (.ok request) = ⟨[], .ok .misdirected⟩ := by
  have haccept := acceptedUri_of_resolved h hs hu
  obtain ⟨he, a', ha', hremote⟩ := resolveRequestUri_dhttp h hs
  obtain ⟨a, ha, hk, -, -⟩ := expandUri_keeps he ha' hu
  subst hr
  refine ⟨?_, (expandUriWithBase_ok.1 he).2.1, ?_, fun name hn hne ready => ?_⟩
  · have hl : remote = toAsciiLowercase remote := by
      rw [hremote, toAsciiLowercase_idem]
    rw [handleRequest]
    dsimp only
    rw [haccept, if_pos hl]
  · rw [ha, ha']
    exact .some hk.port
  · have hl : toAsciiLowercase name = name := toAsciiLowercase_of_valid (normalizeName_some hn).1
    rw [handleRequest]
    dsimp only
    rw [haccept, hl, if_neg (Ne.symm hne)]

/-- The authority `B~:7`, resolved without a local name and served by `b.dhttp.net`. -/
theorem handleRequest_of_resolved_shorthand :
    handleRequest (some (['b'] ++ dhttpSuffix)) (.ok ()) (fun _ => .ok ())
        (.ok ⟨['G', 'E', 'T'], rootUri (['b'] ++ dhttpSuffix ++ [':', '7']) rfl⟩) =
      ⟨[⟨['G', 'E', 'T'], rootUri (['b'] ++ dhttpSuffix ++ [':', '7']) rfl⟩],
        .ok (.response ())⟩ := by
  have h : resolveRequestUri (fun _ => true) none (rootUri ['B', '~', ':', '7'] rfl) =
      .ok (rootUri (['b'] ++ dhttpSuffix ++ [':', '7']) rfl, ['b'] ++ dhttpSuffix) := rfl
  refine (handleRequest_of_resolved h (List.suffix_append ..) ?_ ⟨['G', 'E', 'T'], _⟩ rfl
    fun _ => .ok ()).1
  rintro a ⟨⟩
  decide

end Dhttp.Client
