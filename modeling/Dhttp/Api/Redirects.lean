import Dhttp.Client.Routing
import Dhttp.Home.DnsNames
import Dhttp.Api.Errors

namespace Dhttp.Api
open Dhttp.Lib Dhttp.Home
set_option autoImplicit true

/-- A parsed URL. The port is written out where it is not the default of its scheme. -/
structure Url where
  scheme : Text
  host : Text
  port : Option Text
  rest : Text
  scheme_form : ':' ∉ scheme
  host_form : ':' ∈ host → host.getLast? = some ']'
  port_form : ∀ p ∈ port, p ≠ [] ∧ p.all Char.isDigit = true

namespace Url

/-- The special schemes with a tuple origin. -/
def isSpecial (url : Url) : Bool :=
  ["http".toList, "https".toList, "ws".toList, "wss".toList, "ftp".toList].contains url.scheme

def portText (url : Url) : Text := url.port.elim [] (':' :: ·)

/-- `URL.origin`. -/
def origin (url : Url) : Text :=
  if url.isSpecial then url.scheme ++ ':' :: ('/' :: '/' :: (url.host ++ url.portText))
  else ['n', 'u', 'l', 'l']

/-- Where a request for the URL is sent. -/
def authority (url : Url) : Text × Text × Option Text := (url.scheme, url.host, url.port)

theorem port_digits (url : Url) (hp : url.port = some p) (hc : c ∈ p) : c.isDigit = true :=
  List.all_eq_true.1 (url.port_form p hp).2 c hc

theorem portText_last (url : Url) (hp : url.port = some p) (s : Text) :
    ∃ c, (s ++ url.portText).getLast? = some c ∧ c.isDigit = true := by
  have hne := (url.port_form p hp).1
  obtain ⟨c, hc⟩ : ∃ c, p.getLast? = some c := ⟨_, List.getLast?_eq_some_getLast hne⟩
  refine ⟨c, ?_, url.port_digits hp (List.mem_of_getLast? hc)⟩
  rw [portText, hp, Option.elim_some, List.getLast?_append_of_ne_nil _ (List.cons_ne_nil _ _),
    List.getLast?_cons_of_ne_nil hne, hc]

/-- A host cannot be read as a shorter host with a port. -/
theorem host_ne_host_port (url url' : Url) (hp : url'.port = some p)
    (h : url.host = url'.host ++ url'.portText) : False := by
  have hc : ':' ∈ url.host := by
    rw [h, portText, hp]
    exact List.mem_append_right _ (List.mem_cons_self ..)
  obtain ⟨c, hl, hd⟩ := url'.portText_last hp url'.host
  rw [← h, url.host_form hc] at hl
  cases hl
  exact absurd hd (by decide)

theorem hostPort_inj {url url' : Url} (h : url.host ++ url.portText = url'.host ++ url'.portText) :
    url.host = url'.host ∧ url.port = url'.port := by
  cases hp : url.port with
  | none =>
    cases hp' : url'.port with
    | none => simpa [portText, hp, hp'] using h
    | some p' =>
      rw [portText, hp, Option.elim_none, List.append_nil] at h
      exact (url.host_ne_host_port url' hp' h).elim
  | some p =>
    cases hp' : url'.port with
    | none =>
      have he : url'.portText = [] := by rw [portText, hp', Option.elim_none]
      rw [he, List.append_nil] at h
      exact (url'.host_ne_host_port url hp h.symm).elim
    | some p' =>
      have hn {u : Url} {q : Text} (hq : u.port = some q) : ':' ∉ q := fun hm =>
        absurd (u.port_digits hq hm) (by decide)
      rw [portText, portText, hp, hp', Option.elim_some, Option.elim_some] at h
      have hs (s q : Text) : s ++ ':' :: q = (s ++ [':']) ++ q := by
        rw [List.append_assoc, List.singleton_append]
      rw [hs url.host, hs url'.host] at h
      have hthrough := congrArg (throughLast ':') h
      rw [throughLast_append _ (hn hp), throughLast_append _ (hn hp'), throughLast_concat,
        throughLast_concat, List.append_cancel_right_eq] at hthrough
      rw [hthrough, List.append_cancel_left_eq] at h
      exact ⟨hthrough, congrArg some h⟩

/-- The origins of two URLs, one of them special, tell their authorities apart. -/
theorem origin_inj {url url' : Url} (hs : url.isSpecial = true ∨ url'.isSpecial = true)
    (h : url.origin = url'.origin) : url.authority = url'.authority := by
  have hnull (u : Url) (t : Text) : u.scheme ++ ':' :: t ≠ ['n', 'u', 'l', 'l'] := fun he => by
    have hm : ':' ∈ u.scheme ++ ':' :: t := List.mem_append_right _ (List.mem_cons_self ..)
    rw [he] at hm
    exact absurd hm (by decide)
  rw [origin, origin] at h
  by_cases hu : url.isSpecial = true
  · by_cases hu' : url'.isSpecial = true
    · rw [if_pos hu, if_pos hu'] at h
      have hsplit (u : Url) (t : Text) :
          splitOnce ':' (u.scheme ++ ':' :: t) = some (u.scheme, t) :=
        splitOnce_eq_some.2 ⟨u.scheme_form, rfl⟩
      have hp := hsplit url ('/' :: '/' :: (url.host ++ url.portText))
      rw [h, hsplit url'] at hp
      simp only [Option.some.injEq, Prod.mk.injEq, List.cons.injEq, true_and] at hp
      obtain ⟨hscheme, hrest⟩ := hp
      obtain ⟨hhost, hport⟩ := hostPort_inj hrest
      rw [authority, authority, hscheme, hhost, hport]
    · rw [if_pos hu, if_neg hu'] at h
      exact (hnull _ _ h).elim
  · rw [if_neg hu, if_pos (hs.resolve_left hu)] at h
    exact (hnull _ _ h.symm).elim

/-- The origin depends on the authority only. -/
theorem origin_congr {url url' : Url} (h : url.authority = url'.authority) :
    url.origin = url'.origin := by
  obtain ⟨hs, hh, hp⟩ : url.scheme = url'.scheme ∧ url.host = url'.host ∧ url.port = url'.port := by
    simpa only [authority, Prod.mk.injEq] using h
  rw [origin, origin, isSpecial, isSpecial, portText, portText, hs, hh, hp]

theorem origin_opaque {url : Url} (h : url.isSpecial ≠ true) :
    url.origin = ['n', 'u', 'l', 'l'] := if_neg h

end Url

/-- Header names and values in order. -/
abbrev Headers := List (Text × Text)

def nameOf (header : Text × Text) : Text := toAsciiLowercase header.1

def Headers.delete (headers : Headers) (name : Text) : Headers :=
  headers.filter (nameOf · != name)

def credentialNames : List Text :=
  ["authorization".toList, "proxy-authorization".toList, "cookie".toList]

def isCredential (header : Text × Text) : Bool := credentialNames.contains (nameOf header)

inductive RedirectMode where
  | follow
  | manual
  | error
  deriving Repr, DecidableEq

structure WebRequest where
  method : Text
  url : Url
  headers : Headers
  hasBody : Bool
  redirect : RedirectMode

structure FetchOptions where
  headers : Option Headers
  trailers : Headers
  timeout : Option Nat
  ownerHash : Option Text

structure WebResponse where
  status : Nat
  location : Option Text

/-- The arguments of `_native.start`. -/
structure Sent where
  method : Text
  url : Url
  headers : Headers
  hasBody : Bool
  timeout : Option Nat
  ownerHash : Option Text
  trailers : Headers

/-- What the platform decides: how a location is resolved, and which URLs `new Request` refuses. -/
structure WebPlatform where
  parse : Text → Url → Option Url
  refuses : Url → Bool

def hasPseudoHeader (headers : Headers) : Bool := headers.any (·.1.head? == some ':')

/-- The header fields of the request that are not among the raw ones yet. -/
def addMissing (raw headers : Headers) : Headers :=
  headers.foldl (fun raw header =>
    if raw.any (nameOf · == nameOf header) then raw else raw ++ [header]) raw

def rawHeaders (request : WebRequest) (options : FetchOptions) : Headers :=
  addMissing (options.headers.getD request.headers) request.headers

def initialTrailers (request : WebRequest) (options : FetchOptions) : Headers :=
  if request.hasBody then [] else options.trailers

/-- `_fetch` up to its exchange; nothing is sent if it throws. -/
def start (request : WebRequest) (options : FetchOptions) : Option Sent :=
  if hasPseudoHeader (initialTrailers request options) ||
      hasPseudoHeader (rawHeaders request options) then none
  else if Client.schemeAccepted request.url.scheme then
    some ⟨request.method, request.url, rawHeaders request options, request.hasBody,
      options.timeout, options.ownerHash, initialTrailers request options⟩
  else none

def maxRedirects : Nat := 20

def redirectStatuses : List Nat := [301, 302, 303, 307, 308]

def becomesGet (request : WebRequest) (response : WebResponse) : Bool :=
  response.status == 303 ||
    ((response.status == 301 || response.status == 302) && request.method == "POST".toList)

/-- Where a response leads: none where it is returned, an error where `fetch` throws. -/
def target (W : WebPlatform) (count : Nat) (request : WebRequest) (response : WebResponse) :
    Except String (Option (Url × Bool)) :=
  match response.location with
  | none => .ok none
  | some location =>
    if !redirectStatuses.contains response.status || request.redirect = .manual then .ok none
    else if request.redirect = .error then
      .error "redirect encountered with redirect: \"error\""
    else if maxRedirects ≤ count then .error "maximum redirect count exceeded"
    else
      match W.parse location request.url with
      | none => .error "Invalid URL"
      | some url =>
        if !becomesGet request response && request.hasBody then
          .error "cannot replay streaming request body after redirect"
        else if W.refuses url then
          .error "Request cannot be constructed from a URL that includes credentials"
        else .ok (some (url, becomesGet request response))

/-- The headers of a request that are kept for the next URL. -/
def keptHeaders (request : WebRequest) (url : Url) : Headers :=
  if url.origin ≠ request.url.origin then credentialNames.foldl Headers.delete request.headers
  else request.headers

def rebuilt (request : WebRequest) (next : Url × Bool) : WebRequest :=
  let headers := keptHeaders request next.1
  if next.2 then
    ⟨"GET".toList, next.1, (headers.delete "content-length".toList).delete "content-type".toList,
      false, request.redirect⟩
  else ⟨request.method, next.1, headers, false, request.redirect⟩

/-- The request after a response. -/
def followed (W : WebPlatform) (count : Nat) (request : WebRequest) (response : WebResponse) :
    Except String (Option WebRequest) :=
  (target W count request response).map (·.map (rebuilt request))

/-- The requests of a chain, given the responses; the later ones are sent with `later`. -/
def fetchFrom (W : WebPlatform) (later : FetchOptions) (count : Nat) (request : WebRequest)
    (current : FetchOptions) (responses : List WebResponse) : List Sent :=
  match start request current with
  | none => []
  | some sent =>
    sent ::
      match responses with
      | [] => []
      | response :: responses =>
        match followed W count request response with
        | .ok (some next) => fetchFrom W later (count + 1) next later responses
        | _ => []

/-- The options of the requests that follow a redirect. -/
def redirectOptions (options : FetchOptions) : FetchOptions :=
  ⟨none, [], options.timeout, options.ownerHash⟩

/-- `Endpoint.fetch`. -/
def fetch (W : WebPlatform) (request : WebRequest) (options : FetchOptions)
    (responses : List WebResponse) : List Sent :=
  fetchFrom W (redirectOptions options) 0 request options responses

/-- The first redirect that is followed to another authority leads from or to a special scheme, so
that the two origins are not both opaque. -/
def CrossesVisibly (W : WebPlatform) : Nat → WebRequest → List WebResponse → Prop
  | _, _, [] => True
  | count, request, response :: responses =>
    ∀ hop, target W count request response = .ok (some hop) →
      -- nothing is sent to a URL of another scheme
      Client.schemeAccepted hop.1.scheme = true →
      (hop.1.authority = request.url.authority →
        CrossesVisibly W (count + 1) (rebuilt request hop) responses) ∧
      (hop.1.authority ≠ request.url.authority →
        request.url.isSpecial = true ∨ hop.1.isSpecial = true)

def uncredentialed (headers : Headers) : Headers := headers.filter (!isCredential ·)

def HeadersFree (headers : Headers) : Prop := ∀ header ∈ headers, isCredential header = false

/-- Two requests that differ in credentials only. -/
def WebRequest.Agree (request request' : WebRequest) : Prop :=
  request' = { request with headers := request'.headers } ∧
    uncredentialed request.headers = uncredentialed request'.headers

def FetchOptions.Agree (options options' : FetchOptions) : Prop :=
  options' = { options with headers := options'.headers } ∧
    options.headers.map uncredentialed = options'.headers.map uncredentialed

theorem Headers.delete_sublist (headers : Headers) (name : Text) :
    (headers.delete name).Sublist headers := List.filter_sublist

theorem uncredentialed_delete (headers : Headers) (name : Text) :
    uncredentialed (headers.delete name) = (uncredentialed headers).delete name := by
  rw [uncredentialed, Headers.delete, List.filter_comm]
  rfl

/-- Deleting the credentials by name keeps just the other headers. -/
theorem foldl_delete (names : List Text) (headers : Headers) :
    names.foldl Headers.delete headers =
      headers.filter fun header => !List.contains names (nameOf header) := by
  induction names generalizing headers with
  | nil => exact (List.filter_eq_self.2 fun _ _ => rfl).symm
  | cons name names ih =>
    rw [List.foldl_cons, ih, Headers.delete, List.filter_filter]
    apply List.filter_congr
    intro header _
    rw [List.contains_cons, Bool.not_or, Bool.and_comm]
    rfl

theorem delete_credentials (headers : Headers) :
    credentialNames.foldl Headers.delete headers = uncredentialed headers :=
  foldl_delete credentialNames headers

theorem keptHeaders_sublist (request : WebRequest) (url : Url) :
    (keptHeaders request url).Sublist request.headers := by
  rw [keptHeaders]
  split
  · rw [delete_credentials]
    exact List.filter_sublist
  · exact List.Sublist.refl _

theorem keptHeaders_of_origin_eq (h : url.origin = request.url.origin) :
    keptHeaders request url = request.headers := if_neg (not_not.2 h)

theorem uncredentialed_keptHeaders (request : WebRequest) (url : Url) :
    uncredentialed (keptHeaders request url) = uncredentialed request.headers := by
  rw [keptHeaders]
  split
  · rw [delete_credentials, uncredentialed, uncredentialed, List.filter_filter]
    simp only [Bool.and_self]
  · rfl

/-- Across origins the kept headers are the ones that are no credentials. -/
theorem keptHeaders_of_origin (h : url.origin ≠ request.url.origin) :
    keptHeaders request url = uncredentialed request.headers := by
  rw [keptHeaders, if_pos h, delete_credentials]

theorem rebuilt_url (request : WebRequest) (next : Url × Bool) :
    (rebuilt request next).url = next.1 := by
  rw [rebuilt]
  split <;> rfl

theorem rebuilt_headers_sublist (request : WebRequest) (next : Url × Bool) :
    (rebuilt request next).headers.Sublist (keptHeaders request next.1) := by
  rw [rebuilt]
  split
  · exact (Headers.delete_sublist _ _).trans (Headers.delete_sublist _ _)
  · exact List.Sublist.refl _

/-- A redirect that keeps the origin keeps the credentials. -/
theorem mem_rebuilt_of_origin (h : next.1.origin = request.url.origin)
    (hc : isCredential header = true) (hm : header ∈ request.headers) :
    header ∈ (rebuilt request next).headers := by
  have hname (name : Text) (hn : name ∉ credentialNames) (headers : Headers)
      (hm : header ∈ headers) : header ∈ headers.delete name := by
    refine List.mem_filter.2 ⟨hm, bne_iff_ne.2 fun he => hn ?_⟩
    rw [← he]
    exact List.contains_iff_mem.1 hc
  rw [rebuilt, keptHeaders_of_origin_eq h]
  split
  · exact hname _ (by decide) _ (hname _ (by decide) _ hm)
  · exact hm

theorem HeadersFree.sublist (h : HeadersFree headers) (hs : headers'.Sublist headers) :
    HeadersFree headers' := fun header hm => h header (hs.subset hm)

theorem headersFree_uncredentialed (headers : Headers) : HeadersFree (uncredentialed headers) :=
  fun header hm => by simpa using (List.mem_filter.1 hm).2

theorem rebuilt_free (h : HeadersFree request.headers) (next : Url × Bool) :
    HeadersFree (rebuilt request next).headers :=
  (h.sublist (keptHeaders_sublist request next.1)).sublist (rebuilt_headers_sublist request next)

theorem rebuilt_free_of_origin (h : next.1.origin ≠ request.url.origin) :
    HeadersFree (rebuilt request next).headers := by
  have hs := rebuilt_headers_sublist request next
  rw [keptHeaders_of_origin h] at hs
  exact (headersFree_uncredentialed _).sublist hs

theorem rebuilt_agree (h : request.Agree request') (next : Url × Bool) :
    (rebuilt request next).Agree (rebuilt request' next) := by
  obtain ⟨he, hh⟩ := h
  have hk : uncredentialed (keptHeaders request next.1) =
      uncredentialed (keptHeaders request' next.1) := by
    rw [uncredentialed_keptHeaders, uncredentialed_keptHeaders, hh]
  rw [he] at hk ⊢
  rw [rebuilt, rebuilt]
  by_cases hg : next.2 = true
  · rw [if_pos hg, if_pos hg]
    exact ⟨rfl, by simp only [uncredentialed_delete, hk]⟩
  · rw [if_neg hg, if_neg hg]
    exact ⟨rfl, hk⟩

/-- Across origins nothing is left of the difference of two requests. -/
theorem rebuilt_eq_of_origin (h : request.Agree request')
    (ho : next.1.origin ≠ request.url.origin) : rebuilt request next = rebuilt request' next := by
  obtain ⟨he, hh⟩ := h
  have hu : request'.url = request.url := by rw [he]
  have hk : keptHeaders request' next.1 = keptHeaders request next.1 := by
    rw [keptHeaders_of_origin ho, keptHeaders_of_origin (by rw [hu]; exact ho), hh]
  rw [rebuilt, rebuilt, hk, he]

theorem target_agree (h : request.Agree request') (W : WebPlatform) (count : Nat)
    (response : WebResponse) :
    target W count request response = target W count request' response := by
  rw [h.1]
  rfl

theorem target_eq_some (h : target W count request response = .ok (some next)) :
    ∃ location, response.location = some location ∧ response.status ∈ redirectStatuses ∧
      count < maxRedirects ∧ W.parse location request.url = some next.1 := by
  rw [target] at h
  cases hl : response.location with
  | none => simp [hl] at h
  | some location =>
    rw [hl] at h
    simp only at h
    split at h
    · cases h
    · next hstatus =>
      split at h
      · cases h
      · split at h
        · cases h
        · next hcount =>
          cases hp : W.parse location request.url with
          | none => simp [hp] at h
          | some url =>
            rw [hp] at h
            simp only at h
            split at h
            · cases h
            · split at h
              · cases h
              · cases h
                refine ⟨location, rfl, ?_, Nat.lt_of_not_le hcount, hp⟩
                simp only [Bool.or_eq_true, Bool.not_eq_eq_eq_not, Bool.not_true, not_or,
                  Bool.not_eq_false, List.contains_iff_mem] at hstatus
                exact hstatus.1

theorem followed_eq_some (h : followed W count request response = .ok (some next)) :
    ∃ hop, target W count request response = .ok (some hop) ∧ next = rebuilt request hop := by
  rw [followed] at h
  cases ht : target W count request response with
  | error e => rw [ht] at h; cases h
  | ok hop =>
    rw [ht] at h
    cases hop with
    | none => cases h
    | some hop => cases h; exact ⟨hop, rfl, rfl⟩

theorem addMissing_self (h : ∀ header ∈ headers, ∃ r ∈ raw, nameOf r = nameOf header) :
    addMissing raw headers = raw := by
  induction headers with
  | nil => rfl
  | cons header headers ih =>
    have hhead : raw.any (nameOf · == nameOf header) = true := by
      obtain ⟨r, hr, he⟩ := h header (List.mem_cons_self ..)
      exact List.any_eq_true.2 ⟨r, hr, beq_iff_eq.2 he⟩
    rw [addMissing, List.foldl_cons, if_pos hhead]
    exact ih fun header hm => h header (List.mem_cons_of_mem _ hm)

/-- Every header of the request is sent, by its name at least. -/
theorem exists_mem_addMissing (raw headers : Headers) (hm : header ∈ headers) :
    ∃ r ∈ addMissing raw headers, nameOf r = nameOf header := by
  have hraw (raw headers : Headers) {r : Text × Text} (hr : r ∈ raw) :
      r ∈ addMissing raw headers := by
    induction headers generalizing raw with
    | nil => exact hr
    | cons first headers ih =>
      rw [addMissing, List.foldl_cons]
      apply ih
      split
      · exact hr
      · exact List.mem_append_left _ hr
  induction headers generalizing raw with
  | nil => cases hm
  | cons first headers ih =>
    rw [addMissing, List.foldl_cons]
    obtain rfl | hm := List.mem_cons.1 hm
    · by_cases ha : (raw.any (nameOf · == nameOf header)) = true
      · rw [if_pos ha]
        obtain ⟨r, hr, he⟩ := List.any_eq_true.1 ha
        exact ⟨r, hraw _ _ hr, beq_iff_eq.1 he⟩
      · rw [if_neg ha]
        exact ⟨header, hraw _ _ (List.mem_append_right _ (List.mem_singleton_self _)), rfl⟩
    · exact ih _ hm

theorem isCredential_congr (h : nameOf header = nameOf header') :
    isCredential header = isCredential header' := by
  rw [isCredential, isCredential, h]

/-- A name other than a credential's is missing as much without the credentials. -/
theorem any_uncredentialed (hc : isCredential header = false) (raw : Headers) :
    (uncredentialed raw).any (nameOf · == nameOf header) = raw.any (nameOf · == nameOf header) := by
  rw [uncredentialed, List.any_filter]
  apply List.any_congr rfl
  intro r
  by_cases he : nameOf r = nameOf header
  · rw [isCredential_congr he, hc]
    rfl
  · rw [beq_false_of_ne he, Bool.and_false]

theorem uncredentialed_addMissing (raw headers : Headers) :
    uncredentialed (addMissing raw headers) =
      addMissing (uncredentialed raw) (uncredentialed headers) := by
  induction headers generalizing raw with
  | nil => rfl
  | cons header headers ih =>
    rw [addMissing, List.foldl_cons]
    refine (ih _).trans ?_
    by_cases hc : isCredential header = true
    · have hcons : uncredentialed (header :: headers) = uncredentialed headers :=
        List.filter_cons_of_neg (by rw [hc]; decide)
      rw [hcons]
      congr 1
      split
      · rfl
      · rw [uncredentialed, List.filter_append, List.filter_cons_of_neg (by rw [hc]; decide)]
        exact List.append_nil _
    · rw [Bool.not_eq_true] at hc
      have hcons : uncredentialed (header :: headers) = header :: uncredentialed headers :=
        List.filter_cons_of_pos (by rw [hc]; rfl)
      rw [hcons, addMissing, addMissing, List.foldl_cons, any_uncredentialed hc]
      split
      · rfl
      · rw [uncredentialed, List.filter_append, List.filter_cons_of_pos (by rw [hc]; rfl)]
        rfl

/-- No credential is a pseudo-header. -/
theorem hasPseudoHeader_uncredentialed (headers : Headers) :
    hasPseudoHeader (uncredentialed headers) = hasPseudoHeader headers := by
  rw [hasPseudoHeader, uncredentialed, List.any_filter]
  apply List.any_congr rfl
  intro header
  by_cases hc : isCredential header = true
  · have hp : (header.1.head? == some ':') = false := by
      rw [isCredential, List.contains_iff_mem, nameOf, toAsciiLowercase] at hc
      cases hn : header.1 with
      | nil => rfl
      | cons c name =>
        rw [hn, List.map_cons] at hc
        rw [List.head?_cons]
        apply beq_false_of_ne
        intro he
        cases he
        revert hc
        simp [credentialNames]
    rw [hc, hp]
    rfl
  · rw [Bool.not_eq_true] at hc
    rw [hc]
    rfl

theorem start_eq_some (h : start request options = some sent) :
    sent.url = request.url ∧ sent.headers = rawHeaders request options := by
  rw [start] at h
  split at h
  · cases h
  · split at h
    · cases h
      exact ⟨rfl, rfl⟩
    · cases h

theorem hasPseudoHeader_eq_true (headers : Headers) :
    hasPseudoHeader headers = true ↔ ∃ header ∈ headers, (nameOf header).head? = some ':' := by
  rw [hasPseudoHeader, List.any_eq_true]
  refine exists_congr fun header => and_congr_right fun _ => ?_
  rw [beq_iff_eq, nameOf, toAsciiLowercase, List.head?_map, Option.map_eq_some_iff]
  constructor
  · intro h
    exact ⟨':', h, rfl⟩
  · rintro ⟨c, hc, hl⟩
    rw [hc, (toLower_eq_iff (.inl (by decide))).1 hl]

theorem start_scheme (h : start request options = some sent) :
    Client.schemeAccepted request.url.scheme = true := by
  rw [start] at h
  split at h
  · cases h
  · split at h
    · assumption
    · cases h

/-- A request that has been sent has no pseudo-header. -/
theorem start_pseudo (h : start request options = some sent) :
    hasPseudoHeader request.headers = false := by
  rw [start] at h
  split at h
  · cases h
  · next hp =>
    rw [Bool.or_eq_true, not_or, Bool.not_eq_true, Bool.not_eq_true] at hp
    rw [← Bool.not_eq_true, hasPseudoHeader_eq_true]
    intro ⟨header, hm, hh⟩
    obtain ⟨r, hr, he⟩ := exists_mem_addMissing (options.headers.getD request.headers) _ hm
    rw [← he] at hh
    exact Bool.false_ne_true (hp.2.symm.trans ((hasPseudoHeader_eq_true _).2 ⟨r, hr, hh⟩))

theorem start_headers (hn : options.headers = none) (h : start request options = some sent) :
    sent.headers = request.headers := by
  rw [(start_eq_some h).2, rawHeaders, hn]
  exact addMissing_self fun header hm => ⟨header, hm, rfl⟩

theorem uncredentialed_getD {o o' : Option Headers}
    (h : o.map uncredentialed = o'.map uncredentialed)
    (hd : uncredentialed headers = uncredentialed headers') :
    uncredentialed (o.getD headers) = uncredentialed (o'.getD headers') := by
  cases o <;> cases o' <;> simp_all

/-- Whether a request is sent, and where to, does not depend on its credentials. -/
theorem start_agree (h : request.Agree request') (ho : options.Agree options') :
    (start request options).map Sent.url = (start request' options').map Sent.url := by
  have hraw : uncredentialed (rawHeaders request options) =
      uncredentialed (rawHeaders request' options') := by
    rw [rawHeaders, rawHeaders, uncredentialed_addMissing, uncredentialed_addMissing, h.2,
      uncredentialed_getD ho.2 h.2]
  have hp := congrArg hasPseudoHeader hraw
  rw [hasPseudoHeader_uncredentialed, hasPseudoHeader_uncredentialed] at hp
  have ht : initialTrailers request options = initialTrailers request' options' := by
    rw [h.1, ho.1]
    rfl
  have hu : request.url = request'.url := by rw [h.1]
  rw [start, start, hp, ht, hu]
  split
  · rfl
  · split <;> rfl

end Dhttp.Api
