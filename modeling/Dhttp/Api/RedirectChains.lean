import Dhttp.Api.Redirects

namespace Dhttp.Api
open Dhttp.Lib Dhttp.Home
set_option autoImplicit true

/-- A chain goes on only by following a redirect. -/
theorem fetchFrom_eq_cons (h : fetchFrom W later count request current responses = sent :: rest) :
    start request current = some sent ∧
      (rest = [] ∨ ∃ response responses' next, responses = response :: responses' ∧
        followed W count request response = .ok (some next) ∧
        rest = fetchFrom W later (count + 1) next later responses') := by
  rw [fetchFrom.eq_def] at h
  cases hs : start request current with
  | none => simp [hs] at h
  | some sent' =>
    rw [hs] at h
    simp only [List.cons.injEq] at h
    obtain ⟨rfl, hrest⟩ := h
    refine ⟨rfl, ?_⟩
    cases responses with
    | nil => exact .inl hrest.symm
    | cons response responses =>
      simp only at hrest
      split at hrest
      · next next hnext => exact .inr ⟨response, responses, next, rfl, hnext, hrest.symm⟩
      · exact .inl hrest.symm

theorem fetchFrom_of_followed (hs : start request current = some sent)
    (hf : followed W count request response = .ok (some next)) :
    fetchFrom W later count request current (response :: responses) =
      sent :: fetchFrom W later (count + 1) next later responses := by
  rw [fetchFrom.eq_def, hs]
  simp only [hf]

theorem fetchFrom_length (hc : count ≤ maxRedirects)
    (h : fetchFrom W later count request current responses = chain) :
    chain.length + count ≤ maxRedirects + 1 := by
  induction chain generalizing count request current responses with
  | nil =>
    rw [List.length_nil, Nat.zero_add]
    exact Nat.le_succ_of_le hc
  | cons sent rest ih =>
    rw [List.length_cons]
    obtain hrest | ⟨_, responses, next, _, hf, hrest⟩ := (fetchFrom_eq_cons h).2
    · rw [hrest, List.length_nil]
      omega
    · obtain ⟨hop, hhop, -⟩ := followed_eq_some hf
      obtain ⟨-, -, -, hlt, -⟩ := target_eq_some hhop
      have htail : rest.length + (count + 1) ≤ maxRedirects + 1 := ih hlt hrest.symm
      omega

/-- Once the credentials are gone they stay away. -/
theorem fetchFrom_free (hn : later.headers = none) (hf : HeadersFree request.headers)
    (h : fetchFrom W later count request later responses = chain) (hm : sent ∈ chain) :
    HeadersFree sent.headers := by
  induction chain generalizing count request responses with
  | nil => cases hm
  | cons first rest ih =>
    obtain ⟨hs, htail⟩ := fetchFrom_eq_cons h
    cases List.mem_cons.1 hm with
    | inl he =>
      rw [he, start_headers hn hs]
      exact hf
    | inr hm =>
      obtain hrest | ⟨_, responses, next, _, hnext, hrest⟩ := htail
      · rw [hrest] at hm
        cases hm
      · obtain ⟨hop, -, rfl⟩ := followed_eq_some hnext
        exact ih (rebuilt_free hf hop) hrest.symm hm

/-- The next request of a chain goes to the next URL. -/
theorem fetchFrom_getElem_zero
    (h : (fetchFrom W later count request current responses)[0]? = some sent) :
    sent.url = request.url := by
  cases ht : fetchFrom W later count request current responses with
  | nil => simp [ht] at h
  | cons first rest =>
    rw [ht, List.getElem?_cons_zero] at h
    cases h
    exact (start_eq_some (fetchFrom_eq_cons ht).1).1

theorem fetchFrom_scheme
    (h : (fetchFrom W later count request current responses)[0]? = some sent) :
    Client.schemeAccepted request.url.scheme = true := by
  cases ht : fetchFrom W later count request current responses with
  | nil => simp [ht] at h
  | cons first rest => exact start_scheme (fetchFrom_eq_cons ht).1

theorem origin_ne_of_special {url next : Url} (ha : next.authority ≠ url.authority)
    (hs : url.isSpecial = true ∨ next.isSpecial = true) : next.origin ≠ url.origin := fun ho =>
  ha (Url.origin_inj hs.symm ho)

/-- Chains that differ in credentials only follow the same redirects. -/
theorem followed_agree (h : request.Agree request')
    (hf : followed W count request response = .ok (some next)) :
    ∃ hop, target W count request response = .ok (some hop) ∧ next = rebuilt request hop ∧
      followed W count request' response = .ok (some (rebuilt request' hop)) := by
  obtain ⟨hop, ht, he⟩ := followed_eq_some hf
  refine ⟨hop, ht, he, ?_⟩
  rw [followed, ← target_agree h, ht]
  rfl

theorem start_eq_some_of_agree (h : request.Agree request') (ho : options.Agree options')
    (hs : start request options = some sent) : ∃ sent', start request' options' = some sent' := by
  have hmap := start_agree h ho
  rw [hs, Option.map_some] at hmap
  obtain ⟨sent', hs', -⟩ := Option.map_eq_some_iff.1 hmap.symm
  exact ⟨sent', hs'⟩

theorem redirectOptions_headers (options : FetchOptions) :
    (redirectOptions options).headers = none := rfl

theorem FetchOptions.Agree.rfl (options : FetchOptions) : options.Agree options := ⟨by rfl, by rfl⟩

/-- Behind a redirect to another origin there are no credentials, whatever they were before. -/
theorem fetchFrom_stripped (hl : later.headers = none) (h : request.Agree request')
    (horigin : hop.1.origin ≠ request.url.origin) (responses : List WebResponse) :
    (∀ sent ∈ fetchFrom W later count (rebuilt request hop) later responses,
        HeadersFree sent.headers) ∧
      fetchFrom W later count (rebuilt request' hop) later responses =
        fetchFrom W later count (rebuilt request hop) later responses := by
  rw [← rebuilt_eq_of_origin h horigin]
  exact ⟨fun sent => fetchFrom_free hl (rebuilt_free_of_origin horigin) rfl, rfl⟩

/-- A chain that leaves an authority visibly forgets the credentials there. -/
theorem fetchFrom_confined (hl : later.headers = none) (h : request.Agree request')
    (ho : current.Agree current') (hc : CrossesVisibly W count request responses)
    (ht : fetchFrom W later count request current responses = chain)
    (hsent : chain[n]? = some sent) (hnext : chain[n + 1]? = some next)
    (hcross : sent.url.authority ≠ next.url.authority) :
    (∀ sent ∈ chain.drop (n + 1), HeadersFree sent.headers) ∧
      (fetchFrom W later count request' current' responses).drop (n + 1) = chain.drop (n + 1) := by
  induction n generalizing count request request' current current' responses chain with
  | zero =>
    cases chain with
    | nil => cases hsent
    | cons first rest =>
      rw [List.getElem?_cons_zero] at hsent
      cases hsent
      obtain ⟨hs, hrest | ⟨response, responses, after, rfl, hf, hrest⟩⟩ := fetchFrom_eq_cons ht
      · rw [hrest] at hnext
        cases hnext
      · obtain ⟨hop, htarget, rfl, hf'⟩ := followed_agree h hf
        obtain ⟨sent', hs'⟩ := start_eq_some_of_agree h ho hs
        rw [List.getElem?_cons_succ, hrest] at hnext
        have hurl : next.url = hop.1 := by rw [fetchFrom_getElem_zero hnext, rebuilt_url]
        have ha : hop.1.authority ≠ request.url.authority := by
          rw [← hurl, ← (start_eq_some hs).1]
          exact hcross.symm
        have hscheme := fetchFrom_scheme hnext
        rw [rebuilt_url] at hscheme
        have horigin := origin_ne_of_special ha ((hc hop htarget hscheme).2 ha)
        obtain ⟨hfree, heq⟩ := fetchFrom_stripped hl h horigin responses
        rw [fetchFrom_of_followed hs' hf', List.drop_one, List.drop_one, List.tail_cons,
          List.tail_cons, hrest]
        exact ⟨hfree, heq⟩
  | succ n ih =>
    cases chain with
    | nil => cases hsent
    | cons first rest =>
      rw [List.getElem?_cons_succ] at hsent hnext
      obtain ⟨hs, hrest | ⟨response, responses, after, rfl, hf, hrest⟩⟩ := fetchFrom_eq_cons ht
      · rw [hrest] at hnext
        cases hnext
      · obtain ⟨hop, htarget, rfl, hf'⟩ := followed_agree h hf
        obtain ⟨sent', hs'⟩ := start_eq_some_of_agree h ho hs
        obtain ⟨second, hsecond⟩ : ∃ second, rest[0]? = some second := by
          have hlen := (List.getElem?_eq_some_iff.1 hnext).1
          exact ⟨_, List.getElem?_eq_getElem (Nat.zero_lt_of_lt hlen)⟩
        rw [hrest] at hsecond
        have hscheme := fetchFrom_scheme hsecond
        rw [rebuilt_url] at hscheme
        obtain ⟨hstay, hleave⟩ := hc hop htarget hscheme
        rw [fetchFrom_of_followed hs' hf', List.drop_succ_cons, List.drop_succ_cons]
        by_cases ha : hop.1.authority = request.url.authority
        · exact ih (rebuilt_agree h hop) (.rfl later) (hstay ha) hrest.symm hsent hnext
        · -- the credentials are gone since the first redirect
          have horigin := origin_ne_of_special ha (hleave ha)
          obtain ⟨hfree, heq⟩ := fetchFrom_stripped hl h horigin responses
          rw [heq, hrest]
          exact ⟨fun sent hm => hfree sent (List.drop_subset _ _ hm), rfl⟩

/-- A redirect to a URL with an accepted scheme is sent. -/
theorem start_rebuilt (hl : later.headers = none) (htrailers : later.trailers = [])
    (hs : start request current = some sent) (hop : Url × Bool)
    (ha : Client.schemeAccepted hop.1.scheme = true) :
    ∃ next, start (rebuilt request hop) later = some next ∧ next.url = hop.1 ∧
      next.headers = (rebuilt request hop).headers := by
  have hinitial : initialTrailers (rebuilt request hop) later = [] := by
    rw [initialTrailers, htrailers, ite_self]
  have hraw : rawHeaders (rebuilt request hop) later = (rebuilt request hop).headers := by
    rw [rawHeaders, hl]
    exact addMissing_self fun header hm => ⟨header, hm, rfl⟩
  have hpseudo : hasPseudoHeader (rebuilt request hop).headers = false := by
    rw [← Bool.not_eq_true, hasPseudoHeader_eq_true]
    rintro ⟨header, hm, hh⟩
    have hmem := (keptHeaders_sublist request hop.1).subset
      ((rebuilt_headers_sublist request hop).subset hm)
    exact Bool.false_ne_true
      ((start_pseudo hs).symm.trans ((hasPseudoHeader_eq_true _).2 ⟨header, hmem, hh⟩))
  have hsent : ∃ next, start (rebuilt request hop) later = some next := by
    rw [start, hinitial, hraw, hpseudo, rebuilt_url, ha]
    exact ⟨_, rfl⟩
  obtain ⟨next, hnext⟩ := hsent
  refine ⟨next, hnext, ?_, start_headers hl hnext⟩
  rw [(start_eq_some hnext).1, rebuilt_url]

theorem fetchFrom_zero (hs : start request current = some sent) (responses : List WebResponse) :
    (fetchFrom W later count request current responses)[0]? = some sent := by
  rw [fetchFrom.eq_def, hs]
  rfl

/-- A chain that leaves an authority without trace takes all the credentials with it. -/
theorem fetchFrom_leaks (hl : later.headers = none) (htrailers : later.trailers = [])
    (h : request.Agree request') (hs : start request current = some sent)
    (hs' : start request' current' = some sent')
    (hc : ¬ CrossesVisibly W count request responses) :
    ∃ n from' next next',
      (fetchFrom W later count request current responses)[n]? = some from' ∧
      (fetchFrom W later count request current responses)[n + 1]? = some next ∧
      from'.url.authority ≠ next.url.authority ∧
      (fetchFrom W later count request' current' responses)[n + 1]? = some next' ∧
      ∀ header ∈ request'.headers, isCredential header = true → header ∈ next'.headers := by
  induction responses generalizing count request request' current current' sent sent' with
  | nil => exact absurd trivial hc
  | cons response responses ih =>
    rw [CrossesVisibly] at hc
    obtain ⟨hop, hc⟩ := not_forall.1 hc
    obtain ⟨htarget, hc⟩ := Classical.not_imp.1 hc
    obtain ⟨ha, hbad⟩ := Classical.not_imp.1 hc
    have hf : followed W count request response = .ok (some (rebuilt request hop)) := by
      rw [followed, htarget]
      rfl
    have hf' : followed W count request' response = .ok (some (rebuilt request' hop)) := by
      rw [followed, ← target_agree h, htarget]
      rfl
    obtain ⟨next, hnext, hurl, -⟩ := start_rebuilt hl htrailers hs hop ha
    obtain ⟨next', hnext', -, hheaders'⟩ := start_rebuilt hl htrailers hs' hop ha
    have hu : request'.url = request.url := by rw [h.1]
    rw [fetchFrom_of_followed hs hf, fetchFrom_of_followed hs' hf']
    by_cases hsame : hop.1.authority = request.url.authority
    · have hstay : ¬ CrossesVisibly W (count + 1) (rebuilt request hop) responses := fun hstay =>
        hbad ⟨fun _ => hstay, fun hne => absurd hsame hne⟩
      obtain ⟨n, from', last, last', hfrom, hlast, hcross, hlast', hkept⟩ :=
        ih (rebuilt_agree h hop) hnext hnext' hstay
      refine ⟨n + 1, from', last, last', hfrom, hlast, hcross, hlast', fun header hm hcred => ?_⟩
      have horigin : hop.1.origin = request'.url.origin := by
        rw [hu]
        exact Url.origin_congr hsame
      exact hkept header (mem_rebuilt_of_origin horigin hcred hm) hcred
    · have hspecial : ¬ (request.url.isSpecial = true ∨ hop.1.isSpecial = true) := fun hspecial =>
        hbad ⟨fun he => absurd he hsame, fun _ => hspecial⟩
      rw [not_or] at hspecial
      refine ⟨0, sent, next, next', rfl, fetchFrom_zero hnext responses, ?_,
        fetchFrom_zero hnext' responses, fun header hm hcred => ?_⟩
      · rw [(start_eq_some hs).1, hurl]
        exact Ne.symm hsame
      · rw [hheaders']
        have horigin : hop.1.origin = request'.url.origin := by
          rw [hu, Url.origin_opaque hspecial.1, Url.origin_opaque hspecial.2]
        exact mem_rebuilt_of_origin horigin hcred hm

/-- A request to another authority and all later ones carry no credentials, and are the same
whatever the credentials were. -/
def Confined (W : WebPlatform) (request : WebRequest) (options : FetchOptions)
    (responses : List WebResponse) : Prop :=
  ∀ n sent next, (fetch W request options responses)[n]? = some sent →
    (fetch W request options responses)[n + 1]? = some next →
    sent.url.authority ≠ next.url.authority →
    (∀ later ∈ (fetch W request options responses).drop (n + 1), HeadersFree later.headers) ∧
    ∀ request' options', request.Agree request' → options.Agree options' →
      (fetch W request' options' responses).drop (n + 1) =
        (fetch W request options responses).drop (n + 1)

def bearer : Text × Text := ("authorization".toList, "Bearer key".toList)

/-- A chain has at most twenty redirects, and it is confined just if nothing is sent or the first
redirect that is followed to another authority shows in the origins. -/
theorem fetch_confined_iff (W : WebPlatform) (request : WebRequest) (options : FetchOptions)
    (responses : List WebResponse) :
    (fetch W request options responses).length ≤ maxRedirects + 1 ∧
      (Confined W request options responses ↔
        (start request options = none ∨ CrossesVisibly W 0 request responses)) := by
  have hagree (options' : FetchOptions) (ho : options.Agree options') :
      redirectOptions options' = redirectOptions options := by
    rw [ho.1]
    rfl
  refine ⟨fetchFrom_length (Nat.zero_le _) rfl, fun hconfined => ?_, fun hvisible => ?_⟩
  · by_contra hc
    rw [not_or] at hc
    obtain ⟨sent, hs⟩ := Option.ne_none_iff_exists'.1 hc.1
    -- another run of the same chain has a key to lose
    let keyed : WebRequest := { request with headers := bearer :: request.headers }
    have hkeyed : request.Agree keyed := ⟨rfl, rfl⟩
    obtain ⟨sent', hs'⟩ := start_eq_some_of_agree hkeyed (.rfl options) hs
    obtain ⟨n, from', next, next', hfrom, hnext, hcross, hnext', hkept⟩ :=
      fetchFrom_leaks (redirectOptions_headers options) rfl hkeyed hs hs' hc.2
    obtain ⟨hfree, hsame⟩ := hconfined n from' next hfrom hnext hcross
    have hdrop := congrArg (·[0]?) (hsame keyed options hkeyed (.rfl options))
    simp only [List.getElem?_drop, Nat.add_zero, fetch] at hdrop
    rw [hnext', hnext] at hdrop
    cases hdrop
    have hmem : next ∈ (fetch W request options responses).drop (n + 1) := by
      rw [List.mem_iff_getElem?]
      refine ⟨0, ?_⟩
      rw [List.getElem?_drop]
      exact hnext
    have hfalse := hfree next hmem bearer (hkept bearer (List.mem_cons_self ..) (by decide))
    exact absurd hfalse (by decide)
  · intro n sent next hsent hnext hcross
    obtain hnone | hc := hvisible
    · rw [fetch, fetchFrom.eq_def, hnone] at hsent
      cases hsent
    constructor
    · exact (fetchFrom_confined (redirectOptions_headers options) ⟨rfl, rfl⟩ (.rfl options) hc rfl
        hsent hnext hcross).1
    · intro request' options' hr ho
      rw [fetch, hagree options' ho]
      exact (fetchFrom_confined (redirectOptions_headers options) hr ho hc rfl hsent hnext hcross).2

def bareUrl (scheme host : Text) (hs : ':' ∉ scheme) (hh : ':' ∉ host) : Url where
  scheme := scheme
  host := host
  port := none
  rest := ['/']
  scheme_form := hs
  host_form hm := absurd hm hh
  port_form _ hp := by cases hp

/-- A request that is redirected to another host of its scheme. -/
def alice (scheme : Text) (hs : ':' ∉ scheme) : WebRequest :=
  ⟨"GET".toList, bareUrl scheme "alice".toList hs (by decide), [bearer], false, .follow⟩

def toMallory (scheme : Text) (hs : ':' ∉ scheme) : WebPlatform where
  parse location _ :=
    if location = scheme ++ "://mallory/".toList then
      some (bareUrl scheme "mallory".toList hs (by decide))
    else none
  refuses _ := false

def moved (scheme : Text) : List WebResponse := [⟨302, some (scheme ++ "://mallory/".toList)⟩]

/-- The key stays behind when https leads to another host. -/
example : (fetch (toMallory "https".toList (by decide)) (alice "https".toList (by decide))
    ⟨none, [], none, none⟩ (moved "https".toList)).map Sent.headers = [[bearer], []] := by decide

/-- Both origins of a dhttp redirect are null, and the key goes to the other host. -/
theorem fetch_leaks : ¬ Confined (toMallory "dhttp".toList (by decide))
    (alice "dhttp".toList (by decide)) ⟨none, [], none, none⟩ (moved "dhttp".toList) := by
  intro h
  obtain ⟨hfree, -⟩ := h 0 _ _ rfl rfl (by decide)
  exact absurd (hfree _ (List.mem_cons_self ..) bearer (by decide)) (by decide)

end Dhttp.Api
