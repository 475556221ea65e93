import Dhttp.Home.DnsNames
import Dhttp.Client.ExpansionExactness

namespace Dhttp.Client
open Dhttp.Lib Dhttp.Home
set_option autoImplicit true

variable {H : HttpCrate}

/-- The host a URI is expanded to. -/
def expandedHost (base : Option Text) (uri : Uri H) : Option Text :=
  match expandUriWithBase base uri with
  | .ok uri => uri.authority.map Authority.host
  | .error _ => none

/-- The `http` crate reads DNS names as authorities. -/
def HttpCrate.ReadsNames (H : HttpCrate) : Prop :=
  ∀ name, isValidDnsName name = true → H.parseAuthority name = .ok ()

theorem expandedHost_error {uri : Uri H} {a : Authority H} (ha : uri.authority = some a)
    (hr : replacement H base a.host = .error e) : expandedHost base uri = none := by
  rw [expandedHost, expandUriWithBase, ha]
  simp only [expandAuthorityWithBase, hr]

/-- An authority that is a host only is replaced as a whole. -/
theorem expandedHost_replaced (hH : H.ReadsNames) {uri : Uri H} {a : Authority H}
    (ha : uri.authority = some a) (hraw : a.raw = a.host) (hv : isValidDnsName name = true)
    (hr : replacement H base a.host = .ok (some name)) : expandedHost base uri = some name := by
  have hnew : expandAuthorityWithBase base a = .ok ⟨name, hH name hv⟩ := by
    refine expandAuthorityWithBase_ok.2 (.inr ⟨name, hr, ?_⟩)
    rw [expanded, if_pos hraw]
  have hconsistent := uri.consistent
  rw [ha] at hconsistent
  have huri : expandUriWithBase base uri =
      .ok ⟨uri.scheme, some ⟨name, hH name hv⟩, uri.pathAndQuery, hconsistent⟩ := by
    refine expandUriWithBase_ok.2 ⟨rfl, rfl, ?_⟩
    rw [ha]
    exact .some hnew
  have hhost : Authority.host (⟨name, hH name hv⟩ : Authority H) = name :=
    (Authority.parts_of_raw (u := []) (p := []) hv (List.append_nil name).symm rfl
      List.not_mem_nil (.inl rfl)).2.1
  rw [expandedHost, huri]
  exact congrArg some hhost

/-- A shorthand that names its host is expanded as the home crate expands it. -/
theorem replacement_shorthand (hp : partialName ≠ []) (hn : '~' ∉ partialName) :
    (∃ name, shorthandName partialName = some name ∧ isValidDnsName name = true ∧
        replacement H base (partialName ++ ['~']) = .ok (some name)) ∨
      shorthandName partialName = none ∧
        ∃ e, replacement H base (partialName ++ ['~']) = .error e := by
  have hbare : partialName ++ ['~'] ≠ ['~'] := by
    intro h
    exact hp (List.append_left_eq_self.1 h)
  have hmem : '~' ∈ partialName ++ ['~'] := List.mem_append_right _ (List.mem_singleton_self _)
  have hcanonical : toAsciiLowercase (replace '~' dhttpSuffix (partialName ++ ['~'])) =
      toAsciiLowercase partialName ++ dhttpSuffix := by
    rw [replace_append, replace_of_not_mem _ hn]
    exact List.map_append
  rw [replacement.eq_def, if_neg hbare, if_pos hmem]
  simp only [hcanonical]
  rw [shorthandName]
  by_cases hv : isValidDnsName (toAsciiLowercase partialName ++ dhttpSuffix) = true
  · exact .inl ⟨_, if_pos hv, hv, if_pos hv⟩
  · exact .inr ⟨if_neg hv, _, if_neg hv⟩

/-- The bare shorthand is the name of the base. -/
theorem replacement_bare :
    (∃ name, base.bind normalizeName = some name ∧ isValidDnsName name = true ∧
        replacement H base ['~'] = .ok (some name)) ∨
      base.bind normalizeName = none ∧ ∃ e, replacement H base ['~'] = .error e := by
  rw [replacement.eq_def, if_pos rfl]
  cases base with
  | none => exact .inr ⟨rfl, _, rfl⟩
  | some base =>
    rw [Option.bind_some]
    dsimp only
    cases hn : normalizeName base with
    | none => exact .inr ⟨rfl, _, rfl⟩
    | some name => exact .inl ⟨name, rfl, (normalizeName_some hn).1, rfl⟩

theorem expandedHost_shorthand (hH : H.ReadsNames) {uri : Uri H} {a : Authority H}
    (ha : uri.authority = some a) (hraw : a.raw = partialName ++ ['~']) (hhost : a.host = a.raw)
    (hn : '~' ∉ partialName) : expandedHost base uri =
      if partialName = [] then base.bind normalizeName else shorthandName partialName := by
  rw [← hhost] at hraw
  by_cases hp : partialName = []
  · rw [if_pos hp]
    rw [hp, List.nil_append] at hraw
    obtain ⟨name, hb, hv, hr⟩ | ⟨hb, e, hr⟩ := @replacement_bare H base
    · rw [hb]
      exact expandedHost_replaced hH ha hhost.symm hv (hraw ▸ hr)
    · rw [hb]
      exact expandedHost_error ha (hraw ▸ hr)
  · rw [if_neg hp]
    obtain ⟨name, hs, hv, hr⟩ | ⟨hs, e, hr⟩ := @replacement_shorthand H _ base hp hn
    · rw [hs]
      exact expandedHost_replaced hH ha hhost.symm hv (hraw ▸ hr)
    · rw [hs]
      exact expandedHost_error ha (hraw ▸ hr)

/-- The names of the scheme are what `normalize_name` gives and keeps, and a shorthand other than
the bare one is expanded in the same way everywhere. -/
theorem normalization_exact (hH : H.ReadsNames) :
    (∀ s name, normalizeName s = some name → IsDhttpName name ∧ utf8Length name ≤ 253 ∧
      normalizeName name = some name) ∧
    (∀ name, (validateName name = .ok () ↔ ∃ s, normalizeName s = some name) ∧
      (validateName name = .ok () ↔ IsDhttpName name)) ∧
    (∀ s name, normalizeDnsName s = some name → normalizeDnsName name = some name) ∧
    (∀ base partialName (uri : Uri H) a, uri.authority = some a → a.raw = partialName ++ ['~'] →
      a.host = a.raw → '~' ∉ partialName → partialName ≠ [] →
        normalizeDnsName (partialName ++ ['~']) = normalizeName (partialName ++ ['~']) ∧
          expandedHost base uri = normalizeName (partialName ++ ['~'])) ∧
    (normalizeName ['~'] = none ∧ normalizeDnsName ['~'] = none ∧
      ∀ base (uri : Uri H) a, uri.authority = some a → a.raw = ['~'] → a.host = a.raw →
        expandedHost base uri = base.bind normalizeName) := by
  refine ⟨?_, ?_, ?_, ?_, ?_⟩
  · intro s name h
    have hname := isDhttpName_of_normalizeName h
    refine ⟨hname, ?_, normalizeName_eq_self_iff.2 hname⟩
    rw [dnsNames_utf8Length hname.isName]
    exact hname.isName.short
  · intro name
    refine ⟨?_, validateName_ok⟩
    rw [validateName_ok]
    constructor
    · intro h
      exact ⟨name, normalizeName_eq_self_iff.2 h⟩
    · intro h
      obtain ⟨s, hs⟩ := h
      exact isDhttpName_of_normalizeName hs
  · intro s name h
    exact normalizeDnsName_of_isName (normalizeDnsName_some h)
  · intro base partialName uri a ha hraw hhost hn hp
    have hvisible : ∀ c ∈ partialName, isVisible c = true := by
      intro c hc
      apply H.visible a.parsed
      rw [hraw]
      exact List.mem_append_left _ hc
    rw [normalizeName_shorthand hvisible, normalizeDnsName_shorthand hvisible,
      expandedHost_shorthand hH ha hraw hhost hn, if_neg hp]
    exact ⟨rfl, rfl⟩
  · refine ⟨by decide, by decide, fun base uri a ha hraw hhost => ?_⟩
    rw [← List.nil_append ['~']] at hraw
    exact expandedHost_shorthand hH ha hraw hhost List.not_mem_nil

theorem plainCrate_readsNames : plainCrate.ReadsNames := by
  intro name hv
  apply if_pos
  rw [List.all_eq_true]
  intro c hc
  have hne {d : Char} (hd : isNameChar d = false) : (c != d) = true := by
    rw [bne_iff_ne]
    intro he
    exact not_mem_of_valid hv hd (he ▸ hc)
  rw [isAuthorityChar, isVisible_of_isNameChar (isValidDnsName_chars hv hc), hne (by decide),
    hne (by decide), hne (by decide)]
  rfl

/-- The authority `A~` is expanded to `a.dhttp.net`. -/
theorem normalization_exact_shorthand :
    expandedHost none (rootUri ['A', '~'] rfl) = normalizeName ['A', '~'] := by
  have hall := (normalization_exact plainCrate_readsNames).2.2.2.1
  exact (hall none ['A'] (rootUri ['A', '~'] rfl) _ rfl rfl (by decide) (by decide) (by decide)).2

/-- With a base the bare shorthand is a host of which both normalizations make nothing. -/
theorem bare_shorthand_differs : ¬ ∀ base partialName (uri : Uri plainCrate) a,
    uri.authority = some a → a.raw = partialName ++ ['~'] → a.host = a.raw →
      '~' ∉ partialName → expandedHost base uri = normalizeName (partialName ++ ['~']) := by
  intro h
  exact absurd (h (some ['a']) [] (rootUri ['~'] rfl) _ rfl rfl (by decide) (by decide)) (by decide)

end Dhttp.Client
