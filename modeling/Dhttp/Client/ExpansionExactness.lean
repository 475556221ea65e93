import Dhttp.Client.UriExpansion

namespace Dhttp.Client
open Dhttp.Lib Dhttp.Home
set_option autoImplicit true

variable {H : HttpCrate}

/-- Hosts that are replaced on expansion. -/
def Expands (host : Text) : Prop := '~' ∈ host ∨ endsWithSuffix host = true

theorem endsWithSuffix_iff : endsWithSuffix host = true ↔ dhttpSuffix <:+ toAsciiLowercase host :=
  List.isSuffixOf_iff_suffix

theorem replacement_of_not_expands (h : ¬ Expands host) (base : Option Text) :
    replacement H base host = .ok none := by
  rw [Expands, not_or] at h
  have hh : host ≠ ['~'] := by
    rintro rfl
    exact h.1 (List.mem_singleton_self _)
  rw [replacement.eq_def, if_neg hh, if_neg h.1, if_neg h.2]

/-- What a host can be replaced by. -/
structure Replaces (base : Option Text) (host name : Text) : Prop where
  valid : isValidDnsName name = true
  expands : Expands host
  spelled : (host = ['~'] ∧ ∃ b, base = some b ∧ normalizeName b = some name) ∨
    (host ≠ ['~'] ∧ name = toAsciiLowercase (replace '~' dhttpSuffix host))

theorem replacement_some {host : Text} (hw : ∀ c ∈ host, isVisible c = true)
    (h : replacement H base host = .ok (some name)) : Replaces base host name := by
  rw [replacement.eq_def] at h
  split at h
  · rename_i hh
    cases base with
    | none => cases h
    | some b =>
      dsimp only at h
      split at h
      · cases h
      · rename_i n hn
        cases h
        refine ⟨(normalizeName_some hn).1, .inl ?_, .inl ⟨hh, b, rfl, hn⟩⟩
        rw [hh]
        exact List.mem_singleton_self _
  · rename_i hh
    split at h
    · rename_i hm
      dsimp only at h
      split at h
      · rename_i hv
        cases h
        exact ⟨hv, .inl hm, .inr ⟨hh, rfl⟩⟩
      · cases h
    · rename_i hm
      split at h
      · rename_i hs
        split at h
        · cases h
        · rename_i n hn
          cases h
          refine ⟨(normalizeName_some hn).1, .inr hs, .inr ⟨hh, ?_⟩⟩
          rw [replace_of_not_mem _ hm]
          exact normalizeName_suffixed hw (endsWithSuffix_iff.1 hs) hn
      · cases h

theorem replacement_none (h : replacement H base host = .ok none) : ¬ Expands host := by
  rw [replacement.eq_def] at h
  split at h
  · split at h
    · cases h
    · split at h <;> cases h
  · split at h
    · dsimp only at h
      split at h <;> cases h
    · rename_i hm
      split at h
      · split at h <;> cases h
      · rename_i hs
        rintro (hc | hc)
        · exact hm hc
        · exact hs hc

/-- A name that replaced a host is not replaced by another one. -/
theorem replacement_of_valid (hv : isValidDnsName name = true) (base : Option Text) :
    replacement H base name = .ok none ∨ replacement H base name = .ok (some name) := by
  have hm : '~' ∉ name := not_mem_of_valid hv (by decide)
  have hh : name ≠ ['~'] := by
    rintro rfl
    exact hm (List.mem_singleton_self _)
  rw [replacement.eq_def, if_neg hh, if_neg hm]
  split
  · rename_i hs
    rw [endsWithSuffix_iff, toAsciiLowercase_of_valid hv] at hs
    rw [normalizeName_of_valid hv hs]
    exact .inr rfl
  · exact .inl rfl

theorem Replaces.no_bracket (h : Replaces base host name) : '[' ∉ host := by
  rcases h.spelled with ⟨rfl, -⟩ | ⟨-, hn⟩
  · decide
  · intro hb
    have hr : '[' ∈ replace '~' dhttpSuffix host := by
      refine List.mem_flatMap.2 ⟨'[', hb, ?_⟩
      rw [if_neg (by decide)]
      exact List.mem_singleton_self _
    have hl : '[' ∈ name := by
      rw [hn]
      exact List.mem_map.2 ⟨'[', hr, by decide⟩
    exact not_mem_of_valid h.valid (by decide) hl

theorem Replaces.length (h : Replaces base host name) (hl : name.length = host.length) :
    '~' ∉ host ∧ name = toAsciiLowercase host := by
  rcases h.spelled with ⟨rfl, b, -, hb⟩ | ⟨-, hn⟩
  · have hs := (normalizeName_some hb).2.length_le
    rw [hl] at hs
    exact absurd hs (by decide)
  · have hm : '~' ∉ host := by
      intro hm
      have hlt : host.length < (replace '~' dhttpSuffix host).length :=
        length_lt_replace (by decide) hm
      rw [hn, toAsciiLowercase_length] at hl
      omega
    rw [replace_of_not_mem _ hm] at hn
    exact ⟨hm, hn⟩

theorem expandAuthorityWithBase_ok {a a' : Authority H} :
    expandAuthorityWithBase base a = .ok a' ↔
      (replacement H base a.host = .ok none ∧ a' = a) ∨
        ∃ name, replacement H base a.host = .ok (some name) ∧ a'.raw = expanded a name := by
  rw [expandAuthorityWithBase]
  cases hr : replacement H base a.host with
  | error e => simp
  | ok r =>
    cases r with
    | none =>
      constructor
      · intro h
        cases h
        exact .inl ⟨rfl, rfl⟩
      · rintro (⟨-, rfl⟩ | ⟨name, hn, -⟩)
        · rfl
        · cases hn
    | some name =>
      dsimp only
      constructor
      · intro h
        refine .inr ⟨name, rfl, ?_⟩
        cases hp : Authority.parse H (expanded a name) with
        | error e =>
          rw [hp] at h
          cases h
        | ok b =>
          rw [hp] at h
          cases h
          exact Authority.parse_ok.1 hp
      · rintro (⟨hn, -⟩ | ⟨name', hn, hraw⟩)
        · cases hn
        · cases hn
          rw [Authority.parse_ok.2 hraw]
          rfl

/-- With one `@` at most the new authority is the old one around another host. -/
theorem expanded_single (a : Authority H)
    (h : ∀ first rest, splitOnce '@' a.raw = some (first, rest) → '@' ∉ rest) (name : Text) :
    expanded a name = a.userInfo ++ (name ++ a.port) := by
  have hraw := a.raw_eq
  rw [expanded, userInfoLen]
  cases hs : splitOnce '@' a.raw with
  | none =>
    have hu : a.userInfo = [] := throughLast_of_not_mem (splitOnce_eq_none.1 hs)
    rw [hu, List.nil_append] at hraw
    rw [hu, hraw]
    split
    · rename_i he
      rw [List.append_right_eq_self.1 he, List.append_nil, List.nil_append]
    · simp
  | some p =>
    obtain ⟨first, rest⟩ := p
    have hr := (splitOnce_eq_some.1 hs).2
    have hu : a.userInfo = first ++ ['@'] := by
      rw [Authority.userInfo, hr, ← List.singleton_append, ← List.append_assoc,
        throughLast_append _ (h first rest hs), throughLast_concat]
    have hne : a.raw ≠ a.host := fun he => a.not_mem_host (by
      rw [← he, hr]
      exact List.mem_append_right _ (List.mem_cons_self ..))
    have hlen : first.length + 1 = a.userInfo.length := by
      rw [hu, List.length_append, List.length_singleton]
    dsimp only
    rw [if_neg hne, hlen, hraw, List.take_left', ← List.append_assoc a.userInfo,
      ← List.length_append, List.drop_left, List.append_assoc]
    rfl

/-- With several `@` the old host is looked for after the first one. -/
theorem expanded_several {a : Authority H} (hs : splitOnce '@' a.raw = some (first, rest))
    (name : Text) :
    expanded a name = first ++ '@' :: (name ++ rest.drop a.host.length) := by
  have hr := (splitOnce_eq_some.1 hs).2
  have hne : a.raw ≠ a.host := fun he => a.not_mem_host (by
    rw [← he, hr]
    exact List.mem_append_right _ (List.mem_cons_self ..))
  have hraw : a.raw = (first ++ ['@']) ++ rest := by
    rw [hr, List.append_assoc, List.singleton_append]
  have hlen : first.length + 1 = (first ++ ['@']).length := by
    rw [List.length_append, List.length_singleton]
  rw [expanded, userInfoLen, hs]
  dsimp only
  rw [if_neg hne, hlen, hraw, List.take_left, ← List.drop_drop, List.drop_left,
    List.append_assoc, List.append_assoc, List.singleton_append]

theorem several_parts {a : Authority H} (hs : splitOnce '@' a.raw = some (first, rest))
    (hr : '@' ∈ rest) : ∃ inner, a.userInfo = first ++ '@' :: (inner ++ ['@']) ∧
      rest = (inner ++ ['@']) ++ (a.host ++ a.port) := by
  have hraw := (splitOnce_eq_some.1 hs).2
  rcases throughLast_cases '@' rest with ⟨hn, -⟩ | ⟨inner, hi⟩
  · exact absurd hr hn
  · have hrest := throughLast_append_afterLast '@' rest
    rw [hi] at hrest
    have hu : a.userInfo = first ++ '@' :: (inner ++ ['@']) := by
      have hsplit : a.raw = ((first ++ '@' :: inner) ++ ['@']) ++ afterLast '@' rest := by
        rw [hraw]
        conv_lhs => rw [← hrest]
        simp only [List.append_assoc, List.cons_append]
      rw [Authority.userInfo, hsplit, throughLast_append _ (not_mem_afterLast '@' rest),
        throughLast_concat, List.append_assoc, List.cons_append]
    refine ⟨inner, hu, ?_⟩
    rw [← hrest, Authority.host_port]
    congr 1
    have hp := a.userInfo_hostPort
    rw [hu, hraw, ← hrest] at hp
    simp only [List.append_assoc, List.cons_append, List.append_cancel_left_eq, List.cons.injEq,
      true_and] at hp
    simpa using hp.symm

/-- What expansion keeps of an authority. -/
structure KeepsAround (base : Option Text) (a a' : Authority H) : Prop where
  userInfo : a'.userInfo = a.userInfo
  port : a'.port = a.port
  host : a'.host = a.host ∨
    (a.host = ['~'] ∧ ∃ b, base = some b ∧ normalizeName b = some a'.host) ∨
    a'.host = toAsciiLowercase (replace '~' dhttpSuffix a.host)
  expanded : '~' ∉ a'.host

/-- The text between the first and the last `@` is not mistaken for the host: there is none, the
host is not replaced, or it begins with the host in lower case, which is then put where it was. -/
def SlicedRight (a : Authority H) : Prop :=
  ∀ first rest, splitOnce '@' a.raw = some (first, rest) → '@' ∉ rest ∨ ¬ Expands a.host ∨
    ('~' ∉ a.host ∧ toAsciiLowercase a.host <+: rest)

theorem keepsAround_self {a : Authority H} (hm : '~' ∉ a.host) : KeepsAround base a a :=
  ⟨rfl, rfl, .inl rfl, hm⟩

/-- An authority around a name that replaced a host is expanded to itself. -/
theorem expanded_stable {a' : Authority H} (hv : isValidDnsName a'.host = true)
    (hr : expanded a' a'.host = a'.raw) (base : Option Text) :
    expandAuthorityWithBase base a' = .ok a' := by
  rw [expandAuthorityWithBase_ok]
  rcases replacement_of_valid hv base with hn | hs
  · exact .inl ⟨hn, rfl⟩
  · exact .inr ⟨_, hs, hr.symm⟩

theorem replaced_single {a a' : Authority H} (hr : Replaces base a.host name)
    (h : ∀ first rest, splitOnce '@' a.raw = some (first, rest) → '@' ∉ rest)
    (he : a'.raw = expanded a name) :
    KeepsAround base a a' ∧ ∀ base', expandAuthorityWithBase base' a' = .ok a' := by
  have hraw := he.trans (expanded_single a h name)
  have hu : throughLast '@' a.userInfo = a.userInfo := List.rdropWhile_idempotent ..
  obtain ⟨hui, hhost, hport⟩ := Authority.parts_of_raw hr.valid hraw hu a.not_mem_port
    (a.port_cases hr.no_bracket)
  refine ⟨⟨hui, hport, ?_, ?_⟩, ?_⟩
  · rw [hhost]
    rcases hr.spelled with hs | ⟨-, hs⟩
    · exact .inr (.inl hs)
    · exact .inr (.inr hs)
  · rw [hhost]
    exact not_mem_of_valid hr.valid (by decide)
  · refine expanded_stable (hhost ▸ hr.valid) ?_
    rw [expanded_single a', hui, hport, hhost, hraw]
    intro first rest hs hm
    obtain ⟨inner, hin, -⟩ := several_parts hs hm
    rw [hui] at hin
    have hsa : splitOnce '@' a.raw = some (first, (inner ++ ['@']) ++ (a.host ++ a.port)) := by
      refine splitOnce_eq_some.2 ⟨(splitOnce_eq_some.1 hs).1, ?_⟩
      rw [a.raw_eq, hin, List.append_assoc, List.cons_append]
    refine h _ _ hsa ?_
    simp

/-- Where several `@` are cut apart the parts around the host stay only by coincidence. -/
theorem replaced_several {a a' : Authority H} (hr : Replaces base a.host name)
    (hs : splitOnce '@' a.raw = some (first, rest)) (hm : '@' ∈ rest)
    (he : a'.raw = expanded a name) (hk : KeepsAround base a a') :
    '~' ∉ a.host ∧ toAsciiLowercase a.host <+: rest := by
  obtain ⟨inner, hu, hrest⟩ := several_parts hs hm
  have hn : '@' ∉ name := not_mem_of_valid hr.valid (by decide)
  have htail : '@' ∉ a.host ++ a.port := by
    rw [List.mem_append, not_or]
    exact ⟨a.not_mem_host, a.not_mem_port⟩
  have htail' : '@' ∉ a'.host ++ a.port := by
    rw [List.mem_append, not_or]
    exact ⟨a'.not_mem_host, a.not_mem_port⟩
  have hraw : name ++ rest.drop a.host.length = (inner ++ ['@']) ++ (a'.host ++ a.port) := by
    rw [expanded_several hs, a'.raw_eq, hk.userInfo, hk.port, hu] at he
    simpa using he.symm
  rw [hrest] at hraw
  rcases Nat.lt_or_ge inner.length a.host.length with hlt | hge
  · -- the slice starts behind the last `@`, so the new authority has lost one
    have hd : '@' ∉ ((inner ++ ['@']) ++ (a.host ++ a.port)).drop a.host.length := by
      rw [List.drop_append, List.drop_eq_nil_of_le (by simpa using Nat.succ_le_of_lt hlt),
        List.nil_append]
      exact fun h => htail (List.mem_of_mem_drop h)
    have hat : '@' ∈ name ++ ((inner ++ ['@']) ++ (a.host ++ a.port)).drop a.host.length := by
      rw [hraw]
      simp
    rcases List.mem_append.1 hat with hat | hat
    · exact absurd hat hn
    · exact absurd hat hd
  · have hd : ((inner ++ ['@']) ++ (a.host ++ a.port)).drop a.host.length =
        (inner.drop a.host.length ++ ['@']) ++ (a.host ++ a.port) := by
      rw [List.drop_append_of_le_length (by simp; omega), List.drop_append_of_le_length hge]
    rw [hd] at hraw
    have hlast := congrArg (throughLast '@') hraw
    rw [← List.append_assoc, throughLast_append _ htail, throughLast_append _ htail',
      ← List.append_assoc, throughLast_concat, throughLast_concat,
      List.append_cancel_right_eq] at hlast
    have hlen : name.length = a.host.length := by
      have hl := congrArg List.length hlast
      rw [List.length_append, List.length_drop] at hl
      omega
    obtain ⟨ht, hl⟩ := hr.length hlen
    refine ⟨ht, ?_⟩
    rw [← hl, hrest, ← hlast, List.append_assoc, List.append_assoc]
    exact List.prefix_append ..

theorem replaced_coincidence {a a' : Authority H} (hr : Replaces base a.host name)
    (hs : splitOnce '@' a.raw = some (first, rest)) (ht : '~' ∉ a.host)
    (hp : toAsciiLowercase a.host <+: rest) (he : a'.raw = expanded a name) : a' = a := by
  have hn : name = toAsciiLowercase a.host := by
    rcases hr.spelled with ⟨hh, -⟩ | ⟨-, hn⟩
    · rw [hh] at ht
      exact absurd (List.mem_singleton_self _) ht
    · rw [replace_of_not_mem _ ht] at hn
      exact hn
  apply Authority.ext
  rw [he, expanded_several hs, hn, ← toAsciiLowercase_length a.host,
    List.prefix_iff_eq_append.1 hp, (splitOnce_eq_some.1 hs).2]

theorem expandAuthority_keepsAround_iff {a a' : Authority H}
    (h : expandAuthorityWithBase base a = .ok a') :
    (KeepsAround base a a' ∧ ∀ base', expandAuthorityWithBase base' a' = .ok a') ↔
      SlicedRight a := by
  rcases expandAuthorityWithBase_ok.1 h with ⟨hn, rfl⟩ | ⟨name, hn, he⟩
  · have hx := replacement_none hn
    have hstable (base') : expandAuthorityWithBase base' a' = .ok a' :=
      expandAuthorityWithBase_ok.2 (.inl ⟨replacement_of_not_expands hx base', rfl⟩)
    exact iff_of_true ⟨keepsAround_self fun hm => hx (.inl hm), hstable⟩
      fun first rest hs => .inr (.inl hx)
  · have hr := replacement_some a.host_visible hn
    constructor
    · rintro ⟨hk, -⟩ first rest hs
      by_cases hm : '@' ∈ rest
      · exact .inr (.inr (replaced_several hr hs hm he hk))
      · exact .inl hm
    · intro hc
      cases hs : splitOnce '@' a.raw with
      | none =>
        refine replaced_single hr (fun first rest hs' => ?_) he
        rw [hs] at hs'
        cases hs'
      | some p =>
        obtain ⟨first, rest⟩ := p
        rcases hc first rest hs with hm | hx | ⟨ht, hp⟩
        · refine replaced_single hr (fun first' rest' hs' => ?_) he
          rw [hs] at hs'
          cases hs'
          exact hm
        · exact absurd hr.expands hx
        · cases replaced_coincidence hr hs ht hp he
          have hstable (base') : expandAuthorityWithBase base' a = .ok a := by
            rw [expandAuthorityWithBase, replacement.eq_def, if_neg (by
              rintro hh
              rw [hh] at ht
              exact ht (List.mem_singleton_self _)), if_neg ht]
            rw [expandAuthorityWithBase, replacement.eq_def, if_neg (by
              rintro hh
              rw [hh] at ht
              exact ht (List.mem_singleton_self _)), if_neg ht] at h
            exact h
          exact ⟨keepsAround_self ht, hstable⟩

theorem expandUriWithBase_ok {uri uri' : Uri H} : expandUriWithBase base uri = .ok uri' ↔
    uri'.scheme = uri.scheme ∧ uri'.pathAndQuery = uri.pathAndQuery ∧
      Option.Rel (fun a a' => expandAuthorityWithBase base a = .ok a')
        uri.authority uri'.authority := by
  rw [expandUriWithBase]
  cases uri.authority with
  | none =>
    dsimp only
    rw [Uri.fromParts_ok]
    constructor
    · rintro ⟨hs, ha, hp⟩
      rw [ha]
      exact ⟨hs, hp, .none⟩
    · rintro ⟨hs, hp, ha⟩
      generalize uri'.authority = authority at ha
      cases ha
      exact ⟨hs, rfl, hp⟩
  | some a =>
    dsimp only
    cases he : expandAuthorityWithBase base a with
    | error e =>
      constructor
      · intro h
        cases h
      · rintro ⟨-, -, ha⟩
        generalize uri'.authority = authority at ha
        cases ha with
        | some h =>
          rw [he] at h
          cases h
    | ok b =>
      dsimp only
      rw [Uri.fromParts_ok]
      constructor
      · rintro ⟨hs, ha, hp⟩
        rw [ha]
        exact ⟨hs, hp, .some he⟩
      · rintro ⟨hs, hp, ha⟩
        generalize uri'.authority = authority at ha
        cases ha with
        | some h =>
          cases he.symm.trans h
          exact ⟨hs, rfl, hp⟩

/-- Expansion changes the host only, and only once. -/
structure ChangesOnlyHost (base : Option Text) (uri uri' : Uri H) : Prop where
  scheme : uri'.scheme = uri.scheme
  pathAndQuery : uri'.pathAndQuery = uri.pathAndQuery
  authority : Option.Rel (KeepsAround base) uri.authority uri'.authority
  stable : ∀ base', expandUriWithBase base' uri' = .ok uri'

/-- An expanded URI differs from the given one in its host only, exactly when the host is cut out
at the right place. -/
theorem changesOnlyHost_iff {uri uri' : Uri H} (h : expandUriWithBase base uri = .ok uri') :
    ChangesOnlyHost base uri uri' ↔ ∀ a, uri.authority = some a → SlicedRight a := by
  obtain ⟨hscheme, hpq, ha⟩ := expandUriWithBase_ok.1 h
  obtain ⟨scheme, authority, pathAndQuery, hu⟩ := uri
  obtain ⟨scheme', authority', pathAndQuery', hu'⟩ := uri'
  cases ha with
  | none =>
    refine iff_of_true ⟨hscheme, hpq, .none, fun base' => ?_⟩ (by rintro a ⟨⟩)
    exact expandUriWithBase_ok.2 ⟨rfl, rfl, .none⟩
  | @some a a' ha =>
    have hiff := expandAuthority_keepsAround_iff ha
    constructor
    · intro hc b hb
      cases hb
      refine hiff.1 ⟨?_, fun base' => ?_⟩
      · cases hc.authority with
        | some hk => exact hk
      · obtain ⟨-, -, hs⟩ := expandUriWithBase_ok.1 (hc.stable base')
        cases hs with
        | some hs => exact hs
    · intro hc
      obtain ⟨hk, hstable⟩ := hiff.2 (hc a rfl)
      exact ⟨hscheme, hpq, .some hk, fun base' =>
        expandUriWithBase_ok.2 ⟨rfl, rfl, .some (hstable base')⟩⟩

def isAuthorityChar (c : Char) : Bool :=
  isVisible c && c != '/' && c != '?' && c != '#'

/-- An instance of the crate that checks the characters of an authority, and not its ports and
brackets. -/
def plainCrate : HttpCrate where
  InvalidUri := Unit
  parseAuthority raw := if raw.all isAuthorityChar then .ok () else .error ()
  visible {raw} h c hc := by
    have ha : raw.all isAuthorityChar = true := by
      by_contra hn
      rw [if_neg hn] at h
      cases h
    have hv := List.all_eq_true.1 ha c hc
    simp only [isAuthorityChar, Bool.and_eq_true] at hv
    exact hv.1.1.1
  fromParts scheme authority pathAndQuery :=
    if scheme.isSome && !(authority && pathAndQuery.isSome) then .error "missing part".toList
    else if scheme.isNone && authority && pathAndQuery.isSome then .error "scheme missing".toList
    else .ok ()

/-- An absolute URI with the path `/`. -/
def rootUri (authority : Text) (ha : authority.all isAuthorityChar = true) : Uri plainCrate where
  scheme := some "https".toList
  authority := some ⟨authority, if_pos ha⟩
  pathAndQuery := some ⟨['/'], none⟩
  consistent := rfl

/-- The authority `a@B~:7` becomes `a@b.dhttp.net:7`. -/
theorem changesOnlyHost_shorthand :
    ChangesOnlyHost none (rootUri ['a', '@', 'B', '~', ':', '7'] rfl)
      (rootUri (['a', '@', 'b'] ++ dhttpSuffix ++ [':', '7']) rfl) := by
  have h : expandUriWithBase none (rootUri ['a', '@', 'B', '~', ':', '7'] rfl) =
      .ok (rootUri (['a', '@', 'b'] ++ dhttpSuffix ++ [':', '7']) rfl) := rfl
  refine (changesOnlyHost_iff h).2 ?_
  rintro a ⟨⟩ first rest hs
  cases hs
  exact .inl (by decide)

/-- In `a@b@c~` the text between the two `@` is taken for the beginning of the host. -/
theorem expansion_moves_userInfo :
    expandUriWithBase none (rootUri ['a', '@', 'b', '@', 'c', '~'] rfl) =
        .ok (rootUri (['a', '@', 'c'] ++ dhttpSuffix ++ ['c', '~']) rfl) ∧
      ¬ ChangesOnlyHost none (rootUri ['a', '@', 'b', '@', 'c', '~'] rfl)
        (rootUri (['a', '@', 'c'] ++ dhttpSuffix ++ ['c', '~']) rfl) := by
  refine ⟨rfl, fun hc => ?_⟩
  cases hc.authority with
  | some hk => exact absurd hk.userInfo (by decide)

end Dhttp.Client
