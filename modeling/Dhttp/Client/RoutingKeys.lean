import Dhttp.Home.DnsNames
import Dhttp.Client.Routing

namespace Dhttp.Client
open Dhttp.Lib Dhttp.Home
set_option autoImplicit true

variable {H : HttpCrate}

/-- The names that `ServerName::try_from` takes for DNS names: their labels are not empty, and the
last one is no number. -/
structure DnsNameRules (isDnsName : Text → Bool) : Prop where
  labels : ∀ {host}, isDnsName host = true → ∀ label ∈ splitAll '.' (stripDot host),
    label ≠ [] ∧ ∀ c ∈ label, c.isAlphanum = true ∨ c = '-' ∨ c = '_'
  named : ∀ {host}, isDnsName host = true → ∀ label,
    (splitAll '.' (stripDot host)).getLast? = some label → label.all Char.isDigit = false

/-- Labels in lower case, the last of them no number, so that the host is no IP address. -/
structure IsRoutedHost (host : Text) : Prop where
  labels : ∀ label ∈ splitAll '.' host, label ≠ [] ∧ ∀ c ∈ label, isLabelChar c = true
  named : ∀ label, (splitAll '.' host).getLast? = some label → label.all Char.isDigit = false

/-- The key of a host that is no DHTTP name: it has a port where the authority has one. -/
inductive PortKey (port host : Text) : Text → Prop
  | bare (hp : port = []) : PortKey port host host
  | numbered (hp : port = ':' :: digits) (hn : parseU16 digits = some n) (hpos : 1 ≤ n)
      (hle : n ≤ 65535) : PortKey port host (host ++ ':' :: Nat.toDigits 10 n)

/-- The hosts differ in letter case or in one trailing dot. -/
def SameHost (host host' : Text) : Prop :=
  toAsciiLowercase host = toAsciiLowercase host' ∨
    toAsciiLowercase host = toAsciiLowercase host' ++ ['.'] ∨
    toAsciiLowercase host' = toAsciiLowercase host ++ ['.']

/-- How much user information stands behind its first `@`. -/
def strayLength (userInfo : Text) : Nat :=
  (splitOnce '@' userInfo).elim 0 fun parts => parts.2.length

/-- Stray user information is cut out in place of the host, down to the last `@`. -/
def Overlaps (a : Authority H) : Prop :=
  endsWithSuffix a.host = true ∧ 0 < strayLength a.userInfo ∧
    strayLength a.userInfo ≤ a.host.length

/-- The host that an authority is given in place of its own. -/
def movedHost (userInfo host name : Text) : Text :=
  if strayLength userInfo ≤ host.length then
    name ++ host.drop (host.length - strayLength userInfo)
  else host

section Moving

/-- User information with one `@` has it at its end. -/
theorem strayLength_single {a : Authority H}
    (h : ∀ first rest, splitOnce '@' a.raw = some (first, rest) → '@' ∉ rest) :
    strayLength a.userInfo = 0 := by
  rw [strayLength]
  cases hs : splitOnce '@' a.userInfo with
  | none => rfl
  | some parts =>
    obtain ⟨first, rest⟩ := parts
    obtain ⟨hn, hu⟩ := splitOnce_eq_some.1 hs
    have hraw : splitOnce '@' a.raw = some (first, rest ++ (a.host ++ a.port)) := by
      refine splitOnce_eq_some.2 ⟨hn, ?_⟩
      rw [a.raw_eq, hu, List.append_assoc, List.cons_append]
    have hrest : '@' ∉ rest := fun hm => h _ _ hraw (List.mem_append_left _ hm)
    obtain ⟨hnone, -⟩ | ⟨init, hi⟩ := throughLast_cases '@' a.raw
    · rw [a.raw_eq, hu] at hnone
      simp at hnone
    · have hlast : (first ++ '@' :: rest).getLast? = some '@' := by
        rw [← hu, Authority.userInfo, hi, List.getLast?_concat]
      cases rest with
      | nil => rfl
      | cons c rest =>
        rw [List.getLast?_append_of_ne_nil _ (List.cons_ne_nil _ _),
          List.getLast?_cons_of_ne_nil (List.cons_ne_nil _ _)] at hlast
        exact absurd (List.mem_of_getLast? hlast) hrest

theorem movedHost_single {userInfo : Text} (h : strayLength userInfo = 0) (host name : Text) :
    movedHost userInfo host name = name := by
  rw [movedHost, h, if_pos (Nat.zero_le _), Nat.sub_zero, List.drop_length, List.append_nil]

theorem moved_single {a a' : Authority H} (hr : Replaces base a.host name)
    (h : ∀ first rest, splitOnce '@' a.raw = some (first, rest) → '@' ∉ rest)
    (he : a'.raw = expanded a name) :
    a'.host = movedHost a.userInfo a.host name ∧ a'.port = a.port := by
  have hu : throughLast '@' a.userInfo = a.userInfo := List.rdropWhile_idempotent ..
  obtain ⟨-, hhost, hport⟩ := Authority.parts_of_raw hr.valid (he.trans (expanded_single a h name))
    hu a.not_mem_port (a.port_cases hr.no_bracket)
  rw [movedHost_single (strayLength_single h)]
  exact ⟨hhost, hport⟩

theorem moved_several {a a' : Authority H} (hr : Replaces base a.host name)
    (hs : splitOnce '@' a.raw = some (first, rest)) (hm : '@' ∈ rest)
    (he : a'.raw = expanded a name) :
    a'.host = movedHost a.userInfo a.host name ∧ a'.port = a.port := by
  obtain ⟨inner, hu, hrest⟩ := several_parts hs hm
  have hstray : strayLength a.userInfo = inner.length + 1 := by
    have hsplit : splitOnce '@' a.userInfo = some (first, inner ++ ['@']) :=
      splitOnce_eq_some.2 ⟨(splitOnce_eq_some.1 hs).1, hu⟩
    rw [strayLength, hsplit, Option.elim_some, List.length_append, List.length_singleton]
  rw [expanded_several hs, hrest] at he
  rw [movedHost, hstray]
  by_cases hle : inner.length + 1 ≤ a.host.length
  · -- the cut ends inside the host, and the authority keeps one `@`
    have hdrop : ((inner ++ ['@']) ++ (a.host ++ a.port)).drop a.host.length =
        a.host.drop (a.host.length - (inner.length + 1)) ++ a.port := by
      rw [List.drop_append, List.drop_eq_nil_of_le (by simpa using hle), List.nil_append,
        List.length_append, List.length_singleton,
        List.drop_append_of_le_length (Nat.sub_le _ _)]
    have hraw : a'.raw = (first ++ ['@']) ++
        ((name ++ a.host.drop (a.host.length - (inner.length + 1))) ++ a.port) := by
      rw [he, hdrop]
      simp only [List.append_assoc, List.cons_append, List.nil_append]
    have hname {c : Char} (hc : isNameChar c = false) (hh : c ∉ a.host) :
        c ∉ name ++ a.host.drop (a.host.length - (inner.length + 1)) := by
      rw [List.mem_append, not_or]
      exact ⟨not_mem_of_valid hr.valid hc, fun hd => hh (List.mem_of_mem_drop hd)⟩
    rw [if_pos hle]
    exact (Authority.parts_of_host
      (fun hn => ne_nil_of_valid hr.valid (List.append_eq_nil_iff.1 hn).1)
      (hname (by decide) a.not_mem_host)
      (hname (by decide) (Authority.colon_not_mem_host hr.no_bracket))
      (hname (by decide) hr.no_bracket) hraw (throughLast_concat '@' first) a.not_mem_port
      (a.port_cases hr.no_bracket)).2
  · -- the cut ends before the last `@`, so the host stays
    have hdrop : ((inner ++ ['@']) ++ (a.host ++ a.port)).drop a.host.length =
        (inner.drop a.host.length ++ ['@']) ++ a.hostPort := by
      rw [List.drop_append_of_le_length (by simp; omega),
        List.drop_append_of_le_length (by omega), a.host_port]
    have hraw : a'.raw = ((first ++ '@' :: name ++ inner.drop a.host.length) ++ ['@']) ++
        a.hostPort := by
      rw [he, hdrop]
      simp only [List.append_assoc, List.cons_append]
    have hhp : a'.hostPort = a.hostPort := by
      rw [Authority.hostPort, hraw, afterLast_append _ a.not_mem_hostPort, afterLast_concat_sep,
        List.nil_append]
    have hhost : a'.host = a.host := congrArg Authority.hostOf hhp
    rw [if_neg hle]
    refine ⟨hhost, ?_⟩
    rw [Authority.port, Authority.port, hhost, hhp]

theorem replaced_parts {a a' : Authority H} (hr : Replaces base a.host name)
    (he : a'.raw = expanded a name) :
    a'.host = movedHost a.userInfo a.host name ∧ a'.port = a.port := by
  cases hs : splitOnce '@' a.raw with
  | none =>
    refine moved_single hr (fun first rest hs' => ?_) he
    rw [hs] at hs'
    cases hs'
  | some parts =>
    obtain ⟨first, rest⟩ := parts
    by_cases hm : '@' ∈ rest
    · exact moved_several hr hs hm he
    · refine moved_single hr (fun first' rest' hs' => ?_) he
      rw [hs] at hs'
      cases hs'
      exact hm

/-- The host of an expanded authority, and its port, which stays. -/
theorem expandAuthority_parts {a a' : Authority H} (h : expandAuthorityWithBase base a = .ok a') :
    a'.port = a.port ∧ (¬ Expands a.host ∧ a'.host = a.host ∨
      ∃ name, Replaces base a.host name ∧ a'.host = movedHost a.userInfo a.host name) := by
  obtain ⟨hn, rfl⟩ | ⟨name, hn, he⟩ := expandAuthorityWithBase_ok.1 h
  · exact ⟨rfl, .inl ⟨replacement_none hn, rfl⟩⟩
  · have hr := replacement_some a.host_visible hn
    obtain ⟨hhost, hport⟩ := replaced_parts hr he
    exact ⟨hport, .inr ⟨name, hr, hhost⟩⟩

end Moving

section Hosts
variable {isDnsName : Text → Bool} {host : Text}

theorem stripDot_cases (host : Text) :
    host.getLast? ≠ some '.' ∧ stripDot host = host ∨ host = stripDot host ++ ['.'] := by
  rw [stripDot]
  split
  · rename_i hl
    obtain ⟨init, rfl⟩ := List.getLast?_eq_some_iff.1 hl
    rw [List.dropLast_concat]
    exact .inr rfl
  · rename_i hl
    exact .inl ⟨hl, rfl⟩

theorem host_chars (hD : DnsNameRules isDnsName) (hn : isDnsName host = true) (hc : c ∈ host) :
    c.isAlphanum = true ∨ c = '-' ∨ c = '_' ∨ c = '.' := by
  have hstripped : c ∈ stripDot host ∨ c = '.' := by
    obtain ⟨-, he⟩ | he := stripDot_cases host
    · rw [he]
      exact .inl hc
    · rw [he, List.mem_append, List.mem_singleton] at hc
      exact hc
  obtain hs | rfl := hstripped
  · obtain rfl | ⟨label, hl, hcl⟩ : c = '.' ∨ ∃ label ∈ splitAll '.' (stripDot host), c ∈ label :=
      mem_pieces hs
    · exact .inr (.inr (.inr rfl))
    · exact ((hD.labels hn label hl).2 c hcl).imp_right fun h => h.imp_right .inl
  · exact .inr (.inr (.inr rfl))

theorem host_not_mem (hD : DnsNameRules isDnsName) (hn : isDnsName host = true)
    (hc : ¬ (c.isAlphanum = true ∨ c = '-' ∨ c = '_' ∨ c = '.')) : c ∉ host :=
  fun hm => hc (host_chars hD hn hm)

theorem splitAll_lower (s : Text) :
    splitAll '.' (toAsciiLowercase s) = (splitAll '.' s).map toAsciiLowercase :=
  splitAll_map fun _ _ => toLower_eq_iff (.inl (by decide))

theorem isDigit_iff {c : Char} : c.isDigit = true ↔ 48 ≤ c.toNat ∧ c.toNat ≤ 57 := by
  rw [Char.isDigit, Bool.and_eq_true, decide_eq_true_iff, decide_eq_true_iff, ge_iff_le,
    UInt32.le_iff_toNat_le, UInt32.le_iff_toNat_le]
  rfl

theorem isAlphanum_iff {c : Char} : c.isAlphanum = true ↔ (65 ≤ c.toNat ∧ c.toNat ≤ 90) ∨
    (97 ≤ c.toNat ∧ c.toNat ≤ 122) ∨ (48 ≤ c.toNat ∧ c.toNat ≤ 57) := by
  simp only [Char.isAlphanum, Char.isAlpha, Char.isUpper, Char.isLower, Bool.or_eq_true,
    isDigit_iff, Bool.and_eq_true, decide_eq_true_iff, ge_iff_le, UInt32.le_iff_toNat_le, or_assoc]
  rfl

theorem isLabelChar_nat {c : Char} (h : (97 ≤ c.toNat ∧ c.toNat ≤ 122) ∨
    (48 ≤ c.toNat ∧ c.toNat ≤ 57)) : isLabelChar c = true := by
  simp only [isLabelChar, Bool.or_eq_true, Bool.and_eq_true, decide_eq_true_iff, Char.le_def,
    UInt32.le_iff_toNat_le]
  exact .inl h

theorem isLabelChar_toLower {c : Char} (h : c.isAlphanum = true ∨ c = '-') :
    isLabelChar c.toLower = true := by
  obtain h | rfl := h
  · rw [isAlphanum_iff] at h
    apply isLabelChar_nat
    obtain ⟨hc, hn⟩ | ⟨hc, he⟩ := toLower_cases c
    · rw [hn]
      omega
    · rw [he]
      omega
  · rfl

theorem isDigit_toLower (c : Char) : c.toLower.isDigit = c.isDigit := by
  rw [Bool.eq_iff_iff, isDigit_iff, isDigit_iff]
  obtain ⟨hc, hn⟩ | ⟨-, he⟩ := toLower_cases c
  · rw [hn]
    omega
  · rw [he]

theorem isRoutedHost (hD : DnsNameRules isDnsName) (hn : isDnsName host = true)
    (hu : '_' ∉ host) : IsRoutedHost (toAsciiLowercase (stripDot host)) := by
  have hsub : stripDot host ⊆ host := by
    obtain ⟨-, he⟩ | he := stripDot_cases host
    · rw [he]
      exact List.Subset.refl _
    · conv_rhs => rw [he]
      exact List.subset_append_left _ _
  refine ⟨fun label hl => ?_, fun label hl => ?_⟩
  · rw [splitAll_lower] at hl
    obtain ⟨piece, hp, rfl⟩ := List.mem_map.1 hl
    obtain ⟨hne, hchars⟩ := hD.labels hn piece hp
    refine ⟨fun he => hne (List.map_eq_nil_iff.1 he), fun c hc => ?_⟩
    obtain ⟨d, hd, rfl⟩ := List.mem_map.1 hc
    apply isLabelChar_toLower
    obtain hd' | rfl | rfl := hchars d hd
    · exact .inl hd'
    · exact .inr rfl
    · exact absurd (hsub ((mem_splitAll hp).2 hd)) hu
  · rw [splitAll_lower, List.getLast?_map, Option.map_eq_some_iff] at hl
    obtain ⟨piece, hp, rfl⟩ := hl
    rw [toAsciiLowercase, List.all_map]
    refine Eq.trans (congrArg piece.all (funext isDigit_toLower)) (hD.named hn piece hp)

end Hosts

section Keys
variable {isDnsName : Text → Bool}

/-- The key of a host and a port text, of which only what follows the last colon is read. -/
inductive RawKey (port host : Text) : Text → Prop
  | dhttp (hs : dhttpSuffix <:+ host) : RawKey port host host
  | bare (hs : ¬ dhttpSuffix <:+ host) (hp : port = []) : RawKey port host host
  | numbered (hs : ¬ dhttpSuffix <:+ host) (hp : port = ':' :: digits)
      (hn : parseU16 (afterLast ':' digits) = some n) (hpos : 1 ≤ n) (hle : n ≤ 65535) :
      RawKey port host (host ++ ':' :: Nat.toDigits 10 n)

theorem colon_not_mem_parseU16 (h : parseU16 s = some n) : ':' ∉ s := by
  intro hm
  rw [parseU16] at h
  obtain ⟨⟨-, hd⟩, -⟩ := Option.ite_none_right_eq_some.1 h
  have htail : ':' ∈ (if s.head? = some '+' then s.tail else s) := by
    split
    · rename_i hp
      cases s with
      | nil => cases hm
      | cons c s =>
        cases hp
        obtain hc | hm := List.mem_cons.1 hm
        · exact absurd hc (by decide)
        · exact hm
    · exact hm
  exact absurd (List.all_eq_true.1 hd _ htail) (by decide)

theorem parseU16_lt (h : parseU16 s = some n) : n ≤ 65535 := by
  rw [parseU16] at h
  obtain ⟨-, h⟩ := Option.ite_none_right_eq_some.1 h
  obtain ⟨hlt, he⟩ := Option.ite_none_right_eq_some.1 h
  rw [Option.some.inj he] at hlt
  exact Nat.le_of_lt_succ hlt

theorem remoteOf_ok {a' : Authority H} (hcolon : ':' ∉ a'.host)
    (hport : a'.port = [] ∨ ∃ digits, a'.port = ':' :: digits) (hs : ¬ dhttpSuffix <:+ host)
    (h : remoteOf host a' = .ok remote) : RawKey a'.port host remote := by
  rw [remoteOf, ← a'.host_port] at h
  obtain hp | ⟨digits, hp⟩ := hport
  · rw [hp, List.append_nil, if_neg hcolon] at h
    cases h
    exact .bare hs hp
  · have hm : ':' ∈ a'.host ++ ':' :: digits := List.mem_append_right _ List.mem_cons_self
    rw [hp, if_pos hm, afterLast_append_sep] at h
    split at h
    · rename_i n hn
      cases h
      obtain ⟨hparse, hne⟩ := Option.filter_eq_some_iff.1 hn
      exact .numbered hs hp hparse (Nat.pos_of_ne_zero (of_decide_eq_true hne)) (parseU16_lt hparse)
    · cases h

/-- The host a request is routed to and the key made of it. -/
theorem resolved_key (hD : DnsNameRules isDnsName) {uri uri' : Uri H}
    (h : resolveRequestUri isDnsName base uri = .ok (uri', remote)) :
    ∃ a a', uri.authority = some a ∧ uri'.authority = some a' ∧
      expandAuthorityWithBase base a = .ok a' ∧ '_' ∉ a'.host ∧ isDnsName a'.host = true ∧
      RawKey a.port (toAsciiLowercase (stripDot a'.host)) remote := by
  obtain ⟨hu, a', ha', hunder, hn, hkey⟩ := resolveRequestUri_ok h
  obtain ⟨-, -, hrel⟩ := expandUriWithBase_ok.1 hu
  rw [ha'] at hrel
  generalize ha : uri.authority = authority at hrel
  cases hrel with
  | @some a _ he =>
    refine ⟨a, a', rfl, ha', he, hunder, hn, ?_⟩
    rw [← (expandAuthority_parts he).1]
    obtain ⟨hs, rfl⟩ | ⟨hs, hr⟩ := hkey
    · exact .dhttp hs
    · have hbracket : '[' ∉ a'.host := host_not_mem hD hn (by decide)
      exact remoteOf_ok (host_not_mem hD hn (by decide)) (a'.port_cases hbracket) hs hr

theorem RawKey.dhttp_eq (h : RawKey port host remote) (hs : dhttpSuffix <:+ host) :
    remote = host := by
  cases h with
  | dhttp => rfl
  | bare hn => exact absurd hs hn
  | numbered hn => exact absurd hs hn

/-- The port is read as a whole exactly when it has no second colon. -/
theorem RawKey.portKey_iff (h : RawKey port host remote) (hs : ¬ dhttpSuffix <:+ host) :
    PortKey port host remote ↔ ':' ∉ port.tail := by
  cases h with
  | dhttp hd => exact absurd hd hs
  | bare _ hp =>
    rw [hp]
    exact iff_of_true (.bare rfl) List.not_mem_nil
  | @numbered digits n _ hp hn hpos hle =>
    rw [hp, List.tail_cons]
    constructor
    · intro hk
      generalize host ++ ':' :: Nat.toDigits 10 n = remote at hk
      cases hk with
      | bare hp' => cases hp'
      | numbered hp' hn' =>
        cases hp'
        exact colon_not_mem_parseU16 hn'
    · intro hm
      rw [afterLast_of_not_mem hm] at hn
      exact .numbered rfl hn hpos hle

/-- The host of a key is what stands before its colon. -/
theorem RawKey.takeWhile_eq (h : RawKey port host remote) (hcolon : ':' ∉ host) :
    remote.takeWhile (· ≠ ':') = host := by
  cases h with
  | dhttp | bare =>
    have htake := takeWhile_sep hcolon (.inl rfl)
    rw [List.append_nil] at htake
    exact htake
  | numbered => exact takeWhile_sep hcolon (.inr ⟨_, rfl⟩)

theorem RawKey.unique (h : RawKey port host remote) (h' : RawKey port host remote') :
    remote = remote' := by
  cases h with
  | dhttp hs => exact (h'.dhttp_eq hs).symm
  | bare hs hp =>
    cases h' with
    | dhttp | bare => rfl
    | numbered _ hp' =>
      rw [hp] at hp'
      cases hp'
  | numbered hs hp hn =>
    cases h' with
    | dhttp hs' => exact absurd hs' hs
    | bare _ hp' =>
      rw [hp] at hp'
      cases hp'
    | numbered _ hp' hn' =>
      rw [hp] at hp'
      cases hp'
      rw [Option.some.inj (hn.symm.trans hn')]

/-- The key tells the hosts of one port apart. -/
theorem RawKey.inj (h : RawKey port host remote) (h' : RawKey port host' remote')
    (hcolon : ':' ∉ host) (hcolon' : ':' ∉ host') : remote = remote' ↔ host = host' := by
  constructor
  · intro he
    rw [← h.takeWhile_eq hcolon, ← h'.takeWhile_eq hcolon', he]
  · intro he
    subst he
    exact h.unique h'

end Keys

section Pairs
variable {isDnsName : Text → Bool} {host host' : Text}

theorem lower_append (s t : Text) :
    toAsciiLowercase (s ++ t) = toAsciiLowercase s ++ toAsciiLowercase t := List.map_append

/-- Characters that are no letters are kept by the lower case. -/
theorem mem_lower {c : Char} (hc : c.toNat < 65 ∨ 122 < c.toNat) :
    c ∈ toAsciiLowercase host ↔ c ∈ host := by
  rw [toAsciiLowercase, List.mem_map]
  constructor
  · intro h
    obtain ⟨d, hd, he⟩ := h
    rw [← (toLower_eq_iff hc).1 he]
    exact hd
  · intro h
    exact ⟨c, h, (toLower_eq_iff hc).2 rfl⟩

theorem getLast_lower (host : Text) :
    (toAsciiLowercase host).getLast? = some '.' ↔ host.getLast? = some '.' := by
  rw [toAsciiLowercase, List.getLast?_map, Option.map_eq_some_iff]
  constructor
  · intro h
    obtain ⟨c, hc, he⟩ := h
    rw [hc, (toLower_eq_iff (.inl (by decide))).1 he]
  · intro h
    exact ⟨'.', h, rfl⟩

theorem lower_stripDot (host : Text) :
    toAsciiLowercase (stripDot host) = stripDot (toAsciiLowercase host) := by
  rw [stripDot, stripDot]
  by_cases hl : host.getLast? = some '.'
  · rw [if_pos hl, if_pos ((getLast_lower host).2 hl), toAsciiLowercase, List.map_dropLast]
    rfl
  · rw [if_neg hl, if_neg (mt (getLast_lower host).1 hl)]

theorem stripDot_concat (host : Text) : stripDot (host ++ ['.']) = host := by
  rw [stripDot, List.getLast?_concat, if_pos rfl, List.dropLast_concat]

theorem stripDot_suffixed (h : dhttpSuffix <:+ host) : stripDot host = host := by
  obtain ⟨t, rfl⟩ := h
  rw [stripDot, List.getLast?_append_of_ne_nil _ (by decide)]
  exact if_neg (by decide)

/-- The dot of a DNS name is the only one at its end. -/
theorem stripDot_getLast (hD : DnsNameRules isDnsName) (hn : isDnsName host = true) :
    (stripDot host).getLast? ≠ some '.' := by
  apply getLast_ne_sep
  intro hempty
  exact (hD.labels hn [] hempty).1 rfl

theorem stripDot_of_ne (h : host.getLast? ≠ some '.') : stripDot host = host := if_neg h

theorem SameHost.symm (h : SameHost host host') : SameHost host' host := by
  obtain h | h | h := h
  · exact .inl h.symm
  · exact .inr (.inr h)
  · exact .inr (.inl h)

/-- Of two spellings of a host one has the other's letters, or a dot behind them. -/
theorem SameHost.lower_eq (h : SameHost host host') (hl : host.getLast? ≠ some '.')
    (hl' : host'.getLast? ≠ some '.') : toAsciiLowercase host = toAsciiLowercase host' := by
  have hdot {s t : Text} (he : toAsciiLowercase s = toAsciiLowercase t ++ ['.']) :
      s.getLast? = some '.' := by
    rw [← getLast_lower, he, List.getLast?_concat]
  obtain h | h | h := h
  · exact h
  · exact absurd (hdot h) hl
  · exact absurd (hdot h) hl'

/-- Two spellings of one DNS name have one form without the dot. -/
theorem SameHost.strip_eq (h : SameHost host host')
    (hs : (stripDot host).getLast? ≠ some '.') (hs' : (stripDot host').getLast? ≠ some '.') :
    toAsciiLowercase (stripDot host) = toAsciiLowercase (stripDot host') := by
  have hdotted {s t : Text} (he : toAsciiLowercase s = toAsciiLowercase t ++ ['.'])
      (hn : (stripDot s).getLast? ≠ some '.') :
      toAsciiLowercase (stripDot s) = toAsciiLowercase (stripDot t) := by
    have hstrip : toAsciiLowercase (stripDot s) = toAsciiLowercase t := by
      rw [lower_stripDot, he, stripDot_concat]
    have hne : t.getLast? ≠ some '.' := by
      rw [ne_eq, ← getLast_lower, ← hstrip]
      exact mt (getLast_lower _).1 hn
    rw [hstrip, stripDot_of_ne hne]
  obtain h | h | h := h
  · rw [lower_stripDot, lower_stripDot, h]
  · exact hdotted h hs
  · exact (hdotted h hs').symm

theorem SameHost.mem_iff {c : Char} (h : SameHost host host') (hc : c.toNat < 65 ∨ 122 < c.toNat)
    (hd : c ≠ '.') : c ∈ host ↔ c ∈ host' := by
  have hdot {s : Text} : c ∈ s ++ ['.'] ↔ c ∈ s := by
    rw [List.mem_append, List.mem_singleton]
    exact or_iff_left hd
  have hlower : c ∈ toAsciiLowercase host ↔ c ∈ toAsciiLowercase host' := by
    obtain h | h | h := h
    · rw [h]
    · rw [h, hdot]
    · rw [h, hdot]
  rw [mem_lower hc, mem_lower hc] at hlower
  exact hlower

theorem replaces_getLast (hr : Replaces base host name) : host.getLast? ≠ some '.' := by
  intro hl
  obtain ⟨init, rfl⟩ := List.getLast?_eq_some_iff.1 hl
  obtain ⟨hbare, -⟩ | ⟨-, hn⟩ := hr.spelled
  · have hlast := congrArg List.getLast? hbare
    rw [List.getLast?_concat] at hlast
    exact absurd hlast (by decide)
  · have hname := getLast_ne_dot (dnsNames_of_isValidDnsName hr.valid)
    rw [hn, ne_eq, getLast_lower, replace_append] at hname
    apply hname
    exact List.getLast?_append_of_ne_nil _ (by decide)

theorem lower_replace (host : Text) : toAsciiLowercase (replace '~' dhttpSuffix host) =
    replace '~' dhttpSuffix (toAsciiLowercase host) := by
  induction host with
  | nil => rfl
  | cons c host ih =>
    have hcons : toAsciiLowercase (c :: host) = c.toLower :: toAsciiLowercase host := rfl
    rw [replace_cons, lower_append, ih, hcons, replace_cons]
    by_cases hc : c = '~'
    · rw [hc]
      rfl
    · rw [if_neg hc, if_neg (mt (toLower_eq_iff (.inr (by decide))).1 hc)]
      rfl

/-- What a host is replaced by does not depend on its letter case. -/
theorem replaces_unique (hr : Replaces base host name) (hr' : Replaces base host' name')
    (h : toAsciiLowercase host = toAsciiLowercase host') : name = name' := by
  have hbare {s t : Text} (hs : s = ['~']) (he : toAsciiLowercase s = toAsciiLowercase t) :
      t = ['~'] := by
    rw [hs] at he
    cases t with
    | nil => cases he
    | cons c t =>
      obtain ⟨hc, ht⟩ := List.cons.inj he
      have hc : c = '~' := (toLower_eq_iff (.inr (by decide))).1 hc.symm
      rw [hc, List.map_eq_nil_iff.1 ht.symm]
  obtain ⟨hb, b, hbase, hn⟩ | ⟨hb, hn⟩ := hr.spelled
  · obtain ⟨-, b', hbase', hn'⟩ | ⟨hb', -⟩ := hr'.spelled
    · rw [hbase] at hbase'
      cases hbase'
      exact Option.some.inj (hn.symm.trans hn')
    · exact absurd (hbare hb h) hb'
  · obtain ⟨hb', -⟩ | ⟨-, hn'⟩ := hr'.spelled
    · exact absurd (hbare hb' h.symm) hb
    · rw [hn, hn', lower_replace, lower_replace, h]

theorem lower_movedHost (userInfo host name : Text) :
    toAsciiLowercase (movedHost userInfo host name) =
      movedHost userInfo (toAsciiLowercase host) (toAsciiLowercase name) := by
  rw [movedHost, movedHost, toAsciiLowercase_length]
  split
  · rw [lower_append, toAsciiLowercase, toAsciiLowercase, toAsciiLowercase, List.map_drop]
  · rfl

/-- A host with the suffix is put in its own place unless it is moved. -/
theorem movedHost_self_iff (hs : dhttpSuffix <:+ host) (userInfo : Text) :
    stripDot (movedHost userInfo host host) = host ↔
      ¬ (0 < strayLength userInfo ∧ strayLength userInfo ≤ host.length) := by
  have hlast : host.getLast? = some 't' := by
    obtain ⟨t, rfl⟩ := hs
    exact List.getLast?_append_of_ne_nil _ (by decide)
  rw [movedHost]
  split
  · rename_i hle
    by_cases hz : strayLength userInfo = 0
    · rw [hz, Nat.sub_zero, List.drop_length, List.append_nil]
      exact iff_of_true (stripDot_suffixed hs) fun h => Nat.lt_irrefl 0 h.1
    · have hne : host.drop (host.length - strayLength userInfo) ≠ [] := by
        rw [ne_eq, List.drop_eq_nil_iff]
        omega
      have hdot : (host ++ host.drop (host.length - strayLength userInfo)).getLast? ≠ some '.' := by
        rw [List.getLast?_append_of_ne_nil _ hne, List.getLast?_drop, if_neg (by omega), hlast]
        decide
      rw [stripDot_of_ne hdot]
      exact iff_of_false (fun he => hne (List.append_right_eq_self.1 he))
        fun h => h ⟨Nat.pos_of_ne_zero hz, hle⟩
  · rename_i hgt
    exact iff_of_true (stripDot_suffixed hs) fun h => hgt h.2

theorem overlaps_of_lower {a b : Authority H} (hu : a.userInfo = b.userInfo)
    (h : toAsciiLowercase a.host = toAsciiLowercase b.host) : Overlaps a ↔ Overlaps b := by
  have hlength : a.host.length = b.host.length := by
    rw [← toAsciiLowercase_length, h, toAsciiLowercase_length]
  rw [Overlaps, Overlaps, endsWithSuffix, endsWithSuffix, h, hu, hlength]

/-- A name with the suffix is routed like its dotted form unless it is moved. -/
theorem dotted_key_iff (hD : DnsNameRules isDnsName) {b : Authority H}
    (hh : SameHost host b.host) (hx : ¬ Expands host) (hn : isDnsName host = true)
    (hr : Replaces base b.host name) :
    toAsciiLowercase (stripDot host) =
        toAsciiLowercase (stripDot (movedHost b.userInfo b.host name)) ↔ ¬ Overlaps b := by
  have htilde : '~' ∉ b.host := by
    rw [← hh.mem_iff (.inr (by decide)) (by decide)]
    exact fun hm => hx (.inl hm)
  have hs : endsWithSuffix b.host = true := hr.expands.resolve_left htilde
  have hname : name = toAsciiLowercase b.host := by
    obtain ⟨hbare, -⟩ | ⟨-, he⟩ := hr.spelled
    · rw [hbare] at htilde
      exact absurd (List.mem_singleton_self _) htilde
    · rw [he, replace_of_not_mem _ htilde]
  have hlast := replaces_getLast hr
  have hleft : toAsciiLowercase (stripDot host) = toAsciiLowercase b.host := by
    rw [hh.strip_eq (stripDot_getLast hD hn) (by rwa [stripDot_of_ne hlast]), stripDot_of_ne hlast]
  have hright : toAsciiLowercase (stripDot (movedHost b.userInfo b.host name)) =
      stripDot (movedHost b.userInfo (toAsciiLowercase b.host) (toAsciiLowercase b.host)) := by
    rw [lower_stripDot, lower_movedHost, hname, toAsciiLowercase_idem]
  rw [hleft, hright, eq_comm, movedHost_self_iff (endsWithSuffix_iff.1 hs),
    toAsciiLowercase_length, Overlaps, hs]
  exact not_congr (and_iff_right rfl).symm

theorem not_overlaps {a : Authority H} (h : ¬ Expands a.host) : ¬ Overlaps a :=
  fun ho => h (.inr ho.1)

theorem expanded_key_iff (hD : DnsNameRules isDnsName) {a b a' b' : Authority H}
    (hu : a.userInfo = b.userInfo) (hh : SameHost a.host b.host)
    (ha : expandAuthorityWithBase base a = .ok a') (hb : expandAuthorityWithBase base b = .ok b')
    (hna : isDnsName a'.host = true) (hnb : isDnsName b'.host = true) :
    toAsciiLowercase (stripDot a'.host) = toAsciiLowercase (stripDot b'.host) ↔
      (Overlaps a ↔ Overlaps b) := by
  obtain ⟨-, ⟨hxa, hea⟩ | ⟨name, hra, hea⟩⟩ := expandAuthority_parts ha
  · rw [hea] at hna ⊢
    obtain ⟨-, ⟨hxb, heb⟩ | ⟨name', hrb, heb⟩⟩ := expandAuthority_parts hb
    · rw [heb] at hnb ⊢
      exact iff_of_true (hh.strip_eq (stripDot_getLast hD hna) (stripDot_getLast hD hnb))
        (iff_of_false (not_overlaps hxa) (not_overlaps hxb))
    · rw [heb, dotted_key_iff hD hh hxa hna hrb]
      exact (iff_false_left (not_overlaps hxa)).symm
  · obtain ⟨-, ⟨hxb, heb⟩ | ⟨name', hrb, heb⟩⟩ := expandAuthority_parts hb
    · rw [heb] at hnb ⊢
      rw [hea, eq_comm, dotted_key_iff hD hh.symm hxb hnb hra]
      exact (iff_false_right (not_overlaps hxb)).symm
    · have hlower := hh.lower_eq (replaces_getLast hra) (replaces_getLast hrb)
      rw [hea, heb, lower_stripDot, lower_stripDot, lower_movedHost, lower_movedHost, hlower, hu,
        replaces_unique hra hrb hlower]
      exact iff_of_true rfl (overlaps_of_lower hu hlower)

end Pairs

/-- What a key is made of. A DHTTP name is the whole key; another host has the port behind it,
where the port text has no second colon. -/
structure NormalKey (port host remote : Text) : Prop where
  routed : IsRoutedHost host
  undotted : host.getLast? ≠ some '.'
  chars : ∀ c ∈ remote, isNameChar c = true ∨ c = ':'
  dhttp : dhttpSuffix <:+ host → remote = host
  other : ¬ dhttpSuffix <:+ host → (PortKey port host remote ↔ ':' ∉ port.tail)

theorem IsRoutedHost.chars (h : IsRoutedHost host) (hc : c ∈ host) : isNameChar c = true := by
  rw [isNameChar, Bool.or_eq_true, beq_iff_eq]
  obtain rfl | ⟨label, hl, hcl⟩ : c = '.' ∨ ∃ label ∈ splitAll '.' host, c ∈ label := mem_pieces hc
  · exact .inr rfl
  · exact .inl ((h.labels label hl).2 c hcl)

theorem RawKey.normal (h : RawKey port host remote) (hr : IsRoutedHost host)
    (hl : host.getLast? ≠ some '.') : NormalKey port host remote := by
  refine ⟨hr, hl, fun c hc => ?_, h.dhttp_eq, h.portKey_iff⟩
  cases h with
  | dhttp | bare => exact .inl (hr.chars hc)
  | @numbered _ n =>
    obtain hc | hc := List.mem_append.1 hc
    · exact .inl (hr.chars hc)
    · obtain rfl | hd := List.mem_cons.1 hc
      · exact .inr rfl
      · left
        have hdigit := Nat.isDigit_of_mem_toDigits (b := 10) (by decide) (by decide) hd
        rw [isNameChar, isLabelChar_nat (.inr (isDigit_iff.1 hdigit)), Bool.true_or]

/-- Every key is in normal form as far as the port text goes, and two spellings of a URI have one
key exactly when both or none of them is moved. -/
theorem routing_key_exact {isDnsName : Text → Bool} (hD : DnsNameRules isDnsName) :
    (∀ base (uri uri' : Uri H) remote,
      resolveRequestUri isDnsName base uri = .ok (uri', remote) →
        ∃ a a', uri.authority = some a ∧ uri'.authority = some a' ∧
          NormalKey a.port (toAsciiLowercase (stripDot a'.host)) remote) ∧
    (∀ base (uri₁ uri₂ uri₁' uri₂' : Uri H) a₁ a₂ remote₁ remote₂,
      uri₁.authority = some a₁ → uri₂.authority = some a₂ →
        a₁.userInfo = a₂.userInfo → SameHost a₁.host a₂.host → a₁.port = a₂.port →
          resolveRequestUri isDnsName base uri₁ = .ok (uri₁', remote₁) →
            resolveRequestUri isDnsName base uri₂ = .ok (uri₂', remote₂) →
              (remote₁ = remote₂ ↔ (Overlaps a₁ ↔ Overlaps a₂))) := by
  constructor
  · intro base uri uri' remote h
    obtain ⟨a, a', ha, ha', -, hunder, hn, hkey⟩ := resolved_key hD h
    refine ⟨a, a', ha, ha', hkey.normal (isRoutedHost hD hn hunder) ?_⟩
    rw [ne_eq, getLast_lower]
    exact stripDot_getLast hD hn
  · intro base uri₁ uri₂ uri₁' uri₂' a₁ a₂ remote₁ remote₂ h₁ h₂ hu hh hp hr₁ hr₂
    obtain ⟨a, a', ha, -, hea, hunder, hna, hkey₁⟩ := resolved_key hD hr₁
    obtain ⟨b, b', hb, -, heb, hunder', hnb, hkey₂⟩ := resolved_key hD hr₂
    cases h₁.symm.trans ha
    cases h₂.symm.trans hb
    rw [hp] at hkey₁
    have hcolon {host : Text} (hr : IsRoutedHost host) : ':' ∉ host := by
      intro hm
      exact absurd (hr.chars hm) (by decide)
    rw [hkey₁.inj hkey₂ (hcolon (isRoutedHost hD hna hunder))
      (hcolon (isRoutedHost hD hnb hunder'))]
    exact expanded_key_iff hD hu hh hea heb hna hnb

/-- An instance of the rules without limits on lengths and places of hyphens. -/
def plainDnsName (host : Text) : Bool :=
  (splitAll '.' (stripDot host)).all (fun label =>
      label != [] && label.all fun c => c.isAlphanum || c == '-' || c == '_') &&
    (splitAll '.' (stripDot host)).getLast?.all fun label => !label.all Char.isDigit

theorem plainDnsName_rules : DnsNameRules plainDnsName where
  labels {host} h label hl := by
    rw [plainDnsName, Bool.and_eq_true, List.all_eq_true] at h
    have hlabel := h.1 label hl
    simp only [Bool.and_eq_true, bne_iff_ne, List.all_eq_true, Bool.or_eq_true, beq_iff_eq,
      or_assoc] at hlabel
    exact hlabel
  named {host} h label hl := by
    rw [plainDnsName, Bool.and_eq_true, hl] at h
    simpa using h.2

/-- The authority `B.example.:08080` is routed to `b.example:8080`. -/
theorem routing_key_exact_port : ∃ a a' : Authority plainCrate,
    (rootUri "B.example.:08080".toList rfl).authority = some a ∧
      (rootUri "B.example.:08080".toList rfl).authority = some a' ∧
      NormalKey a.port (toAsciiLowercase (stripDot a'.host)) "b.example:8080".toList :=
  (routing_key_exact plainDnsName_rules).1 none _ _ _ rfl

/-- The host of `u@@b.dhttp.net` is moved to `b.dhttp.nett`, that of `u@@b.dhttp.net.` stays. -/
theorem routing_key_moved : ¬ ∀ (uri₁ uri₂ uri₁' uri₂' : Uri plainCrate) a₁ a₂ remote₁ remote₂,
    uri₁.authority = some a₁ → uri₂.authority = some a₂ →
      a₁.userInfo = a₂.userInfo → SameHost a₁.host a₂.host → a₁.port = a₂.port →
        resolveRequestUri plainDnsName none uri₁ = .ok (uri₁', remote₁) →
          resolveRequestUri plainDnsName none uri₂ = .ok (uri₂', remote₂) →
            remote₁ = remote₂ := by
  intro h
  have h₁ : resolveRequestUri plainDnsName none (rootUri "u@@b.dhttp.net".toList rfl) =
      .ok (rootUri "u@b.dhttp.nett".toList rfl, "b.dhttp.nett".toList) := rfl
  have h₂ : resolveRequestUri plainDnsName none (rootUri "u@@b.dhttp.net.".toList rfl) =
      .ok (rootUri "u@@b.dhttp.net.".toList rfl, "b.dhttp.net".toList) := rfl
  have he := h (rootUri "u@@b.dhttp.net".toList rfl) (rootUri "u@@b.dhttp.net.".toList rfl)
    _ _ _ _ _ _ rfl rfl rfl (.inr (.inr rfl)) rfl h₁ h₂
  exact absurd he (by decide)

end Dhttp.Client
