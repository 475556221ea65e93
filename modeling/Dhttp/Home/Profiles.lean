import Dhttp.Home.Names

namespace Dhttp.Home
open Dhttp.Lib
set_option autoImplicit true

def wildcardMark : Text := "*.".toList

def normalizeProfileName (input : Text) : Option Text :=
  match stripPrefix wildcardMark input with
  | some rest => (normalizeName rest).map fun name => wildcardMark ++ name
  | none => normalizeName input

/-- A name in the file system, which need not be text. -/
inductive FileName where
  | text (s : Text)
  | raw (bytes : List UInt8)
  deriving DecidableEq

def FileName.toStr : FileName → Option Text
  | text s => some s
  | raw _ => none

/-- The components of a path. -/
abbrev Path := List FileName

/-- The last component, unless it is `..`. -/
def Path.fileName (path : Path) : Option FileName :=
  path.getLast?.filter (· ≠ .text "..".toList)

structure IdentityProfile where
  path : Path
  name : Text
  deriving DecidableEq

inductive IdentityProfileFromPathError where
  | missingFileName (path : Path)
  | nonUtf8FileName (path : Path)
  | invalidName (name : Text)

def IdentityProfile.tryFromPath (path : Path) :
    Except IdentityProfileFromPathError IdentityProfile :=
  match path.fileName with
  | none => .error (.missingFileName path)
  | some fileName =>
    match fileName.toStr with
    | none => .error (.nonUtf8FileName path)
    | some fileName =>
      match normalizeProfileName fileName with
      | none => .error (.invalidName fileName)
      | some name => .ok ⟨path, name⟩

/-- `InvalidName` is `none`; the suffix that is stripped is always there. -/
def joinIdentityName (home : Path) (name : Text) : Option Path := do
  let full ← normalizeProfileName name
  let directory ← stripSuffix dhttpSuffix full
  return home ++ [.text directory]

def identityProfile (home : Path) (name : Text) : Option IdentityProfile := do
  let path ← joinIdentityName home name
  let name ← normalizeProfileName name
  return ⟨path, name⟩

inductive MetadataError (E : Type) where
  | notFound
  | other (e : E)

inductive ResolveIdentityProfileError (E : Type) where
  | invalidName (name : Text)
  | exactNotFound (path : Path)
  | exactMetadata (path : Path) (source : E)
  | wildcardNotFound (path : Path)
  | wildcardMetadata (path : Path) (source : E)

variable {E : Type}

/-- `none` is a failed `expect`. -/
def resolveIdentityProfileExactly (metadata : Path → Except (MetadataError E) Unit) (home : Path)
    (name : Text) : Option (Except (ResolveIdentityProfileError E) IdentityProfile) :=
  match normalizeProfileName name with
  | none => some (.error (.invalidName name))
  | some canonical => do
    let path ← joinIdentityName home canonical
    match metadata path with
    | .ok () => some (.ok ⟨path, canonical⟩)
    | .error .notFound => some (.error (.exactNotFound path))
    | .error (.other e) => some (.error (.exactMetadata path e))

def resolveIdentityProfileWildcard (metadata : Path → Except (MetadataError E) Unit) (home : Path)
    (name : Text) : Option (Except (ResolveIdentityProfileError E) IdentityProfile) :=
  match normalizeProfileName name with
  | none => some (.error (.invalidName name))
  | some canonical => do
    let (_, rest) ← splitOnce '.' canonical
    let wildcardName := wildcardMark ++ rest
    let path ← joinIdentityName home wildcardName
    match metadata path with
    | .ok () => some (.ok ⟨path, wildcardName⟩)
    | .error .notFound => some (.error (.wildcardNotFound path))
    | .error (.other e) => some (.error (.wildcardMetadata path e))

inductive FileType where
  | dir
  | file
  | symlink
  | other
  deriving DecidableEq

/-- An entry of the home directory, with the type of its own entry `ssl`. -/
structure DirEntry (E : Type) where
  fileName : FileName
  fileType : Except E FileType
  sslType : Except E FileType

inductive DiscoverError (E : Type) where
  | io (e : E)
  | notADirectory

/-- The profile of an entry that is a directory. -/
def profileOfEntry (home : Path) (entry : DirEntry E) : Option IdentityProfile :=
  match IdentityProfile.tryFromPath (home ++ [entry.fileName]), entry.fileName.toStr with
  | .ok profile, some directoryName =>
    if normalizeProfileName directoryName = some profile.name ∧
        stripSuffix dhttpSuffix profile.name = some directoryName ∧
        entry.sslType.toOption = some .dir then some profile
    else none
  | _, _ => none

/-- The loop over the entries. -/
def discoverEntries (home : Path) :
    List (Except E (DirEntry E)) → Except (DiscoverError E) (List IdentityProfile)
  | [] => .ok []
  | entry :: rest => do
    let entry ← entry.mapError .io
    let fileType ← entry.fileType.mapError .io
    let profile := if fileType = .dir then profileOfEntry home entry else none
    let profiles ← discoverEntries home rest
    return profile.toList ++ profiles

def discoverIdentityProfiles (home : Path) (metadata : Except E FileType)
    (readDir : Except E (List (Except E (DirEntry E)))) :
    Except (DiscoverError E) (List IdentityProfile) := do
  let fileType ← metadata.mapError .io
  if fileType = .dir then
    let entries ← readDir.mapError .io
    let profiles ← discoverEntries home entries
    return profiles.mergeSort fun a b => decide (a.name ≤ b.name)
  else .error .notADirectory

section Names

theorem nameChars_of_valid {d : Text} (hv : isValidDnsName (d ++ dhttpSuffix) = true) :
    ∀ c ∈ d, isNameChar c = true :=
  fun _ hc => isValidDnsName_chars hv (List.mem_append_left _ hc)

/-- A stripped name is expanded to the name again, unless it has one more suffix. -/
theorem normalizeName_stripped {d : Text} (hv : isValidDnsName (d ++ dhttpSuffix) = true) :
    normalizeName d = some (d ++ dhttpSuffix) ↔ ¬ dhttpSuffix <:+ d := by
  have hchars := nameChars_of_valid hv
  have hlast : d.getLast? ≠ some '~' := by
    intro hl
    have hc := hchars '~' (List.mem_of_getLast? hl)
    cases hc
  rw [normalizeName, trim_of_visible fun c hc => isVisible_of_isNameChar (hchars c hc),
    toAsciiLowercase_of_lower fun c hc => toLower_of_isNameChar (hchars c hc), if_neg hlast]
  by_cases hs : dhttpSuffix <:+ d
  · rw [List.isSuffixOf_iff_suffix.2 hs]
    refine iff_of_false ?_ (fun h => h hs)
    intro h
    have he := congrArg List.length (Option.some.inj (Option.ite_none_right_eq_some.1 h).2)
    simp only [if_true, List.length_append] at he
    have hpos : dhttpSuffix.length = 10 := by decide
    omega
  · rw [Bool.eq_false_iff.2 fun h => hs (List.isSuffixOf_iff_suffix.1 h)]
    exact iff_of_true (if_pos hv) hs

theorem stripPrefix_wildcard {d : Text} (h : ∀ c ∈ d, isNameChar c = true) :
    stripPrefix wildcardMark d = none := by
  cases hs : stripPrefix wildcardMark d with
  | none => rfl
  | some rest =>
    have hc := h '*' (by
      rw [stripPrefix_eq_some.1 hs]
      exact List.mem_cons_self)
    cases hc

theorem normalizeProfileName_wildcard (s : Text) : normalizeProfileName (wildcardMark ++ s) =
    (normalizeName s).map fun name => wildcardMark ++ name := by
  rw [normalizeProfileName, stripPrefix_eq_some.2 rfl]

theorem normalizeProfileName_plain {s : Text} (h : ∀ c ∈ s, isNameChar c = true) :
    normalizeProfileName s = normalizeName s := by
  rw [normalizeProfileName, stripPrefix_wildcard h]

/-- What a normalised profile name is made of: `lead` is the mark of a wildcard or nothing. -/
structure IsProfileName (lead d name : Text) : Prop where
  mark : lead = [] ∨ lead = wildcardMark
  parts : name = lead ++ (d ++ dhttpSuffix)
  valid : isValidDnsName (d ++ dhttpSuffix) = true

theorem normalizeName_parts (h : normalizeName s = some name) :
    ∃ d, name = d ++ dhttpSuffix ∧ isValidDnsName (d ++ dhttpSuffix) = true := by
  obtain ⟨hv, d, rfl⟩ := normalizeName_some h
  exact ⟨d, rfl, hv⟩

theorem normalizeProfileName_parts (h : normalizeProfileName s = some name) :
    ∃ lead d, IsProfileName lead d name := by
  rw [normalizeProfileName] at h
  cases hs : stripPrefix wildcardMark s with
  | some rest =>
    rw [hs] at h
    obtain ⟨n, hn, rfl⟩ := Option.map_eq_some_iff.1 h
    obtain ⟨d, rfl, hv⟩ := normalizeName_parts hn
    exact ⟨_, d, .inr rfl, rfl, hv⟩
  | none =>
    rw [hs] at h
    obtain ⟨d, rfl, hv⟩ := normalizeName_parts h
    exact ⟨_, d, .inl rfl, rfl, hv⟩

namespace IsProfileName

variable {lead d name : Text} (h : IsProfileName lead d name)
include h

theorem normalize_lead {t : Text} (ht : ∀ c ∈ t, isNameChar c = true) :
    normalizeProfileName (lead ++ t) = (normalizeName t).map (lead ++ ·) := by
  obtain rfl | rfl := h.mark
  · rw [List.nil_append, normalizeProfileName_plain ht]
    exact (Option.map_id' ..).symm
  · exact normalizeProfileName_wildcard t

theorem normalize_name : normalizeProfileName name = some name := by
  rw [h.parts, h.normalize_lead fun c hc => isValidDnsName_chars h.valid hc,
    normalizeName_of_valid h.valid (List.suffix_append ..)]
  rfl

/-- The directory of a name is read as the name, unless the name has the suffix twice. -/
theorem normalize_directory :
    normalizeProfileName (lead ++ d) = some name ↔ ¬ dhttpSuffix <:+ d := by
  rw [h.normalize_lead (nameChars_of_valid h.valid), h.parts, Option.map_eq_some_iff,
    ← normalizeName_stripped h.valid]
  constructor
  · intro ⟨n, hn, he⟩
    rw [hn, List.append_cancel_left he]
  · intro hn
    exact ⟨_, hn, rfl⟩

theorem strip : stripSuffix dhttpSuffix name = some (lead ++ d) := by
  rw [stripSuffix_eq_some, h.parts, List.append_assoc]

theorem chars : ∀ c ∈ name, isVisible c = true ∧ c.toLower = c := by
  have hd : ∀ c ∈ d ++ dhttpSuffix, isVisible c = true ∧ c.toLower = c := by
    intro c hc
    have hn := isValidDnsName_chars h.valid hc
    exact ⟨isVisible_of_isNameChar hn, toLower_of_isNameChar hn⟩
  intro c hc
  rw [h.parts, List.mem_append] at hc
  obtain hc | hc := hc
  · obtain rfl | rfl := h.mark
    · cases hc
    · obtain rfl | hc := List.mem_cons.1 hc
      · decide
      · rw [List.mem_singleton.1 hc]
        decide
  · exact hd c hc

theorem directory_ne : lead ++ d ≠ "..".toList := by
  obtain rfl | rfl := h.mark
  · intro he
    have hv := h.valid
    rw [List.nil_append] at he
    rw [he] at hv
    exact absurd hv (by decide)
  · intro he
    cases he

end IsProfileName

/-- The name as it is normalised, after the mark of a wildcard. -/
def bareName (input : Text) : Text :=
  toAsciiLowercase (trim ((stripPrefix wildcardMark input).getD input))

/-- The normal form of the input has the suffix twice. -/
def DoublesSuffix (input : Text) : Prop :=
  dhttpSuffix ++ dhttpSuffix <:+ bareName input ∨ dhttpSuffix ++ ['~'] <:+ bareName input

theorem not_suffix_of_last {t : Text} {e : Char} (hl : t.getLast? ≠ some e) (s : Text) :
    ¬ s ++ [e] <:+ t := by
  intro ⟨front, he⟩
  apply hl
  rw [← he, ← List.append_assoc, List.getLast?_append]
  rfl

theorem normalizeName_doubles (h : normalizeName s = some (d ++ dhttpSuffix)) :
    dhttpSuffix <:+ d ↔ dhttpSuffix ++ dhttpSuffix <:+ toAsciiLowercase (trim s) ∨
      dhttpSuffix ++ ['~'] <:+ toAsciiLowercase (trim s) := by
  rw [normalizeName] at h
  have hn := Option.some.inj (Option.ite_none_right_eq_some.1 h).2
  generalize toAsciiLowercase (trim s) = t at hn ⊢
  have hmark (t : Text) : ¬ dhttpSuffix ++ ['~'] <:+ t ++ dhttpSuffix := by
    apply not_suffix_of_last
    rw [List.getLast?_append]
    exact fun h => by cases h
  by_cases hs : dhttpSuffix <:+ t
  · -- the input has the suffix already
    rw [List.isSuffixOf_iff_suffix.2 hs, if_pos rfl] at hn
    rw [hn, List.suffix_append_self_iff]
    exact (or_iff_left (hmark d)).symm
  · rw [Bool.eq_false_iff.2 fun h => hs (List.isSuffixOf_iff_suffix.1 h),
      if_neg Bool.false_ne_true] at hn
    have hd : ¬ dhttpSuffix ++ dhttpSuffix <:+ t :=
      fun h => hs ((List.suffix_append ..).trans h)
    rw [or_iff_right hd]
    by_cases hl : t.getLast? = some '~'
    · obtain ⟨p, rfl⟩ := List.getLast?_eq_some_iff.1 hl
      rw [if_pos hl, List.dropLast_concat] at hn
      rw [List.append_cancel_right hn, List.suffix_append_self_iff]
    · rw [if_neg hl] at hn
      rw [← List.append_cancel_right hn]
      exact iff_of_false hs (not_suffix_of_last hl _)

theorem normalizeProfileName_bare (h : normalizeProfileName input = some name)
    (hp : IsProfileName lead d name) :
    normalizeName ((stripPrefix wildcardMark input).getD input) = some (d ++ dhttpSuffix) := by
  have hd : '*' ∉ d ++ dhttpSuffix := not_mem_of_valid hp.valid (by decide)
  rw [normalizeProfileName, hp.parts] at h
  cases hs : stripPrefix wildcardMark input with
  | some rest =>
    rw [hs] at h
    obtain ⟨n, hn, he⟩ := Option.map_eq_some_iff.1 h
    obtain rfl | rfl := hp.mark
    · rw [List.nil_append] at he
      exact absurd (he ▸ List.mem_cons_self) hd
    · rw [← List.append_cancel_left he]
      exact hn
  | none =>
    rw [hs] at h
    obtain rfl | rfl := hp.mark
    · exact h
    · obtain ⟨e, he, hv⟩ := normalizeName_parts h
      rw [← he] at hv
      exact absurd List.mem_cons_self (not_mem_of_valid hv (by decide))

theorem doublesSuffix_iff (h : normalizeProfileName input = some name)
    (hp : IsProfileName lead d name) : DoublesSuffix input ↔ dhttpSuffix <:+ d :=
  (normalizeName_doubles (normalizeProfileName_bare h hp)).symm

end Names

section Directories

theorem joinIdentityName_eq (h : normalizeProfileName input = some name)
    (hp : IsProfileName lead d name) (home : Path) :
    joinIdentityName home input = some (home ++ [.text (lead ++ d)]) := by
  rw [joinIdentityName, h, Option.bind_eq_bind, Option.bind_some, hp.strip]
  rfl

theorem identityProfile_eq (h : normalizeProfileName input = some name)
    (hp : IsProfileName lead d name) (home : Path) :
    identityProfile home input = some ⟨home ++ [.text (lead ++ d)], name⟩ := by
  rw [identityProfile, joinIdentityName_eq h hp, h]
  rfl

theorem identityProfile_some (h : identityProfile home input = some profile) :
    ∃ lead d, normalizeProfileName input = some profile.name ∧
      IsProfileName lead d profile.name ∧ profile.path = home ++ [.text (lead ++ d)] := by
  cases hn : normalizeProfileName input with
  | none =>
    rw [identityProfile, hn, joinIdentityName, hn] at h
    cases h
  | some name =>
    obtain ⟨lead, d, hp⟩ := normalizeProfileName_parts hn
    rw [identityProfile_eq hn hp] at h
    cases h
    exact ⟨lead, d, rfl, hp, rfl⟩

theorem fileName_concat (home : Path) (h : dir ≠ "..".toList) :
    Path.fileName (home ++ [.text dir]) = some (.text dir) := by
  rw [Path.fileName, List.getLast?_concat]
  exact Option.filter_some_pos (decide_eq_true fun he => h (FileName.text.inj he))

/-- The profile that is read from the path of the profile has its name. -/
def ReadsBack (profile : IdentityProfile) : Prop :=
  ∃ p, IdentityProfile.tryFromPath profile.path = .ok p ∧ p.name = profile.name

theorem readsBack_concat (home : Path) (h : dir ≠ "..".toList) :
    ReadsBack ⟨home ++ [.text dir], name⟩ ↔ normalizeProfileName dir = some name := by
  rw [ReadsBack, IdentityProfile.tryFromPath, fileName_concat home h]
  dsimp only [FileName.toStr]
  cases hn : normalizeProfileName dir with
  | none =>
    constructor
    · intro ⟨p, hp, _⟩
      cases hp
    · intro he
      cases he
  | some n =>
    constructor
    · intro ⟨p, hp, hn⟩
      cases hp
      rw [← hn]
    · intro he
      cases he
      exact ⟨_, rfl, rfl⟩

theorem readsBack_iff (h : normalizeProfileName input = some name)
    (hp : IsProfileName lead d name) (home : Path) :
    ReadsBack ⟨home ++ [.text (lead ++ d)], name⟩ ↔ ¬ DoublesSuffix input := by
  rw [doublesSuffix_iff h hp, ← hp.normalize_directory]
  exact readsBack_concat home hp.directory_ne

/-- One directory for one name. -/
theorem directory_inj (hp : IsProfileName lead d name) (hp' : IsProfileName lead' d' name') :
    lead ++ d = lead' ++ d' ↔ name = name' := by
  constructor
  · intro h
    rw [hp.parts, hp'.parts, ← List.append_assoc, h, List.append_assoc]
  · intro h
    have hs := hp.strip
    rw [h, hp'.strip] at hs
    exact (Option.some.inj hs).symm

theorem resolveExactly_ok {metadata : Path → Except (MetadataError E) Unit}
    (h : resolveIdentityProfileExactly metadata home input = some (.ok profile)) :
    identityProfile home input = some profile := by
  cases hn : normalizeProfileName input with
  | none =>
    rw [resolveIdentityProfileExactly, hn] at h
    cases h
  | some name =>
    obtain ⟨lead, d, hp⟩ := normalizeProfileName_parts hn
    rw [identityProfile_eq hn hp]
    rw [resolveIdentityProfileExactly, hn] at h
    simp only [joinIdentityName_eq hp.normalize_name hp, Option.bind_eq_bind,
      Option.bind_some] at h
    split at h
    · exact congrArg some (Except.ok.inj (Option.some.inj h))
    · cases h
    · cases h

/-- What follows the first label of the normal form ends in the suffix, once. -/
def FallbackReads (input : Text) : Prop :=
  ∃ label rest, (normalizeProfileName input).bind (splitOnce '.') = some (label, rest) ∧
    dhttpSuffix <:+ rest ∧ ¬ dhttpSuffix ++ dhttpSuffix <:+ rest

/-- What the fallback returns, from the parts of the normal form. -/
theorem resolveWildcard_ok {metadata : Path → Except (MetadataError E) Unit}
    (h : resolveIdentityProfileWildcard metadata home input = some (.ok profile)) :
    ∃ name label rest, normalizeProfileName input = some name ∧
      splitOnce '.' name = some (label, rest) ∧ profile.name = wildcardMark ++ rest ∧
      joinIdentityName home profile.name = some profile.path := by
  cases hn : normalizeProfileName input with
  | none =>
    rw [resolveIdentityProfileWildcard, hn] at h
    cases h
  | some name =>
    rw [resolveIdentityProfileWildcard, hn] at h
    obtain ⟨⟨label, rest⟩, hs, h⟩ := Option.bind_eq_some_iff.1 h
    obtain ⟨path, hj, h⟩ := Option.bind_eq_some_iff.1 h
    split at h
    · cases h
      exact ⟨name, label, rest, rfl, hs, rfl, hj⟩
    · cases h
    · cases h

/-- The directory of the wildcard of `rest` is read as that wildcard when `rest` is a normal form
whose own directory is read back. -/
theorem normalizeName_rest {rest : Text} (hn : normalizeName rest = some (d ++ dhttpSuffix))
    (hc : ∀ c ∈ rest, isVisible c = true ∧ c.toLower = c) :
    normalizeName d = some rest ↔
      dhttpSuffix <:+ rest ∧ ¬ dhttpSuffix ++ dhttpSuffix <:+ rest := by
  have hv := (normalizeName_some hn).1
  have hl : toAsciiLowercase rest = rest := toAsciiLowercase_of_lower fun c h => (hc c h).2
  have heq (hs : dhttpSuffix <:+ rest) : d ++ dhttpSuffix = rest := by
    have he := normalizeName_suffixed (fun c h => (hc c h).1) (hl.symm ▸ hs) hn
    rw [he, hl]
  constructor
  · intro hd
    have hs := (normalizeName_some hd).2
    refine ⟨hs, ?_⟩
    rw [← heq hs, List.suffix_append_self_iff, ← normalizeName_stripped hv, heq hs]
    exact hd
  · intro h
    obtain ⟨hs, hns⟩ := h
    rw [← heq hs, List.suffix_append_self_iff] at hns
    rw [(normalizeName_stripped hv).2 hns, heq hs]

theorem fallback_readsBack {metadata : Path → Except (MetadataError E) Unit}
    (h : resolveIdentityProfileWildcard metadata home input = some (.ok profile)) :
    ReadsBack profile ↔ FallbackReads input := by
  obtain ⟨name, label, rest, hn, hs, he, hj⟩ := resolveWildcard_ok h
  obtain ⟨_, _, hp⟩ := normalizeProfileName_parts hn
  have hc : ∀ c ∈ rest, isVisible c = true ∧ c.toLower = c := by
    intro c hc
    apply hp.chars
    rw [(splitOnce_eq_some.1 hs).2]
    exact List.mem_append_right _ (List.mem_cons_of_mem _ hc)
  obtain ⟨path, found⟩ := profile
  dsimp only at he hj
  subst he
  cases hr : normalizeName rest with
  | none =>
    rw [joinIdentityName, normalizeProfileName_wildcard, hr] at hj
    cases hj
  | some n =>
    obtain ⟨d, rfl, hv⟩ := normalizeName_parts hr
    have hw : normalizeProfileName (wildcardMark ++ rest) =
        some (wildcardMark ++ (d ++ dhttpSuffix)) := by
      rw [normalizeProfileName_wildcard, hr]
      rfl
    have hpw : IsProfileName wildcardMark d (wildcardMark ++ (d ++ dhttpSuffix)) :=
      ⟨.inr rfl, rfl, hv⟩
    rw [joinIdentityName_eq hw hpw] at hj
    cases hj
    calc ReadsBack ⟨home ++ [FileName.text (wildcardMark ++ d)], wildcardMark ++ rest⟩
      _ ↔ normalizeProfileName (wildcardMark ++ d) = some (wildcardMark ++ rest) :=
        readsBack_concat home hpw.directory_ne
      _ ↔ normalizeName d = some rest := by
        rw [normalizeProfileName_wildcard, Option.map_eq_some_iff]
        constructor
        · intro ⟨n, hn, he⟩
          rw [hn, List.append_cancel_left he]
        · intro hd
          exact ⟨rest, hd, rfl⟩
      _ ↔ dhttpSuffix <:+ rest ∧ ¬ dhttpSuffix ++ dhttpSuffix <:+ rest :=
        normalizeName_rest hr hc
      _ ↔ FallbackReads input := by
        rw [FallbackReads, hn, Option.bind_some, hs]
        constructor
        · intro h
          exact ⟨label, rest, rfl, h⟩
        · intro ⟨_, _, he, h⟩
          cases he
          exact h

end Directories

section Discovery

theorem profileOfEntry_some {entry : DirEntry E} (h : profileOfEntry home entry = some profile) :
    ∃ dir, entry.fileName = .text dir ∧ normalizeProfileName dir = some profile.name ∧
      stripSuffix dhttpSuffix profile.name = some dir ∧ profile.path = home ++ [.text dir] := by
  rw [profileOfEntry] at h
  split at h
  · rename_i found dir hp hd
    obtain ⟨⟨hn, hs, _⟩, hf⟩ := Option.ite_none_right_eq_some.1 h
    cases hf
    cases hfile : entry.fileName with
    | raw bytes =>
      rw [hfile] at hd
      cases hd
    | text s =>
      rw [hfile] at hd hp
      cases hd
      refine ⟨_, rfl, hn, hs, ?_⟩
      rw [IdentityProfile.tryFromPath] at hp
      split at hp
      · cases hp
      · split at hp
        · cases hp
        · split at hp
          · cases hp
          · cases hp
            rfl
  · cases h

theorem profileOfEntry_text {entry : DirEntry E} (hf : entry.fileName = .text dir)
    (hd : dir ≠ "..".toList) (hn : normalizeProfileName dir = some name)
    (hs : stripSuffix dhttpSuffix name = some dir) (hssl : entry.sslType = .ok .dir) :
    profileOfEntry home entry = some ⟨home ++ [.text dir], name⟩ := by
  rw [profileOfEntry, hf, IdentityProfile.tryFromPath, fileName_concat home hd]
  simp only [FileName.toStr, hn]
  exact if_pos ⟨trivial, hs, by rw [hssl]; rfl⟩

theorem discoverEntries_cons {entry : Except E (DirEntry E)}
    (h : discoverEntries home (entry :: rest) = .ok profiles) :
    ∃ e fileType others, entry = .ok e ∧ e.fileType = .ok fileType ∧
      discoverEntries home rest = .ok others ∧
      profiles = (if fileType = .dir then profileOfEntry home e else none).toList ++ others := by
  rw [discoverEntries] at h
  cases entry with
  | error e => cases h
  | ok entry =>
    cases hf : entry.fileType with
    | error e =>
      simp only [Except.mapError, bind, Except.bind, hf] at h
      cases h
    | ok fileType =>
      simp only [Except.mapError, bind, Except.bind, hf] at h
      cases hr : discoverEntries home rest with
      | error e =>
        rw [hr] at h
        cases h
      | ok others =>
        rw [hr] at h
        cases h
        exact ⟨entry, fileType, others, rfl, hf, rfl, rfl⟩

theorem mem_discoverEntries {entries : List (Except E (DirEntry E))}
    (h : discoverEntries home entries = .ok profiles) :
    profile ∈ profiles ↔ ∃ entry, .ok entry ∈ entries ∧ entry.fileType = .ok .dir ∧
      profileOfEntry home entry = some profile := by
  induction entries generalizing profiles with
  | nil =>
    cases h
    constructor
    · intro hm
      cases hm
    · intro ⟨_, hm, _⟩
      cases hm
  | cons entry rest ih =>
    obtain ⟨e, fileType, others, rfl, hf, hr, rfl⟩ := discoverEntries_cons h
    rw [List.mem_append, ih hr, Option.mem_toList, Option.ite_none_right_eq_some]
    constructor
    · intro hm
      obtain ⟨rfl, hp⟩ | ⟨entry, hm, hd⟩ := hm
      · exact ⟨e, List.mem_cons_self, hf, hp⟩
      · exact ⟨entry, List.mem_cons_of_mem _ hm, hd⟩
    · intro ⟨entry, hm, hd, hp⟩
      obtain he | hm := List.mem_cons.1 hm
      · cases he
        rw [hf] at hd
        cases hd
        exact .inl ⟨rfl, hp⟩
      · exact .inr ⟨entry, hm, hd, hp⟩

theorem mem_discover {metadata : Except E FileType}
    {readDir : Except E (List (Except E (DirEntry E)))}
    (h : discoverIdentityProfiles home metadata readDir = .ok profiles) :
    ∃ entries, metadata = .ok .dir ∧ readDir = .ok entries ∧
      ∀ profile, profile ∈ profiles ↔ ∃ entry, .ok entry ∈ entries ∧ entry.fileType = .ok .dir ∧
        profileOfEntry home entry = some profile := by
  rw [discoverIdentityProfiles] at h
  cases metadata with
  | error e => cases h
  | ok fileType =>
    cases fileType with
    | dir =>
      cases readDir with
      | error e => cases h
      | ok entries =>
        simp only [Except.mapError, bind, Except.bind, if_true] at h
        cases hd : discoverEntries home entries with
        | error e =>
          rw [hd] at h
          cases h
        | ok found =>
          rw [hd] at h
          cases h
          refine ⟨entries, rfl, rfl, fun profile => ?_⟩
          rw [List.mem_mergeSort]
          exact mem_discoverEntries hd
    | file => cases h
    | symlink => cases h
    | other => cases h

/-- The directory of a profile with an `ssl` directory in it is found as the profile, unless its
name has the suffix twice. -/
theorem found_iff {metadata : Except E FileType}
    {readDir : Except E (List (Except E (DirEntry E)))} {entry : DirEntry E}
    (hi : identityProfile home input = some profile)
    (h : discoverIdentityProfiles home metadata readDir = .ok profiles)
    (hr : readDir = .ok entries) (hm : .ok entry ∈ entries) (hf : entry.fileType = .ok .dir)
    (hssl : entry.sslType = .ok .dir) (hpath : home ++ [entry.fileName] = profile.path) :
    profile ∈ profiles ↔ ¬ DoublesSuffix input := by
  obtain ⟨lead, d, hn, hp, hd⟩ := identityProfile_some hi
  obtain ⟨entries', _, hr', hmem⟩ := mem_discover h
  rw [hr] at hr'
  cases hr'
  rw [doublesSuffix_iff hn hp, ← hp.normalize_directory, hmem]
  obtain ⟨path, name⟩ := profile
  dsimp only at hn hp hd hpath ⊢
  subst hd
  constructor
  · intro ⟨found, _, _, he⟩
    obtain ⟨dir, _, hdir, hs, _⟩ := profileOfEntry_some he
    rw [hp.strip] at hs
    cases hs
    exact hdir
  · intro hdir
    have hfile : entry.fileName = .text (lead ++ d) :=
      List.singleton_inj.1 (List.append_cancel_left hpath)
    exact ⟨entry, hm, hf, profileOfEntry_text hfile hp.directory_ne hdir hp.strip hssl⟩

end Discovery

/-- Names and directories of profiles correspond where the normal form does not have the suffix
twice, and the one of a fallback where its name is a normal form, too. -/
theorem profile_directories_iff (hi : identityProfile home input = some profile) :
    (ReadsBack profile ↔ ¬ DoublesSuffix input) ∧
    (∀ (metadata : Path → Except (MetadataError E) Unit) (found : IdentityProfile),
      resolveIdentityProfileExactly metadata home input = some (.ok found) →
        (ReadsBack found ↔ ¬ DoublesSuffix input)) ∧
    (∀ (metadata : Path → Except (MetadataError E) Unit) (found : IdentityProfile),
      resolveIdentityProfileWildcard metadata home input = some (.ok found) →
        (ReadsBack found ↔ FallbackReads input)) ∧
    (∀ (other : Text) (profile' : IdentityProfile), identityProfile home other = some profile' →
      (profile.path = profile'.path ↔ normalizeProfileName input = normalizeProfileName other)) ∧
    (∀ (metadata : Except E FileType) (entries : List (Except E (DirEntry E)))
      (profiles : List IdentityProfile) (entry : DirEntry E),
      discoverIdentityProfiles home metadata (.ok entries) = .ok profiles →
      .ok entry ∈ entries → home ++ [entry.fileName] = profile.path →
      entry.fileType = .ok .dir → entry.sslType = .ok .dir →
        (profile ∈ profiles ↔ ¬ DoublesSuffix input)) := by
  obtain ⟨lead, d, hn, hp, hd⟩ := identityProfile_some hi
  have hread : ReadsBack profile ↔ ¬ DoublesSuffix input := by
    have h := readsBack_iff hn hp home
    rw [← hd] at h
    exact h
  refine ⟨hread, ?_, ?_, ?_, ?_⟩
  · intro metadata found h
    have he := resolveExactly_ok h
    rw [hi] at he
    cases he
    exact hread
  · intro metadata found h
    exact fallback_readsBack h
  · intro other profile' ho
    obtain ⟨lead', d', hn', hp', hd'⟩ := identityProfile_some ho
    rw [hd, hd', hn, hn', List.append_cancel_left_eq, List.singleton_inj, FileName.text.injEq,
      directory_inj hp hp', Option.some.injEq]
  · intro metadata entries profiles entry h hm hpath hf hssl
    exact found_iff hi h rfl hm hf hssl hpath

theorem profile_directories_iff_alice :
    let profile : IdentityProfile := ⟨[.text "alice".toList], "alice.dhttp.net".toList⟩
    identityProfile [] "Alice~".toList = some profile ∧
      (ReadsBack profile ↔ ¬ DoublesSuffix "Alice~".toList) := by
  have hi : identityProfile [] "Alice~".toList =
      some ⟨[.text "alice".toList], "alice.dhttp.net".toList⟩ := by rfl
  exact ⟨hi, (profile_directories_iff (E := Unit) hi).1⟩

/-- An explicit shorthand of a full name, and the fallback of a name of one label. -/
theorem profiles_not_read_back :
    let profile : IdentityProfile :=
      ⟨[.text "a.dhttp.net".toList], "a.dhttp.net.dhttp.net".toList⟩
    let fallback : IdentityProfile := ⟨[.text "*.dhttp.net".toList], "*.dhttp.net".toList⟩
    identityProfile [] "a.dhttp.net~".toList = some profile ∧ ¬ ReadsBack profile ∧
      discoverIdentityProfiles (E := Unit) [] (.ok .dir)
        (.ok [.ok ⟨.text "a.dhttp.net".toList, .ok .dir, .ok .dir⟩]) = .ok [] ∧
      resolveIdentityProfileWildcard (E := Unit) (fun _ => .ok ()) [] "alice".toList =
        some (.ok fallback) ∧ ¬ ReadsBack fallback := by
  refine ⟨by rfl, ?_, ?_, by rfl, ?_⟩
  · intro ⟨p, hp, hn⟩
    cases hp
    cases hn
  · have he : discoverEntries (E := Unit) []
        [.ok ⟨.text "a.dhttp.net".toList, .ok .dir, .ok .dir⟩] = .ok [] := by rfl
    simp only [discoverIdentityProfiles, Except.mapError, bind, Except.bind, he, if_true,
      List.mergeSort_nil]
    rfl
  · intro ⟨p, hp, hn⟩
    cases hp
    cases hn

end Dhttp.Home
