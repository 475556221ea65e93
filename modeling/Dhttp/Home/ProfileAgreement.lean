import Dhttp.Home.ProfileViews
import Dhttp.Lib.Fallible

namespace Dhttp.Home
open Dhttp.Lib
set_option autoImplicit true

section Names
variable {E : Type} {home : Path}

theorem normalizeProfileName_dots : normalizeProfileName "..".toList = none := by decide

theorem toOption_some {result : Except E A} : result.toOption = some a ↔ result = .ok a := by
  cases result with
  | error e => exact iff_of_false nofun nofun
  | ok b => exact ⟨fun h => congrArg _ (Option.some.inj h), fun h => congrArg _ (Except.ok.inj h)⟩

theorem profileName_some {entry : DirEntry E} : entry.profileName = some name ↔
    ∃ dir, entry.fileName = .text dir ∧ normalizeProfileName dir = some name ∧
      stripSuffix dhttpSuffix name = some dir ∧ entry.sslType = .ok .dir := by
  rw [DirEntry.profileName]
  constructor
  · intro h
    obtain ⟨dir, hf, h⟩ := Option.bind_eq_some_iff.1 h
    obtain ⟨found, hn, h⟩ := Option.bind_eq_some_iff.1 h
    obtain ⟨⟨hs, hssl⟩, he⟩ := Option.ite_none_right_eq_some.1 h
    cases he
    refine ⟨dir, ?_, hn, hs, toOption_some.1 hssl⟩
    cases hfile : entry.fileName with
    | raw bytes =>
      rw [hfile] at hf
      cases hf
    | text s =>
      rw [hfile] at hf
      cases hf
      rfl
  · intro ⟨dir, hf, hn, hs, hssl⟩
    rw [hf]
    simp only [FileName.toStr, Option.bind_eq_bind, Option.bind_some, hn]
    exact if_pos ⟨hs, toOption_some.2 hssl⟩

/-- The two loops ask the same of a directory. -/
theorem profileOfEntry_eq (home : Path) (entry : DirEntry E) : profileOfEntry home entry =
    entry.profileName.map fun name => ⟨home ++ [entry.fileName], name⟩ := by
  apply Option.ext
  intro profile
  rw [Option.map_eq_some_iff]
  constructor
  · intro h
    obtain ⟨dir, hf, hn, hs, hpath⟩ := profileOfEntry_some h
    have hssl : entry.sslType = .ok .dir := by
      rw [profileOfEntry] at h
      split at h
      · exact toOption_some.1 (Option.ite_none_right_eq_some.1 h).1.2.2
      · cases h
    refine ⟨profile.name, profileName_some.2 ⟨dir, hf, hn, hs, hssl⟩, ?_⟩
    rw [hf, ← hpath]
  · rintro ⟨name, hname, he⟩
    obtain ⟨dir, hf, hn, hs, hssl⟩ := profileName_some.1 hname
    have hd : dir ≠ "..".toList := by
      intro he
      rw [he, normalizeProfileName_dots] at hn
      cases hn
    rw [profileOfEntry_text hf hd hn hs hssl, ← he, hf]

/-- Discovery collects what the stream of names gives, up to its first error. -/
theorem discoverEntries_ok {entries : List (Except E (DirEntry E))}
    (h : discoverEntries home entries = .ok profiles) :
    entries.filterMap (nameOfEntry home) = profiles.map fun profile => .ok profile.name := by
  induction entries generalizing profiles with
  | nil =>
    cases h
    rfl
  | cons entry rest ih =>
    obtain ⟨e, fileType, others, rfl, hf, hr, rfl⟩ := discoverEntries_cons h
    have hhead : nameOfEntry home (.ok e) = if fileType = .dir then e.profileName.map .ok
        else none := by
      rw [nameOfEntry, hf]
    rw [profileOfEntry_eq, List.filterMap_cons, hhead, List.map_append, ih hr]
    by_cases hd : fileType = .dir
    · rw [if_pos hd, if_pos hd]
      cases e.profileName <;> rfl
    · rw [if_neg hd, if_neg hd]
      rfl

/-- The first error in a list of results, all before it being fine. -/
def FirstError {E A : Type} (items : List (Except E A)) (error : E) : Prop :=
  ∃ before after, items = before ++ .error error :: after ∧ ∀ item ∈ before, ∃ a, item = .ok a

theorem discoverEntries_error {entries : List (Except E (DirEntry E))}
    (h : discoverEntries home entries = .error source) :
    ∃ error, FirstError (entries.filterMap (nameOfEntry home)) error ∧ error.source = source := by
  induction entries with
  | nil => cases h
  | cons entry rest ih =>
    rw [discoverEntries] at h
    cases entry with
    | error e =>
      cases h
      exact ⟨.readDir home (.io e), ⟨[], _, rfl, List.forall_mem_nil _⟩, rfl⟩
    | ok entry =>
      cases hf : entry.fileType with
      | error e =>
        simp only [Except.mapError, bind, Except.bind, hf] at h
        cases h
        refine ⟨.readFty (home ++ [entry.fileName]) (.io e),
          ⟨[], rest.filterMap (nameOfEntry home), ?_, List.forall_mem_nil _⟩, rfl⟩
        rw [List.filterMap_cons, nameOfEntry, hf]
        rfl
      | ok fileType =>
        simp only [Except.mapError, bind, Except.bind, hf] at h
        cases hr : discoverEntries home rest with
        | ok others =>
          rw [hr] at h
          cases h
        | error e =>
          rw [hr] at h
          cases h
          obtain ⟨error, ⟨before, after, hitems, hbefore⟩, hsource⟩ := ih hr
          refine ⟨error, ⟨(nameOfEntry home (.ok entry)).toList ++ before, after, ?_, ?_⟩, hsource⟩
          · rw [List.filterMap_cons, hitems]
            cases nameOfEntry home (.ok entry) <;> rfl
          · intro item hm
            obtain hm | hm := List.mem_append.1 hm
            · rw [nameOfEntry, hf] at hm
              obtain ⟨_, hname⟩ := Option.ite_none_right_eq_some.1 (Option.mem_toList.1 hm)
              obtain ⟨name, _, he⟩ := Option.map_eq_some_iff.1 hname
              exact ⟨name, he.symm⟩
            · exact hbefore item hm

end Names

section Discovery
variable {E : Type} {home : Path}

theorem discoverEntries_entry {entries : List (Except E (DirEntry E))}
    (h : discoverEntries home entries = .ok profiles) (hm : entry ∈ entries) :
    ∃ e fileType, entry = .ok e ∧ e.fileType = .ok fileType := by
  induction entries generalizing profiles with
  | nil => cases hm
  | cons first rest ih =>
    obtain ⟨e, fileType, others, rfl, hf, hr, _⟩ := discoverEntries_cons h
    obtain rfl | hm := List.mem_cons.1 hm
    · exact ⟨e, fileType, rfl, hf⟩
    · exact ih hr hm

/-- Directories of different names give profiles of different names. -/
theorem discoverEntries_nodup {entries : List (Except E (DirEntry E))}
    (h : discoverEntries home entries = .ok profiles)
    (hd : (entries.filterMap fun entry => entry.toOption.map (·.fileName)).Nodup) :
    (profiles.map (·.name)).Nodup := by
  induction entries generalizing profiles with
  | nil =>
    cases h
    exact List.nodup_nil
  | cons entry rest ih =>
    obtain ⟨e, fileType, others, rfl, hf, hr, rfl⟩ := discoverEntries_cons h
    have hnodup := List.nodup_cons.1 hd
    have hothers := ih hr hnodup.2
    cases hp : (if fileType = .dir then profileOfEntry home e else none) with
    | none => exact hothers
    | some profile =>
      rw [Option.toList_some, List.singleton_append, List.map_cons, List.nodup_cons]
      refine ⟨?_, hothers⟩
      intro hm
      obtain ⟨profile', hm, hname⟩ := List.mem_map.1 hm
      obtain ⟨e', he', _, hp'⟩ := (mem_discoverEntries hr).1 hm
      obtain ⟨dir, hfile, _, hs, _⟩ :=
        profileOfEntry_some (Option.ite_none_right_eq_some.1 hp).2
      obtain ⟨dir', hfile', _, hs', _⟩ := profileOfEntry_some hp'
      rw [hname, hs] at hs'
      cases hs'
      apply hnodup.1
      rw [List.mem_filterMap]
      exact ⟨_, he', congrArg some (hfile'.trans hfile.symm)⟩

theorem nameLe_trans (p q r : IdentityProfile) (hpq : decide (p.name ≤ q.name) = true)
    (hqr : decide (q.name ≤ r.name) = true) : decide (p.name ≤ r.name) = true :=
  decide_eq_true (le_trans (of_decide_eq_true hpq) (of_decide_eq_true hqr))

theorem nameLe_total (p q : IdentityProfile) :
    (decide (p.name ≤ q.name) || decide (q.name ≤ p.name)) = true := by
  rw [Bool.or_eq_true, decide_eq_true_iff, decide_eq_true_iff]
  exact le_total p.name q.name

theorem discover_names {metadata : Except E FileType}
    {readDir : Except E (List (Except E (DirEntry E)))}
    (h : discoverIdentityProfiles home metadata readDir = .ok profiles) :
    (identityProfileNames home metadata readDir).Perm
        (profiles.map fun profile => .ok profile.name) ∧
      profiles.Pairwise (fun p q => p.name ≤ q.name) ∧
      ∃ entries found, readDir = .ok entries ∧ discoverEntries home entries = .ok found ∧
        profiles.Perm found := by
  rw [discoverIdentityProfiles] at h
  cases metadata with
  | error e => cases h
  | ok fileType =>
    cases fileType with
    | dir =>
      cases readDir with
      | error e => cases h
      | ok entries =>
        simp only [Except.mapError, bind, Except.bind, if_true] at h
        cases hd : discoverEntries home entries with
        | error e =>
          rw [hd] at h
          cases h
        | ok found =>
          rw [hd] at h
          cases h
          have hperm := List.mergeSort_perm found fun a b => decide (a.name ≤ b.name)
          refine ⟨?_, ?_, entries, found, rfl, hd, hperm⟩
          · rw [identityProfileNames, if_pos rfl, discoverEntries_ok hd]
            exact (hperm.map _).symm
          · exact (List.pairwise_mergeSort nameLe_trans nameLe_total found).imp of_decide_eq_true
    | file => cases h
    | symlink => cases h
    | other => cases h

theorem firstError_singleton (error : E) : FirstError [(.error error : Except E A)] error :=
  ⟨[], [], rfl, nofun⟩

theorem discover_error {metadata : Except E FileType}
    {readDir : Except E (List (Except E (DirEntry E)))}
    (h : discoverIdentityProfiles home metadata readDir = .error source) :
    ∃ error, FirstError (identityProfileNames home metadata readDir) error ∧
      error.source = source := by
  rw [discoverIdentityProfiles] at h
  cases metadata with
  | error e =>
    cases h
    exact ⟨_, firstError_singleton _, rfl⟩
  | ok fileType =>
    by_cases hf : fileType = .dir
    · simp only [identityProfileNames, if_pos hf]
      cases readDir with
      | error e =>
        simp only [Except.mapError, bind, Except.bind, if_pos hf] at h
        cases h
        exact ⟨_, firstError_singleton _, rfl⟩
      | ok entries =>
        simp only [Except.mapError, bind, Except.bind, if_pos hf] at h
        cases hd : discoverEntries home entries with
        | error e =>
          rw [hd] at h
          cases h
          exact discoverEntries_error hd
        | ok found =>
          rw [hd] at h
          cases h
    · simp only [Except.mapError, bind, Except.bind, if_neg hf] at h
      cases h
      simp only [identityProfileNames, if_neg hf]
      exact ⟨_, firstError_singleton _, rfl⟩

end Discovery

section Views
variable {E : Type} {view : FileView E} {home : Path} {isDhttpName : Text → Bool}

/-- A directory of the home that is named as the profile, with a directory `ssl` in it, and no
link is followed on the way to them. -/
structure IsProfileDir (view : FileView E) (home : Path) (profile : IdentityProfile) : Prop where
  named : ∃ dir, profile.path = home ++ [.text dir] ∧
    normalizeProfileName dir = some profile.name ∧
    stripSuffix dhttpSuffix profile.name = some dir
  dir : view.symlinkMetadata profile.path = .ok .dir
  ssl : view.symlinkMetadata profile.sslDir = .ok .dir

/-- The names that are listed in the home. -/
def Listed (view : FileView E) (home : Path) (fileName : FileName) : Prop :=
  ∃ listed fileType, view.readDir home = .ok listed ∧ .ok (fileName, fileType) ∈ listed

theorem dirEntries_ok (h : view.dirEntries home = .ok entries) :
    ∃ listed, view.readDir home = .ok listed ∧
      entries = listed.map fun entry => entry.map (view.dirEntry home) := by
  rw [FileView.dirEntries] at h
  cases hr : view.readDir home with
  | error e =>
    rw [hr] at h
    cases h
  | ok listed =>
    rw [hr] at h
    cases h
    exact ⟨listed, rfl, rfl⟩

theorem mem_dirEntries {listed : List (Except (MetadataError E)
    (FileName × Except (MetadataError E) FileType))} :
    .ok entry ∈ listed.map (fun entry => entry.map (view.dirEntry home)) ↔
      ∃ item, .ok item ∈ listed ∧ entry = view.dirEntry home item := by
  rw [List.mem_map]
  constructor
  · intro ⟨item, hm, he⟩
    cases item with
    | error e => cases he
    | ok item =>
      cases he
      exact ⟨item, hm, rfl⟩
  · intro ⟨item, hm, he⟩
    exact ⟨.ok item, hm, congrArg Except.ok he.symm⟩

/-- Discovery finds the directories of profiles, and nothing else. -/
theorem mem_discovered (h : view.discoverIdentityProfiles home = .ok profiles) :
    profile ∈ profiles ↔
      (∃ fileName, Listed view home fileName ∧ profile.path = home ++ [fileName]) ∧
        IsProfileDir view home profile := by
  obtain ⟨_, _, entries, found, hr, hd, hperm⟩ := discover_names h
  obtain ⟨listed, hlisted, rfl⟩ := dirEntries_ok hr
  rw [hperm.mem_iff, mem_discoverEntries hd]
  constructor
  · intro ⟨entry, hm, hf, hp⟩
    obtain ⟨⟨fileName, fileType⟩, hmem, rfl⟩ := mem_dirEntries.1 hm
    rw [profileOfEntry_eq] at hp
    obtain ⟨name, hname, rfl⟩ := Option.map_eq_some_iff.1 hp
    obtain ⟨dir, hfile, hn, hs, hssl⟩ := profileName_some.1 hname
    cases hf
    cases hfile
    refine ⟨⟨_, ⟨listed, _, hlisted, hmem⟩, rfl⟩, ⟨dir, rfl, hn, hs⟩, ?_, hssl⟩
    exact view.listed home listed _ _ hlisted hmem
  · intro ⟨⟨fileName, ⟨listed', fileType, hlisted', hmem⟩, hpath⟩, hp⟩
    obtain ⟨dir, hdir, hn, hs⟩ := hp.named
    rw [hlisted] at hlisted'
    cases hlisted'
    have hm : .ok (view.dirEntry home (fileName, fileType)) ∈
        listed.map fun entry => entry.map (view.dirEntry home) := mem_dirEntries.2 ⟨_, hmem, rfl⟩
    obtain ⟨e, t, he, ht⟩ := discoverEntries_entry hd hm
    cases he
    have hfile : fileName = .text dir := by
      rw [hdir] at hpath
      exact (List.singleton_inj.1 (List.append_cancel_left hpath)).symm
    have htype : t = .dir := by
      have hl := view.listed home listed fileName t hlisted (by rw [← ht]; exact hmem)
      rw [← hpath, hp.dir] at hl
      exact (Except.ok.inj hl).symm
    refine ⟨_, hm, by rw [ht, htype], ?_⟩
    rw [profileOfEntry_eq, Option.map_eq_some_iff]
    refine ⟨profile.name, profileName_some.2 ⟨dir, hfile, hn, hs, ?_⟩, ?_⟩
    · have hssl := hp.ssl
      rw [IdentityProfile.sslDir, hpath] at hssl
      exact hssl
    · change IdentityProfile.mk (home ++ [fileName]) profile.name = profile
      rw [← hpath]

/-- The directory of a name is where its exact search looks. -/
theorem exactPath (hn : normalizeProfileName dir = some name)
    (hs : stripSuffix dhttpSuffix name = some found) (home : Path) :
    normalizeProfileName name = some name ∧
      joinIdentityName home name = some (home ++ [.text found]) := by
  obtain ⟨lead, d, hp⟩ := normalizeProfileName_parts hn
  rw [hp.strip] at hs
  cases hs
  exact ⟨hp.normalize_name, joinIdentityName_eq hp.normalize_name hp home⟩

theorem resolve_canonical (hn : normalizeProfileName dir = some name)
    (hs : stripSuffix dhttpSuffix name = some found)
    (hm : view.metadata (home ++ [.text found]) = .ok fileType) :
    resolveIdentityProfile view home name = some (.ok ⟨home ++ [.text found], name⟩) := by
  obtain ⟨hname, hjoin⟩ := exactPath hn hs home
  have hexact : resolveIdentityProfileExactly view.inspect home name =
      some (.ok ⟨home ++ [.text found], name⟩) := by
    rw [resolveIdentityProfileExactly, hname]
    simp only [hjoin, Option.bind_eq_bind, Option.bind_some, FileView.inspect, hm, Except.map]
  rw [resolveIdentityProfile, hexact]
  rfl

/-- What a search finds is at the directory of its name. -/
theorem resolve_path (h : resolveIdentityProfile view home input = some (.ok profile)) :
    joinIdentityName home profile.name = some profile.path := by
  obtain ⟨exact, he, h⟩ := Option.bind_eq_some_iff.1 h
  cases exact with
  | ok found =>
    cases h
    have hprofile := resolveExactly_ok he
    obtain ⟨lead, d, hn, hp, hpath⟩ := identityProfile_some hprofile
    rw [joinIdentityName_eq hp.normalize_name hp, hpath]
  | error error =>
    cases error with
    | exactNotFound path =>
      obtain ⟨wildcard, hw, h⟩ := Option.bind_eq_some_iff.1 h
      cases wildcard with
      | ok found =>
        cases h
        obtain ⟨_, _, _, _, _, _, hj⟩ := resolveWildcard_ok hw
        exact hj
      | error error => cases error <;> cases h
    | invalidName name | exactMetadata path source | wildcardNotFound path
      | wildcardMetadata path source => cases h

theorem tryFromPath_ok (h : IdentityProfile.tryFromPath path = .ok profile) :
    profile.path = path ∧ ∃ dir, path.fileName = some (.text dir) ∧
      normalizeProfileName dir = some profile.name := by
  rw [IdentityProfile.tryFromPath] at h
  cases hf : path.fileName with
  | none =>
    rw [hf] at h
    cases h
  | some fileName =>
    cases fileName with
    | raw bytes =>
      rw [hf] at h
      cases h
    | text dir =>
      rw [hf] at h
      dsimp only [FileName.toStr] at h
      cases hn : normalizeProfileName dir with
      | none =>
        rw [hn] at h
        cases h
      | some name =>
        rw [hn] at h
        cases h
        exact ⟨rfl, dir, rfl, hn⟩

theorem tryFromPath_dir (home : Path) (hn : normalizeProfileName dir = some name) :
    IdentityProfile.tryFromPath (home ++ [.text dir]) = .ok ⟨home ++ [.text dir], name⟩ := by
  have hd : dir ≠ "..".toList := by
    intro he
    rw [he, normalizeProfileName_dots] at hn
    cases hn
  rw [IdentityProfile.tryFromPath, fileName_concat home hd]
  simp only [FileName.toStr, hn]

theorem checkSslDirectory_ok (h : checkSslDirectory view profile = .ok found) :
    found = profile ∧ ∃ fileType, view.symlinkMetadata profile.sslDir = .ok fileType := by
  rw [checkSslDirectory] at h
  cases hl : view.symlinkMetadata profile.sslDir with
  | error e =>
    rw [hl] at h
    cases e <;> cases h
  | ok fileType =>
    rw [hl] at h
    cases hm : view.metadata profile.sslDir with
    | error e =>
      simp only [hm] at h
      cases h
    | ok t =>
      simp only [hm] at h
      obtain ⟨_, he⟩ | ⟨_, he⟩ := ite_eq_iff.1 h
      · exact ⟨(Except.ok.inj he).symm, fileType, rfl⟩
      · cases he

/-- What stands behind a candidate without error. -/
theorem candidate_ok {path : Path}
    (h : candidateOfPath isDhttpName view path = some (.ok profile)) :
    view.metadata path = .ok .dir ∧ IdentityProfile.tryFromPath path = .ok profile ∧
      isDhttpName profile.name = true := by
  rw [candidateOfPath] at h
  cases hm : view.metadata path with
  | error e =>
    rw [hm] at h
    cases h
  | ok fileType =>
    rw [hm] at h
    obtain ⟨hdir, hcheck⟩ := Option.ite_none_right_eq_some.1 h
    cases ht : IdentityProfile.tryFromPath path with
    | error e =>
      rw [ht] at hcheck
      cases hcheck
    | ok found =>
      rw [ht] at hcheck
      dsimp only at hcheck
      obtain ⟨hname, hfound⟩ | ⟨_, he⟩ := ite_eq_iff.1 hcheck
      · obtain ⟨rfl, _⟩ := checkSslDirectory_ok (Option.some.inj hfound)
        exact ⟨congrArg Except.ok hdir, rfl, hname⟩
      · cases he

/-- A directory that discovery finds is a candidate, too, if its name is one. -/
theorem candidate_of_dir (h : IsProfileDir view home profile) :
    candidateOfPath isDhttpName view profile.path =
      some (if isDhttpName profile.name then .ok profile
        else .error (.invalidProfile profile.path (.invalidName profile.name))) := by
  obtain ⟨dir, hpath, hn, _⟩ := h.named
  have hdir : view.metadata profile.path = .ok .dir := view.followed _ _ h.dir nofun
  have hssl : view.metadata profile.sslDir = .ok .dir := view.followed _ _ h.ssl nofun
  have htry : IdentityProfile.tryFromPath profile.path = .ok profile := by
    rw [hpath, tryFromPath_dir home hn, ← hpath]
  have hcheck : checkSslDirectory view profile = .ok profile := by
    simp only [checkSslDirectory, h.ssl, hssl, if_true]
  rw [candidateOfPath, hdir]
  simp only [if_true, htry, hcheck]
  split <;> rfl

theorem all_ok {items : List (Except E A)} (h : ∀ item ∈ items, ∃ a, item = .ok a) :
    ∃ values : List A, items = values.map Except.ok := by
  induction items with
  | nil => exact ⟨[], rfl⟩
  | cons item items ih =>
    obtain ⟨a, rfl⟩ := h item List.mem_cons_self
    obtain ⟨values, rfl⟩ := ih fun item hm => h item (List.mem_cons_of_mem _ hm)
    exact ⟨a :: values, rfl⟩

/-- Where the candidates can be listed, there is one for every entry of the home that counts. -/
theorem mem_candidates (h : identityProfileCandidates isDhttpName view home = .ok candidates) :
    candidate ∈ candidates ↔ ∃ fileName, Listed view home fileName ∧
      candidateOfPath isDhttpName view (home ++ [fileName]) = some candidate := by
  rw [identityProfileCandidates] at h
  cases hr : view.readDir home with
  | error e =>
    rw [hr] at h
    cases h
  | ok listed =>
    rw [hr] at h
    obtain ⟨entries, he, h⟩ := ok_of_bind h
    cases he
    obtain ⟨names, hnames, h⟩ := ok_of_bind h
    have hmap := mapM_ok.1 hnames
    cases h
    have hlisted (fileName : FileName) : fileName ∈ names ↔ Listed view home fileName := by
      constructor
      · intro hm
        obtain ⟨entry, hentry, he⟩ := List.mem_map.1 (hmap ▸ List.mem_map_of_mem hm)
        cases entry with
        | error e => cases he
        | ok entry =>
          cases he
          exact ⟨listed, entry.2, hr, hentry⟩
      · intro ⟨_, fileType, hl, hm⟩
        rw [hr] at hl
        cases hl
        obtain ⟨name, hname, he⟩ := List.mem_map.1 (hmap ▸ List.mem_map_of_mem hm)
        cases he
        exact hname
    simp only [List.mem_filterMap, List.mem_mergeSort, hlisted]

/-- Where discovery succeeds, the candidates can be listed. -/
theorem candidates_of_discovered (isDhttpName : Text → Bool)
    (h : view.discoverIdentityProfiles home = .ok profiles) :
    ∃ candidates, identityProfileCandidates isDhttpName view home = .ok candidates := by
  obtain ⟨_, _, entries, found, hr, hd, _⟩ := discover_names h
  obtain ⟨listed, hlisted, rfl⟩ := dirEntries_ok hr
  have hok : ∀ item ∈ listed, ∃ a, item = .ok a := by
    intro item hm
    obtain ⟨e, _, he, _⟩ := discoverEntries_entry hd (List.mem_map_of_mem hm)
    cases item with
    | error e => cases he
    | ok a => exact ⟨a, rfl⟩
  obtain ⟨values, rfl⟩ := all_ok hok
  have hnames : (values.map Except.ok).mapM (fun entry : Except (MetadataError E) (FileName ×
      Except (MetadataError E) FileType) => (entry.map (·.1)).mapError fun e =>
        ListIdentityProfilesError.readDir home (.io e)) = .ok (values.map (·.1)) := by
    rw [mapM_ok, List.map_map, List.map_map]
    rfl
  rw [identityProfileCandidates, hlisted]
  simp only [Except.mapError, bind, Except.bind] at hnames ⊢
  rw [hnames]
  exact ⟨_, rfl⟩

theorem candidate_named {fileName : FileName}
    (h : candidateOfPath isDhttpName view (home ++ [fileName]) = some (.ok profile)) :
    ∃ dir, fileName = .text dir ∧ profile.path = home ++ [.text dir] ∧
      normalizeProfileName dir = some profile.name ∧ view.metadata profile.path = .ok .dir := by
  obtain ⟨hm, ht, _⟩ := candidate_ok h
  obtain ⟨hpath, dir, hf, hn⟩ := tryFromPath_ok ht
  rw [Path.fileName, List.getLast?_concat] at hf
  have hfile := Option.some.inj (Option.filter_eq_some_iff.1 hf).1
  rw [hfile] at hpath
  refine ⟨dir, hfile, hpath, hn, ?_⟩
  rw [hpath, ← hfile]
  exact hm

theorem canonical_iff {profile : IdentityProfile} (hpath : profile.path = home ++ [.text dir]) :
    profile.Canonical ↔ stripSuffix dhttpSuffix profile.name = some dir := by
  rw [IdentityProfile.Canonical, hpath, List.getLast?_concat]
  constructor
  · intro ⟨found, hs, he⟩
    cases he
    exact hs
  · intro hs
    exact ⟨dir, hs, rfl⟩

/-- A candidate is found under its name if its directory is named as it is, without suffix. -/
theorem candidate_resolves {fileName : FileName}
    (h : candidateOfPath isDhttpName view (home ++ [fileName]) = some (.ok profile)) :
    resolveIdentityProfile view home profile.name = some (.ok profile) ↔ profile.Canonical := by
  obtain ⟨dir, _, hpath, hn, hm⟩ := candidate_named h
  rw [canonical_iff hpath]
  constructor
  · intro hr
    obtain ⟨lead, d, hp⟩ := normalizeProfileName_parts hn
    have hj := resolve_path hr
    rw [joinIdentityName_eq hp.normalize_name hp, hpath] at hj
    have hdir := List.singleton_inj.1 (List.append_cancel_left (Option.some.inj hj))
    rw [hp.strip, FileName.text.inj hdir]
  · intro hs
    rw [hpath] at hm
    have hr := resolve_canonical hn hs hm
    rw [← hpath] at hr
    exact hr

/-- A candidate without error is discovered if nothing but its name or a link is against it. -/
theorem candidate_discovered (h : view.discoverIdentityProfiles home = .ok profiles)
    (hl : Listed view home fileName)
    (hc : candidateOfPath isDhttpName view (home ++ [fileName]) = some (.ok profile)) :
    profile ∈ profiles ↔ profile.Canonical ∧ view.symlinkMetadata profile.path = .ok .dir ∧
      view.symlinkMetadata profile.sslDir = .ok .dir := by
  obtain ⟨dir, rfl, hpath, hn, _⟩ := candidate_named hc
  rw [canonical_iff hpath, mem_discovered h]
  constructor
  · intro ⟨_, hp⟩
    obtain ⟨found, hfound, _, hs⟩ := hp.named
    rw [hpath] at hfound
    have hdir := List.singleton_inj.1 (List.append_cancel_left hfound)
    rw [FileName.text.inj hdir]
    exact ⟨hs, hp.dir, hp.ssl⟩
  · intro ⟨hs, hdir, hssl⟩
    exact ⟨⟨_, hl, hpath⟩, ⟨dir, hpath, hn, hs⟩, hdir, hssl⟩

theorem discovered_distinct (h : view.discoverIdentityProfiles home = .ok profiles) :
    (profiles.map (·.name)).Nodup := by
  obtain ⟨_, _, entries, found, hr, hd, hperm⟩ := discover_names h
  obtain ⟨listed, hlisted, rfl⟩ := dirEntries_ok hr
  rw [(hperm.map _).nodup_iff]
  apply discoverEntries_nodup hd
  have hsame (entry : Except (MetadataError E) (FileName × Except (MetadataError E) FileType)) :
      (entry.map (view.dirEntry home)).toOption.map (·.fileName) =
        entry.toOption.map (·.1) := by
    cases entry <;> rfl
  rw [List.filterMap_map]
  simp only [Function.comp_def, hsame]
  exact view.distinct home listed hlisted

theorem discovered_resolves (h : view.discoverIdentityProfiles home = .ok profiles)
    (hm : profile ∈ profiles) :
    resolveIdentityProfile view home profile.name = some (.ok profile) := by
  obtain ⟨_, hp⟩ := (mem_discovered h).1 hm
  obtain ⟨dir, hpath, hn, hs⟩ := hp.named
  have hdir : view.metadata profile.path = .ok .dir := view.followed _ _ hp.dir nofun
  rw [hpath] at hdir
  have hr := resolve_canonical hn hs hdir
  rw [← hpath] at hr
  exact hr

/-- The views of one home agree: the stream of names, the sorted profiles, the candidates and the
search by name. -/
structure ViewsAgree (isDhttpName : Text → Bool) (view : FileView E) (home : Path)
    (profiles : List IdentityProfile) : Prop where
  names : (identityProfileNames home (view.symlinkMetadata home) (view.dirEntries home)).Perm
    (profiles.map fun profile => .ok profile.name)
  sorted : profiles.Pairwise fun p q => p.name ≤ q.name
  distinct : (profiles.map (·.name)).Nodup
  resolved : ∀ profile ∈ profiles,
    resolveIdentityProfile view home profile.name = some (.ok profile)
  candidates : ∃ candidates, identityProfileCandidates isDhttpName view home = .ok candidates ∧
    (∀ profile ∈ profiles, (if isDhttpName profile.name then .ok profile
      else .error (.invalidProfile profile.path (.invalidName profile.name))) ∈ candidates) ∧
    ∀ profile, .ok profile ∈ candidates → (profile ∈ profiles ↔ profile.Canonical ∧
      view.symlinkMetadata profile.path = .ok .dir ∧
      view.symlinkMetadata profile.sslDir = .ok .dir)

/-- Where a home can be read, its profiles are the names of the stream, sorted, each found under
its name and a candidate; and a candidate is discovered unless its name or a link is against it.
Otherwise discovery fails with the first error of the stream. Wherever the candidates can be
listed, one is found under its name if its directory is named so. -/
theorem profile_views_agree (isDhttpName : Text → Bool) (view : FileView E) (home : Path) :
    (∀ profiles, view.discoverIdentityProfiles home = .ok profiles →
      ViewsAgree isDhttpName view home profiles) ∧
    (∀ source, view.discoverIdentityProfiles home = .error source → ∃ error,
      FirstError (identityProfileNames home (view.symlinkMetadata home) (view.dirEntries home))
        error ∧ error.source = source) ∧
    ∀ candidates, identityProfileCandidates isDhttpName view home = .ok candidates →
      ∀ profile, .ok profile ∈ candidates →
        (resolveIdentityProfile view home profile.name = some (.ok profile) ↔
          profile.Canonical) := by
  refine ⟨fun profiles h => ?_, fun _ h => discover_error h, fun candidates h profile hm => ?_⟩
  · obtain ⟨hnames, hsorted, _⟩ := discover_names h
    obtain ⟨candidates, hc⟩ := candidates_of_discovered isDhttpName h
    refine ⟨hnames, hsorted, discovered_distinct h, fun _ => discovered_resolves h,
      candidates, hc, ?_, ?_⟩
    · intro profile hm
      obtain ⟨⟨fileName, hl, hpath⟩, hp⟩ := (mem_discovered h).1 hm
      rw [mem_candidates hc]
      refine ⟨fileName, hl, ?_⟩
      rw [← hpath]
      exact candidate_of_dir hp
    · intro profile hm
      obtain ⟨fileName, hl, hcandidate⟩ := (mem_candidates hc).1 hm
      exact candidate_discovered h hl hcandidate
  · obtain ⟨fileName, _, hcandidate⟩ := (mem_candidates h).1 hm
    exact candidate_resolves hcandidate

/-- All there is in a home is the directory of a profile with `ssl` in it. -/
def soleProfile (dir : Text) : FileView Unit where
  symlinkMetadata _ := .ok .dir
  metadata _ := .ok .dir
  readDir _ := .ok [.ok (.text dir, .ok .dir)]
  followed := by
    intro path fileType h _
    exact h
  listed := by
    intro path entries fileName fileType h hm
    cases h
    cases List.mem_singleton.1 hm
    rfl
  distinct := by
    intro path entries h
    cases h
    exact List.nodup_singleton _

/-- The profile stands beside an entry whose type cannot be read. -/
def besideUnreadable (dir : Text) : FileView Unit where
  symlinkMetadata _ := .ok .dir
  metadata _ := .ok .dir
  readDir _ := .ok [.ok (.text dir, .ok .dir), .ok (.raw [255], .error .notFound)]
  followed := by
    intro path fileType h _
    exact h
  listed := by
    intro path entries fileName fileType h hm
    cases h
    obtain he | hm := List.mem_cons.1 hm
    · cases he
      rfl
    · cases List.mem_singleton.1 hm
  distinct := by
    intro path entries h
    cases h
    refine List.nodup_cons.2 ⟨?_, List.nodup_singleton (FileName.raw [255])⟩
    intro hm
    cases List.mem_singleton.1 hm

theorem profile_views_agree_alice :
    let alice : IdentityProfile := ⟨[.text "alice".toList], "alice.dhttp.net".toList⟩
    let beside := besideUnreadable "alice".toList
    (soleProfile "alice".toList).discoverIdentityProfiles [] = .ok [alice] ∧
      ViewsAgree (fun _ => true) (soleProfile "alice".toList) [] [alice] ∧
      beside.discoverIdentityProfiles [] = .error (.io .notFound) ∧
      (∃ candidates, identityProfileCandidates (fun _ => true) beside [] = .ok candidates ∧
        .ok alice ∈ candidates) ∧
      (resolveIdentityProfile beside [] alice.name = some (.ok alice) ↔ alice.Canonical) := by
  have hfound : discoverEntries (E := MetadataError Unit) []
      [.ok ⟨.text "alice".toList, .ok .dir, .ok .dir⟩] =
        .ok [⟨[.text "alice".toList], "alice.dhttp.net".toList⟩] := by rfl
  have hd : (soleProfile "alice".toList).discoverIdentityProfiles [] =
      .ok [⟨[.text "alice".toList], "alice.dhttp.net".toList⟩] := by
    change discoverIdentityProfiles _ (.ok .dir)
      (.ok [.ok ⟨.text "alice".toList, .ok .dir, .ok .dir⟩]) = _
    simp only [discoverIdentityProfiles, Except.mapError, bind, Except.bind, hfound, if_true,
      List.mergeSort_singleton]
    rfl
  have hc : ∃ candidates, identityProfileCandidates (fun _ => true)
      (besideUnreadable "alice".toList) [] = .ok candidates := ⟨_, rfl⟩
  obtain ⟨candidates, hc⟩ := hc
  have hm := (mem_candidates hc).2
    ⟨.text "alice".toList, ⟨_, _, rfl, List.mem_cons_self⟩, by rfl⟩
  exact ⟨hd, (profile_views_agree _ _ _).1 _ hd, rfl, ⟨candidates, hc, hm⟩,
    (profile_views_agree _ _ _).2.2 candidates hc _ hm⟩

/-- A directory named in capitals is a candidate that the search for its name passes by. -/
example : candidateOfPath (fun _ => true) (soleProfile "Alice".toList) [.text "Alice".toList] =
      some (.ok ⟨[.text "Alice".toList], "alice.dhttp.net".toList⟩) ∧
    resolveIdentityProfile (soleProfile "Alice".toList) [] "alice.dhttp.net".toList =
      some (.ok ⟨[.text "alice".toList], "alice.dhttp.net".toList⟩) := by
  exact ⟨by rfl, by rfl⟩

end Views

end Dhttp.Home
