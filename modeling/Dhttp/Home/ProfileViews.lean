import Dhttp.Lib.ByteText
import Dhttp.Home.Profiles

namespace Dhttp.Home
open Dhttp.Lib
set_option autoImplicit true

def sslDirName : FileName := .text "ssl".toList

def FileName.bytes : FileName → List UInt8
  | text s => utf8Bytes s
  | raw bytes => bytes

/-- What a file system answers at one time: the type of an entry, the type of what it leads to,
and the entries of a directory with their types. -/
structure FileView (E : Type) where
  symlinkMetadata : Path → Except (MetadataError E) FileType
  metadata : Path → Except (MetadataError E) FileType
  readDir : Path → Except (MetadataError E)
    (List (Except (MetadataError E) (FileName × Except (MetadataError E) FileType)))
  followed : ∀ path fileType, symlinkMetadata path = .ok fileType → fileType ≠ .symlink →
    metadata path = .ok fileType
  listed : ∀ path entries fileName fileType, readDir path = .ok entries →
    .ok (fileName, .ok fileType) ∈ entries → symlinkMetadata (path ++ [fileName]) = .ok fileType
  /-- A directory lists no name twice. -/
  distinct : ∀ path entries, readDir path = .ok entries →
    (entries.filterMap fun entry => entry.toOption.map (·.1)).Nodup

namespace FileView
variable {E : Type} (view : FileView E) (home : Path)

/-- An entry of the home directory as the loops over them see it. -/
def dirEntry (entry : FileName × Except (MetadataError E) FileType) :
    DirEntry (MetadataError E) where
  fileName := entry.1
  fileType := entry.2
  sslType := view.symlinkMetadata (home ++ [entry.1] ++ [sslDirName])

def dirEntries : Except (MetadataError E) (List (Except (MetadataError E)
    (DirEntry (MetadataError E)))) :=
  (view.readDir home).map fun entries => entries.map fun entry => entry.map (view.dirEntry home)

def inspect (path : Path) : Except (MetadataError E) Unit := (view.metadata path).map fun _ => ()

def discoverIdentityProfiles : Except (DiscoverError (MetadataError E)) (List IdentityProfile) :=
  Home.discoverIdentityProfiles home (view.symlinkMetadata home) (view.dirEntries home)

end FileView

/-- An `io::Error` is an error of the file system or the one of a home that is no directory. -/
inductive ListIdentityProfilesError (E : Type) where
  | readDir (path : Path) (source : DiscoverError E)
  | readFty (path : Path) (source : DiscoverError E)

def ListIdentityProfilesError.source : ListIdentityProfilesError E → DiscoverError E
  | readDir _ source | readFty _ source => source

/-- The name of an entry that is a directory. -/
def DirEntry.profileName {E : Type} (entry : DirEntry E) : Option Text := do
  let directoryName ← entry.fileName.toStr
  let name ← normalizeProfileName directoryName
  if stripSuffix dhttpSuffix name = some directoryName ∧ entry.sslType.toOption = some .dir then
    return name
  else none

/-- What `next_name` returns for an entry, unless it goes on to the next one. -/
def nameOfEntry {E : Type} (home : Path) :
    Except E (DirEntry E) → Option (Except (ListIdentityProfilesError E) Text)
  | .error e => some (.error (.readDir home (.io e)))
  | .ok entry =>
    match entry.fileType with
    | .error e => some (.error (.readFty (home ++ [entry.fileName]) (.io e)))
    | .ok fileType => if fileType = .dir then entry.profileName.map .ok else none

/-- The items of the stream; it goes on behind an error of an entry. -/
def identityProfileNames {E : Type} (home : Path) (metadata : Except E FileType)
    (readDir : Except E (List (Except E (DirEntry E)))) :
    List (Except (ListIdentityProfilesError E) Text) :=
  match metadata with
  | .error e => [.error (.readDir home (.io e))]
  | .ok fileType =>
    if fileType = .dir then
      match readDir with
      | .error e => [.error (.readDir home (.io e))]
      | .ok entries => entries.filterMap (nameOfEntry home)
    else [.error (.readDir home .notADirectory)]

inductive IdentityProfileCandidateError (E : Type) where
  | entryMetadata (path : Path) (source : MetadataError E)
  | invalidProfile (path : Path) (source : IdentityProfileFromPathError)
  | missingSslDirectory (profile : IdentityProfile) (path : Path)
  | sslMetadata (profile : IdentityProfile) (path : Path) (source : MetadataError E)
  | sslNotDirectory (profile : IdentityProfile) (path : Path)

/-- The error `NotFound` names both paths; the others come from one of the two searches. -/
inductive ResolveProfileError (E : Type) where
  | failed (error : ResolveIdentityProfileError E)
  | notFound (exact : Path) (wildcard : Path)

section Views
variable {E : Type} (isDhttpName : Text → Bool) (view : FileView E) (home : Path)

def IdentityProfile.sslDir (profile : IdentityProfile) : Path := profile.path ++ [sslDirName]

/-- The end of the loop over the candidates. -/
def checkSslDirectory (profile : IdentityProfile) :
    Except (IdentityProfileCandidateError E) IdentityProfile :=
  match view.symlinkMetadata profile.sslDir with
  | .error .notFound => .error (.missingSslDirectory profile profile.sslDir)
  | .error source => .error (.sslMetadata profile profile.sslDir source)
  | .ok _ =>
    match view.metadata profile.sslDir with
    | .error source => .error (.sslMetadata profile profile.sslDir source)
    | .ok fileType =>
      if fileType = .dir then .ok profile
      else .error (.sslNotDirectory profile profile.sslDir)

/-- `isDhttpName` is what the type of identity names accepts. -/
def candidateOfPath (path : Path) :
    Option (Except (IdentityProfileCandidateError E) IdentityProfile) :=
  match view.metadata path with
  | .error source => some (.error (.entryMetadata path source))
  | .ok fileType =>
    if fileType = .dir then
      match IdentityProfile.tryFromPath path with
      | .error source => some (.error (.invalidProfile path source))
      | .ok profile =>
        if isDhttpName profile.name then some (checkSslDirectory view profile)
        else some (.error (.invalidProfile path (.invalidName profile.name)))
    else none

/-- The paths are sorted; those of one directory are compared by the bytes of their names. -/
def identityProfileCandidates : Except (ListIdentityProfilesError (MetadataError E))
    (List (Except (IdentityProfileCandidateError E) IdentityProfile)) := do
  let entries ← (view.readDir home).mapError fun e => .readDir home (.io e)
  let names ← entries.mapM fun entry =>
    (entry.map (·.1)).mapError fun e => .readDir home (.io e)
  let sorted := names.mergeSort fun a b => decide (a.bytes ≤ b.bytes)
  return sorted.filterMap fun name => candidateOfPath isDhttpName view (home ++ [name])

def resolveIdentityProfile (name : Text) :
    Option (Except (ResolveProfileError E) IdentityProfile) := do
  match ← resolveIdentityProfileExactly view.inspect home name with
  | .ok profile => return .ok profile
  | .error (.exactNotFound exact) =>
    match ← resolveIdentityProfileWildcard view.inspect home name with
    | .ok profile => return .ok profile
    | .error (.wildcardNotFound wildcard) => return .error (.notFound exact wildcard)
    | .error error => return .error (.failed error)
  | .error error => return .error (.failed error)

end Views

/-- The directory of a profile is named as the profile, without the suffix. -/
def IdentityProfile.Canonical (profile : IdentityProfile) : Prop :=
  ∃ dir, stripSuffix dhttpSuffix profile.name = some dir ∧
    profile.path.getLast? = some (.text dir)

end Dhttp.Home
