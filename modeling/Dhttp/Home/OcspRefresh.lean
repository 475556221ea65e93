import Dhttp.Home.SaveIdentity

namespace Dhttp.Home
open Dhttp.Lib
set_option autoImplicit true

/-- The paths in the `ssl` directory: the staple, the temporary files, and whatever else is
there. -/
inductive SslPath where
  | stapling
  | temp (name : Nat)
  | other (name : Text)
  deriving DecidableEq

/-- Why a refresh fails; `library` is the text of an error of another crate. -/
inductive OcspError where
  | missingCertificate
  | missingIssuerCertificate
  | outsideValidity
  | noResponderUri
  | unsupportedScheme
  | responderReturned (status : Text)
  | tooLarge
  | timedOut
  | library (message : Text)
  | io
  deriving DecidableEq

/-- The text behind `OCSP: `; an error of the file system keeps its own. -/
def OcspError.message : OcspError → Option Text
  | missingCertificate => some "missing certificate".toList
  | missingIssuerCertificate => some "missing issuer certificate".toList
  | outsideValidity => some "certificate is outside its validity period".toList
  | noResponderUri => some "certificate has no OCSP responder URI".toList
  | unsupportedScheme => some "unsupported responder scheme".toList
  | responderReturned status => some ("responder returned ".toList ++ status)
  | tooLarge => some "response exceeds 64KiB".toList
  | timedOut => some "responder timed out after 15 seconds".toList
  | library message => some message
  | io => none

/-- The libraries for certificates, for OCSP and for URLs, as far as they are used. -/
structure OcspLib where
  Certificate : Type
  Parsed : Type
  Request : Type
  Time : Type
  parse : Certificate → Except Text Parsed
  isValid : Parsed → Bool
  /-- The descriptions of each authority information access extension, with their URIs. -/
  accessDescriptions : Parsed → List (List (Text × Option Text))
  request : Certificate → Certificate → Except Text Request
  /-- The HTTP client with the root certificate that it merges. -/
  client : Bytes → Except Text Unit
  /-- The scheme of a URL. -/
  scheme : Text → Except Text Text
  validateOcsp : Bytes → List Certificate → Time → Except Text Unit

variable (L : OcspLib)

def ocspAccessMethod : Text := "1.3.6.1.5.5.7.48.1".toList

def responderUri (extensions : List (List (Text × Option Text))) : Option Text :=
  extensions.findSome? fun accessdescs => accessdescs.findSome? fun access =>
    if access.1 ≠ ocspAccessMethod then none else access.2

/-- `fetch_ocsp` as far as what it sends, and where to. -/
def fetchRequest (certificates : List L.Certificate) (rootCaDer : Bytes) :
    Except OcspError (Text × L.Request) := do
  let leaf ← match certificates.head? with
    | some leaf => .ok leaf
    | none => .error .missingCertificate
  let issuer ← match certificates[1]? with
    | some issuer => .ok issuer
    | none => .error .missingIssuerCertificate
  let parsed ← (L.parse leaf).mapError .library
  if !L.isValid parsed then .error .outsideValidity
  else
    let url ← match responderUri (L.accessDescriptions parsed) with
      | some url => .ok url
      | none => .error .noResponderUri
    let request ← (L.request leaf issuer).mapError .library
    (L.client rootCaDer).mapError .library
    let scheme ← (L.scheme url).mapError .library
    if scheme ≠ "http".toList ∧ scheme ≠ "https".toList then .error .unsupportedScheme
    else .ok (url, request)

def maxResponseLen : Nat := 64 * 1024

/-- Where a call of `load_or_refresh` is, with the temporary file it writes. -/
inductive RefreshPc where
  | idle
  | loading
  | fetching
  | awaiting
  | receiving (body : Bytes)
  | creating (response : Bytes)
  | writing (response : Bytes) (temp : Nat) (written : Nat)
  | syncing (response : Bytes) (temp : Nat)
  | persisting (response : Bytes) (temp : Nat)
  | removing (temp : Nat) (error : OcspError)
  | returned (result : Except OcspError Bytes)
  | dropped

/-- What has been put at the path of the staple. -/
inductive StapleWrite (I : Type) where
  | refresh (i : I) (response : Bytes)
  | replaced (tree : Option Tree)

def StapleWrite.tree : StapleWrite I → Option Tree
  | refresh _ response => some (.file response)
  | replaced tree => tree

/-- The calls, the directory, the temporary files so far, and the writes, newest first. -/
structure Refreshes (I : Type) where
  pc : I → RefreshPc
  disk : Disk SslPath Text UInt8
  nextTemp : Nat
  writes : List (StapleWrite I)

def refreshes (I : Type) (disk : Disk SslPath Text UInt8) : Refreshes I where
  pc _ := .idle
  disk := disk
  nextTemp := 0
  writes := []

/-- The future is suspended here, so it can be dropped. -/
def RefreshPc.Suspended : RefreshPc → Prop
  | idle | loading | awaiting | receiving _ => True
  | _ => False

/-- Where a call goes on when an operation on its file fails. -/
def RefreshPc.failed : RefreshPc → Option RefreshPc
  | creating _ => some (returned (.error .io))
  | writing _ temp _ | syncing _ temp | persisting _ temp => some (removing temp .io)
  | _ => none

/-- The temporary file of a call. -/
def RefreshPc.temp : RefreshPc → Option Nat
  | writing _ temp _ | syncing _ temp | persisting _ temp | removing temp _ => some temp
  | _ => none

/-- What a call has in its temporary file. -/
def RefreshPc.contents : RefreshPc → Option Bytes
  | writing response _ written => some (response.take written)
  | syncing response _ | persisting response _ => some response
  | _ => none

section Steps
variable {L} {I : Type} [DecidableEq I]

namespace Refreshes

def go (s : Refreshes I) (i : I) (pc : RefreshPc) : Refreshes I :=
  { s with pc := Function.update s.pc i pc }

def put (s : Refreshes I) (path : SslPath) (tree : Option Tree) : Refreshes I :=
  { s with disk := Function.update s.disk path tree }

end Refreshes

/-- One step of a call of `load_or_refresh`, or of anyone else who writes to the directory. The
names of temporary files are random, so no name is used twice. -/
inductive RefreshStep (certificates : I → List L.Certificate) (rootCaDer : I → Bytes) :
    Refreshes I → Unit → Refreshes I → Prop
  | start {s : Refreshes I} {i : I} (hp : s.pc i = .idle) :
    RefreshStep certificates rootCaDer s () (s.go i .loading)
  /-- The staple on disk is good still. -/
  | cached {s : Refreshes I} {i : I} {now : L.Time} (hp : s.pc i = .loading)
      (hd : s.disk .stapling = some tree) (hr : tree.Reads response) (hn : response ≠ [])
      (hv : L.validateOcsp response (certificates i) now = .ok ()) :
    RefreshStep certificates rootCaDer s () (s.go i (.returned (.ok response)))
  /-- It cannot be read, is empty or is not good. -/
  | stale {s : Refreshes I} {i : I} (hp : s.pc i = .loading) :
    RefreshStep certificates rootCaDer s () (s.go i .fetching)
  | refuse {s : Refreshes I} {i : I} (hp : s.pc i = .fetching)
      (hr : fetchRequest L (certificates i) (rootCaDer i) = .error error) :
    RefreshStep certificates rootCaDer s () (s.go i (.returned (.error error)))
  | send {s : Refreshes I} {i : I} (hp : s.pc i = .fetching)
      (hr : fetchRequest L (certificates i) (rootCaDer i) = .ok request) :
    RefreshStep certificates rootCaDer s () (s.go i .awaiting)
  | respond {s : Refreshes I} {i : I} (hp : s.pc i = .awaiting) :
    RefreshStep certificates rootCaDer s () (s.go i (.receiving []))
  /-- The responder is refused, or the client fails. -/
  | unanswered {s : Refreshes I} {i : I} (hp : s.pc i = .awaiting) (error : OcspError) :
    RefreshStep certificates rootCaDer s () (s.go i (.returned (.error error)))
  | chunk {s : Refreshes I} {i : I} (hp : s.pc i = .receiving body) (chunk : Bytes)
      (hl : body.length + chunk.length ≤ maxResponseLen) :
    RefreshStep certificates rootCaDer s () (s.go i (.receiving (body ++ chunk)))
  | tooLarge {s : Refreshes I} {i : I} (hp : s.pc i = .receiving body) (chunk : Bytes)
      (hl : maxResponseLen < body.length + chunk.length) :
    RefreshStep certificates rootCaDer s () (s.go i (.returned (.error .tooLarge)))
  /-- The connection breaks, or the time is up. -/
  | broken {s : Refreshes I} {i : I} (hp : s.pc i = .receiving body) (error : OcspError) :
    RefreshStep certificates rootCaDer s () (s.go i (.returned (.error error)))
  | invalid {s : Refreshes I} {i : I} {now : L.Time} (hp : s.pc i = .receiving body)
      (hv : L.validateOcsp body (certificates i) now = .error message) :
    RefreshStep certificates rootCaDer s () (s.go i (.returned (.error (.library message))))
  | fetched {s : Refreshes I} {i : I} {now : L.Time} (hp : s.pc i = .receiving body)
      (hv : L.validateOcsp body (certificates i) now = .ok ()) :
    RefreshStep certificates rootCaDer s () (s.go i (.creating body))
  | create {s : Refreshes I} {i : I} (hp : s.pc i = .creating response)
      (hd : s.disk (.temp s.nextTemp) = none) :
    RefreshStep certificates rootCaDer s () { (s.go i (.writing response s.nextTemp 0)).put
      (.temp s.nextTemp) (some (.file [])) with nextTemp := s.nextTemp + 1 }
  /-- More bytes reach the file, wherever it is by now. -/
  | write {s : Refreshes I} {i : I} {temp count : Nat}
      (hp : s.pc i = .writing response temp written) (hw : written < count)
      (hc : count ≤ response.length) :
    RefreshStep certificates rootCaDer s () ((s.go i (.writing response temp count)).put (.temp temp)
      ((s.disk (.temp temp)).map fun _ => .file (response.take count)))
  | written {s : Refreshes I} {i : I} {temp : Nat}
      (hp : s.pc i = .writing response temp response.length) :
    RefreshStep certificates rootCaDer s () (s.go i (.syncing response temp))
  | sync {s : Refreshes I} {i : I} {temp : Nat} (hp : s.pc i = .syncing response temp) :
    RefreshStep certificates rootCaDer s () (s.go i (.persisting response temp))
  | persist {s : Refreshes I} {i : I} {temp : Nat} (hp : s.pc i = .persisting response temp)
      (hr : Disk.rename s.disk (.temp temp) .stapling = some disk) :
    RefreshStep certificates rootCaDer s () { s.go i (.returned (.ok response)) with
      disk := disk
      writes := .refresh i response :: s.writes }
  | fail {s : Refreshes I} {i : I} (hf : (s.pc i).failed = some pc) :
    RefreshStep certificates rootCaDer s () (s.go i pc)
  /-- A temporary file goes with its handle, if it can be removed. -/
  | remove {s : Refreshes I} {i : I} {temp : Nat} (hp : s.pc i = .removing temp error) :
    RefreshStep certificates rootCaDer s () ((s.go i (.returned (.error error))).put (.temp temp) none)
  | kept {s : Refreshes I} {i : I} {temp : Nat} (hp : s.pc i = .removing temp error) :
    RefreshStep certificates rootCaDer s () (s.go i (.returned (.error error)))
  | drop {s : Refreshes I} {i : I} (hp : (s.pc i).Suspended) :
    RefreshStep certificates rootCaDer s () (s.go i .dropped)
  /-- Someone else writes to the directory, or exchanges it. The temporary files that are in use go
  with it; a directory that is brought back has them as they have been written since. -/
  | replace {s : Refreshes I} (disk : Disk SslPath Text UInt8)
      (ht : ∀ i temp bytes, (s.pc i).temp = some temp → (s.pc i).contents = some bytes →
        disk (.temp temp) = none ∨ disk (.temp temp) = some (.file bytes)) :
    RefreshStep certificates rootCaDer s () { s with
      disk := disk
      writes := .replaced (disk .stapling) :: s.writes }

end Steps

end Dhttp.Home
