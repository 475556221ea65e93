import Dhttp.Api.Errors

namespace Dhttp.Api
set_option autoImplicit true

def ErrorCode.asStr : ErrorCode → String
  | .invalidArgument => "ERR_INVALID_ARGUMENT"
  | .identity => "ERR_IDENTITY"
  | .remoteIdentityChanged => "ERR_REMOTE_IDENTITY_CHANGED"
  | .alreadyListening => "ERR_ALREADY_LISTENING"
  | .network => "ERR_NETWORK"
  | .protocol => "ERR_PROTOCOL"
  | .io => "ERR_IO"
  | .cancelled => "ERR_CANCELLED"
  | .closed => "ERR_CLOSED"
  | .deadlineExceeded => "ERR_DEADLINE_EXCEEDED"
  | .bodyInUse => "ERR_BODY_IN_USE"
  | .producer => "ERR_PRODUCER"

def Error.text (error : Error) : String := error.code.asStr ++ ": " ++ error.message

/-- An error of the HTTP/3 library, with the text it displays. -/
structure Http3Error where
  code : UInt64
  text : String

inductive IoKind where
  | other
  | named (name : String)

mutual

/-- An error whose type is erased. -/
inductive Cause where
  | core (error : CoreError)
  | http3 (error : Http3Error)
  | quic (text : String)
  | io (error : IoError)
  | sdk (error : Error)
  | foreign (text : String)

/-- The categories of `dhttp::Error`. -/
inductive CoreError where
  | invalidName (name : String)
  | invalidRequest (message : String)
  | invalidUri (source : String)
  | remoteIdentityChanged
  | alreadyListening
  | nameInUse (name : String)
  | networkNotInitialized
  | homeUnavailable (message : String)
  | credentials (source : String)
  | tlsConfig (source : String)
  | http3 (source : Http3Error)
  | quic (source : String)
  | io (source : IoError)
  | home (path : String) (source : Cause)

/-- An error of `std::io`, with or without another one in it. -/
inductive IoError where
  | plain (kind : IoKind) (text : String)
  | custom (kind : IoKind) (payload : Cause)

end

mutual

def Cause.text : Cause → String
  | .core error => error.text
  | .http3 error => error.text
  | .quic text => text
  | .io error => error.text
  | .sdk error => error.text
  | .foreign text => text

def CoreError.text : CoreError → String
  | .invalidName name => "invalid DHTTP name: " ++ name
  | .invalidRequest message => "invalid request: " ++ message
  | .remoteIdentityChanged => "remote identity changed"
  | .alreadyListening => "endpoint is already listening"
  | .nameInUse name => "name is already registered: " ++ name
  | .networkNotInitialized => "network is not initialized"
  | .homeUnavailable message => "DHTTP home unavailable: " ++ message
  | .home path source => path ++ ": " ++ source.text
  | .invalidUri source => "invalid URI: " ++ source
  | .credentials source => "credentials: " ++ source
  | .tlsConfig source => "TLS configuration: " ++ source
  | .http3 source => "HTTP/3: " ++ source.text
  | .quic source => "QUIC: " ++ source
  | .io source => "I/O: " ++ source.text

def IoError.text : IoError → String
  | .plain _ text => text
  | .custom _ payload => payload.text

end

@[simp] theorem CoreError.io_text (source : IoError) :
    (CoreError.io source).text = "I/O: " ++ source.text := by
  unfold CoreError.text
  rfl

/-- `io::Error::other`. -/
def IoError.other (cause : Cause) : IoError := .custom .other cause

namespace CoreError

/-- The core category that an erased error comes from, through any number of I/O errors. -/
def recover : Cause → Option CoreError
  | .core error => some error
  | .http3 error => some (.http3 error)
  | .quic text => some (.quic text)
  | .io (.custom _ payload) => recover payload
  | .io (.plain ..) | .sdk _ | .foreign _ => none

def ofIo (source : IoError) : CoreError := (recover (.io source)).getD (.io source)

def ofBox (source : Cause) : CoreError := (recover source).getD (.io (.other source))

def code : CoreError → ErrorCode
  | invalidName _ | invalidRequest _ | invalidUri _ => .invalidArgument
  | remoteIdentityChanged => .remoteIdentityChanged
  | alreadyListening | nameInUse _ => .alreadyListening
  | homeUnavailable _ | home .. | credentials _ | tlsConfig _ => .identity
  | networkNotInitialized | quic _ => .network
  | http3 _ => .protocol
  | io _ => .io

def protocolCode : CoreError → Option UInt64
  | http3 source => some source.code
  | _ => none

/-- The error of the SDK that an I/O error was made from. -/
def sdkError : CoreError → Option Error
  | io (.custom _ (.sdk error)) => some error
  | _ => none

end CoreError

namespace Error

def ofCore (cause : CoreError) : Error :=
  cause.sdkError.getD ⟨cause.code, cause.text, cause.protocolCode⟩

def ofIo (cause : IoError) : Error := ofCore (.ofIo cause)

def ofBox : Cause → Error
  | .sdk error => error
  | cause => ofCore (.ofBox cause)

end Error

/-- An error on its way from where it arose to a caller. -/
inductive Carried where
  | core (error : CoreError)
  | io (error : IoError)
  | boxed (cause : Cause)

/-- What is done to an error on its way: it is put in an I/O error or in a box, or converted to an
error of the core. -/
inductive Layer where
  | wrap
  | box
  | convert

namespace Carried

def cause : Carried → Cause
  | core error => .core error
  | io error => .io error
  | boxed cause => cause

def toCore : Carried → CoreError
  | core error => error
  | io error => .ofIo error
  | boxed cause => .ofBox cause

def toSdk : Carried → Error
  | core error => .ofCore error
  | io error => .ofIo error
  | boxed cause => .ofBox cause

def pass (v : Carried) : Layer → Carried
  | .wrap => .io (.other v.cause)
  | .box => .boxed v.cause
  | .convert => .core v.toCore

def through (v : Carried) (path : List Layer) : Carried := path.foldl pass v

/-- The error of the SDK that is boxed or right in an I/O error. -/
def sdkError : Carried → Option Error
  | core _ => none
  | io error => (CoreError.io error).sdkError
  | boxed (.sdk error) => some error
  | boxed _ => none

/-- The layers up to the first conversion leave the error of the SDK where the conversion finds
it: a box may be put in one I/O error, and an I/O error in nothing. -/
def keeps : Carried → List Layer → Bool
  | _, [] | _, .convert :: _ => true
  | boxed cause, .box :: path => keeps (boxed cause) path
  | boxed cause, .wrap :: path => keeps (io (.other cause)) path
  | core _, _ :: _ | io _, _ :: _ => false

end Carried

/-- What an error of no category becomes. -/
def Error.ofUnknown (cause : Cause) : Error := ⟨.io, "I/O: " ++ cause.text, none⟩

section Paths
variable {v : Carried} {e : CoreError} {error : Error}

theorem toCore_of_recover (h : CoreError.recover v.cause = some e) : v.toCore = e := by
  cases v with
  | core error => exact Option.some.inj h
  | io error =>
    rw [Carried.toCore, CoreError.ofIo, show CoreError.recover (.io error) = some e from h,
      Option.getD_some]
  | boxed cause =>
    rw [Carried.toCore, CoreError.ofBox, show CoreError.recover cause = some e from h,
      Option.getD_some]

theorem toSdk_of_recover (h : CoreError.recover v.cause = some e) : v.toSdk = .ofCore e := by
  have hcore := toCore_of_recover h
  cases v with
  | core error | io error => exact congrArg Error.ofCore hcore
  | boxed cause =>
    cases cause with
    | sdk error => cases h
    | core | http3 | quic | io | foreign => exact congrArg Error.ofCore hcore

theorem recover_pass (layer : Layer) (h : CoreError.recover v.cause = some e) :
    CoreError.recover (v.pass layer).cause = some e := by
  cases layer with
  | wrap | box => exact h
  | convert => exact congrArg some (toCore_of_recover h)

/-- A category of the core is found again behind all layers. -/
theorem recover_through (path : List Layer) (h : CoreError.recover v.cause = some e) :
    CoreError.recover (v.through path).cause = some e := by
  induction path generalizing v with
  | nil => exact h
  | cons layer path ih => exact ih (recover_pass layer h)

/-- A converted error stays what it is. -/
theorem toSdk_converted (v : Carried) (path : List Layer) :
    (v.through (.convert :: path)).toSdk = .ofCore v.toCore :=
  toSdk_of_recover (recover_through path rfl)

theorem toCore_converted (v : Carried) (path : List Layer) :
    (v.through (.convert :: path)).toCore = v.toCore :=
  toCore_of_recover (recover_through path rfl)

/-- An error of no category becomes the I/O error that it is, or that it is put in. -/
theorem toCore_of_unknown (h : CoreError.recover v.cause = none) :
    ∃ source, v.toCore = .io source ∧ source.text = v.cause.text := by
  cases v with
  | core error => cases h
  | io error =>
    refine ⟨error, ?_, by rw [Carried.cause, Cause.text]⟩
    rw [Carried.toCore, CoreError.ofIo, show CoreError.recover (.io error) = none from h,
      Option.getD_none]
  | boxed cause =>
    refine ⟨.other cause, ?_, by rw [IoError.other, IoError.text, Carried.cause]⟩
    rw [Carried.toCore, CoreError.ofBox, show CoreError.recover cause = none from h,
      Option.getD_none]

theorem text_pass (v : Carried) {layer : Layer} (hl : layer ≠ .convert) :
    (v.pass layer).cause.text = v.cause.text ∧
      CoreError.recover (v.pass layer).cause = CoreError.recover v.cause := by
  cases layer with
  | wrap =>
    refine ⟨?_, rfl⟩
    rw [Carried.pass, Carried.cause, Cause.text, IoError.other, IoError.text]
  | box => exact ⟨rfl, rfl⟩
  | convert => exact absurd rfl hl

theorem unknown_through (path : List Layer) (h : CoreError.recover v.cause = none) :
    ∃ source, (v.through path).toCore = .io source ∧ source.text = v.cause.text := by
  induction path generalizing v with
  | nil => exact toCore_of_unknown h
  | cons layer path ih =>
    by_cases hl : layer = .convert
    · rw [hl, toCore_converted]
      exact toCore_of_unknown h
    · obtain ⟨htext, hrecover⟩ := text_pass v hl
      rw [← htext]
      exact ih (hrecover.trans h)

theorem ofCore_io {source : IoError} (h : (CoreError.io source).sdkError = none) :
    Error.ofCore (.io source) = ⟨.io, "I/O: " ++ source.text, none⟩ := by
  rw [Error.ofCore, h, Option.getD_none, CoreError.code, CoreError.protocolCode,
    CoreError.io_text]
  nofun

/-- Where a conversion finds no error of the SDK, what comes out is of no category. -/
theorem ofCore_of_unknown (h : CoreError.recover v.cause = none) (hs : v.sdkError = none) :
    Error.ofCore v.toCore = .ofUnknown v.cause := by
  cases v with
  | core error => cases h
  | io error =>
    rw [Carried.toCore, CoreError.ofIo, show CoreError.recover (.io error) = none from h,
      Option.getD_none, ofCore_io hs, Error.ofUnknown, Carried.cause, Cause.text]
  | boxed cause =>
    have hs' : (CoreError.io (.other cause)).sdkError = none := by
      cases cause with
      | sdk error => cases hs
      | core | http3 | quic | io | foreign => rfl
    rw [Carried.toCore, CoreError.ofBox, show CoreError.recover cause = none from h,
      Option.getD_none, ofCore_io hs', IoError.other, IoError.text]
    rfl

theorem toSdk_of_not_sdk (hs : v.sdkError = none) : v.toSdk = .ofCore v.toCore := by
  cases v with
  | core | io => rfl
  | boxed cause =>
    cases cause with
    | sdk error => cases hs
    | core | http3 | quic | io | foreign => rfl

theorem sdkError_pass (hs : v.sdkError = none) {layer : Layer} (hl : layer ≠ .convert) :
    (v.pass layer).sdkError = none := by
  cases layer with
  | wrap =>
    cases v with
    | core | io => rfl
    | boxed cause =>
      cases cause with
      | sdk error => cases hs
      | core | http3 | quic | io | foreign => rfl
  | box =>
    cases v with
    | core | io => rfl
    | boxed cause => exact hs
  | convert => exact absurd rfl hl

theorem ofUnknown_pass (v : Carried) {layer : Layer} (hl : layer ≠ .convert) :
    Error.ofUnknown (v.pass layer).cause = .ofUnknown v.cause := by
  rw [Error.ofUnknown, Error.ofUnknown, (text_pass v hl).1]

theorem lost_through (path : List Layer) (h : CoreError.recover v.cause = none)
    (hs : v.sdkError = none) : (v.through path).toSdk = .ofUnknown v.cause := by
  induction path generalizing v with
  | nil => exact (toSdk_of_not_sdk hs).trans (ofCore_of_unknown h hs)
  | cons layer path ih =>
    by_cases hl : layer = .convert
    · rw [hl, toSdk_converted]
      exact ofCore_of_unknown h hs
    · rw [← ofUnknown_pass v hl]
      exact ih ((text_pass v hl).2.trans h) (sdkError_pass hs hl)

theorem ofUnknown_wrap (v : Carried) :
    Error.ofUnknown (Carried.io (.other v.cause)).cause = .ofUnknown v.cause :=
  ofUnknown_pass v (by nofun : Layer.wrap ≠ .convert)

theorem sdk_in_io (kind : IoKind) (error : Error) (path : List Layer) :
    ((Carried.io (.custom kind (.sdk error))).through path).toSdk =
      if (Carried.io (.custom kind (.sdk error))).keeps path then error
      else .ofUnknown (.sdk error) := by
  have hcause : Error.ofUnknown (.io (.custom kind (.sdk error))) = .ofUnknown (.sdk error) := by
    rw [Error.ofUnknown, Error.ofUnknown, Cause.text, IoError.text]
  match path with
  | [] => rfl
  | .convert :: path => exact toSdk_converted ..
  | .wrap :: path =>
    have hlost := lost_through (v := .io (.other (.io (.custom kind (.sdk error))))) path rfl rfl
    have hwrap := ofUnknown_wrap (.io (.custom kind (.sdk error)))
    exact hlost.trans (hwrap.trans hcause)
  | .box :: path =>
    have hlost := lost_through (v := .boxed (.io (.custom kind (.sdk error)))) path rfl rfl
    exact hlost.trans hcause

theorem sdk_boxed (error : Error) (path : List Layer) :
    ((Carried.boxed (.sdk error)).through path).toSdk =
      if (Carried.boxed (.sdk error)).keeps path then error else .ofUnknown (.sdk error) := by
  induction path with
  | nil => rfl
  | cons layer path ih =>
    cases layer with
    | convert => exact toSdk_converted ..
    | box => exact ih
    | wrap => exact sdk_in_io .other error path

/-- An error that has lost its category has a longer text. -/
theorem ofUnknown_ne (error : Error) : Error.ofUnknown (.sdk error) ≠ error := by
  intro h
  have hmessage : ("I/O: " ++ error.text).length = error.message.length :=
    congrArg (fun e => e.message.length) h
  rw [Error.text] at hmessage
  simp only [String.length_append] at hmessage
  have hlabel : "I/O: ".length = 5 := rfl
  omega

end Paths

/-- What comes of an error on its way through any layers. -/
structure Transported (v : Carried) (path : List Layer) : Prop where
  recovered : ∀ e, CoreError.recover v.cause = some e →
    (v.through path).toCore = e ∧ (v.through path).toSdk = .ofCore e
  unknown : CoreError.recover v.cause = none →
    (∃ source, (v.through path).toCore = .io source ∧ source.text = v.cause.text) ∧
      (v.sdkError = none → (v.through path).toSdk = .ofUnknown v.cause)
  sdk : ∀ error, v.sdkError = some error →
    ((v.through path).toSdk = error ↔ v.keeps path = true) ∧
      (v.keeps path = false → (v.through path).toSdk = .ofUnknown (.sdk error))

theorem transported_sdk {v : Carried} {error : Error} (path : List Layer)
    (h : v.sdkError = some error) :
    (v.through path).toSdk = if v.keeps path then error else .ofUnknown (.sdk error) := by
  cases v with
  | core cause => cases h
  | io source =>
    cases source with
    | plain => cases h
    | custom kind payload =>
      cases payload with
      | sdk found =>
        cases h
        exact sdk_in_io kind error path
      | core | http3 | quic | io | foreign => cases h
  | boxed cause =>
    cases cause with
    | sdk found =>
      cases h
      exact sdk_boxed error path
    | core | http3 | quic | io | foreign => cases h

/-- Errors keep their category through any layers of boxes, I/O errors and conversions: those of
the core always, those of the SDK as long as a conversion finds them. -/
theorem errors_transported (v : Carried) (path : List Layer) : Transported v path where
  recovered e h :=
    ⟨toCore_of_recover (recover_through path h), toSdk_of_recover (recover_through path h)⟩
  unknown h := ⟨unknown_through path h, lost_through path h⟩
  sdk error h := by
    rw [transported_sdk path h]
    cases v.keeps path with
    | true => exact ⟨iff_of_true rfl rfl, nofun⟩
    | false => exact ⟨iff_of_false (ofUnknown_ne error) nofun, fun _ => rfl⟩

/-- A box around an I/O error hides an error of the SDK. -/
example : (Carried.boxed (.io (.other (.sdk .ofCancelled)))).toSdk.code = .io := by
  rfl

end Dhttp.Api
