import Dhttp.Log.AccessFormat
import Dhttp.Home.Certificate

namespace Dhttp.Log
open Dhttp.Lib
set_option autoImplicit true

/-- The library that parses certificates, with what the code reads of one, and the digest. -/
structure X509 (C : Chrono) where
  Certificate : Type
  Error : Type
  fromDer : Bytes → Except Error (Bytes × Certificate)
  /-- The organizations of the issuer; none for one that is no text. -/
  iterOrganization : Certificate → List (Option Text)
  iterCommonName : Certificate → List (Option Text)
  /-- Client and server authentication. -/
  extendedKeyUsage : Certificate → Except Error (Option (Bool × Bool))
  notAfter : Certificate → Int
  fromTimestamp : Int → Option C.DateTime
  sha256 : Bytes → Bytes
  sha256_length : ∀ der, (sha256 der).length = 32

inductive CertificateAction where
  | apply
  | renew
  | replace
  deriving DecidableEq, Repr

inductive CertificateUsage where
  | clientOnly
  | serverOnly
  | clientAndServer
  | unrestricted
  | other
  deriving DecidableEq, Repr

structure Sha256Fingerprint where
  asBytes : Bytes
  length : asBytes.length = 32
  deriving DecidableEq

structure CertificateLogRecord (C : Chrono) where
  recordedAt : C.DateTime
  action : CertificateAction
  issuer : Option Text
  usage : CertificateUsage
  chain : Home.CertificateChainKey
  expiresAt : C.DateTime
  fingerprint : Sha256Fingerprint

section Derivation

variable {C : Chrono} (X : X509 C)

inductive CertificateLogRecordFromLeafDerError where
  | parseCertificate (source : X.Error)
  | trailingData (len : Nat)
  | extendedKeyUsage (source : X.Error)
  | expiryOutOfRange

def firstValidIssuer (certificate : X.Certificate) : Option Text :=
  ((X.iterOrganization certificate).filterMap id ++
    (X.iterCommonName certificate).filterMap id).head?

def usageOf : Option (Bool × Bool) → CertificateUsage
  | none => .unrestricted
  | some (true, true) => .clientAndServer
  | some (true, false) => .clientOnly
  | some (false, true) => .serverOnly
  | some (false, false) => .other

def CertificateLogRecord.fromLeafDer (recordedAt : C.DateTime) (action : CertificateAction)
    (chain : Home.CertificateChainKey) (leafDer : Bytes) :
    Except (CertificateLogRecordFromLeafDerError X) (CertificateLogRecord C) := do
  let (remaining, certificate) ← (X.fromDer leafDer).mapError .parseCertificate
  if remaining ≠ [] then .error (.trailingData remaining.length)
  else
    let usage ← (X.extendedKeyUsage certificate).mapError .extendedKeyUsage
    match X.fromTimestamp (X.notAfter certificate) with
    | none => .error .expiryOutOfRange
    | some expiresAt =>
      .ok ⟨recordedAt, action, firstValidIssuer X certificate, usageOf usage, chain, expiresAt,
        ⟨X.sha256 leafDer, X.sha256_length leafDer⟩⟩

end Derivation

def CertificateAction.text : CertificateAction → Text
  | .apply => "APPLY".toList
  | .renew => "RENEW".toList
  | .replace => "REPLACE".toList

def CertificateUsage.text : CertificateUsage → Text
  | .clientOnly => "client only".toList
  | .serverOnly => "server only".toList
  | .clientAndServer => "client and server".toList
  | .unrestricted => "unrestricted".toList
  | .other => "other".toList

/-- `CertificateUsage::as_str` of the chain. -/
def chainUsageText : Home.CertificateUsage → Text
  | .clientOnly => "client".toList
  | .clientAndServer => "client and server".toList

def chainDisplay (chain : Home.CertificateChainKey) : Text :=
  chainUsageText chain.usage ++ ':' :: decimal chain.sequence.get

def hexBytes (bytes : Bytes) : Bytes :=
  bytes.flatMap fun byte : UInt8 => [hexDigit (byte >>> 4), hexDigit (byte &&& 0x0F)]

/-- `sha256:` -/
def digestName : Bytes := "sha256:".toList.map Char.toUInt8

def Sha256Fingerprint.encoded (fingerprint : Sha256Fingerprint) : Bytes :=
  digestName ++ hexBytes fingerprint.asBytes

namespace DefaultCertificateFormatter

variable {C : Chrono}

def operations (record : CertificateLogRecord C) : List Operation :=
  [.element (.bytes (C.format record.recordedAt)),
    .literal [' '.toUInt8], .element (.bytes (record.action.text.map Char.toUInt8)),
    .literal [' '.toUInt8],
    .element (optionalElement (fun issuer => .quoted (textElement issuer)) record.issuer),
    .literal [' '.toUInt8], .element (.quoted (.bytes (record.usage.text.map Char.toUInt8))),
    .literal [' '.toUInt8], .element (textElement (chainDisplay record.chain)),
    .literal [' '.toUInt8], .element (.bytes (C.format record.expiresAt)),
    .literal [' '.toUInt8], .element (.quoted (.bytes record.fingerprint.encoded))]

def format (record : CertificateLogRecord C) : Except FormatError Bytes :=
  build (operations record)

end DefaultCertificateFormatter

end Dhttp.Log
