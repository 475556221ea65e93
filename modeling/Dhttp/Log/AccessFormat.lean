import Dhttp.Log.Record
import Dhttp.Log.AddressText

namespace Dhttp.Log
open Dhttp.Lib
set_option autoImplicit true

/-- The part of `chrono` in use: times, and their format under `[%d/%b/%Y:%H:%M:%S %z]`. -/
structure Chrono where
  DateTime : Type
  format : DateTime → Bytes

inductive IpAddr where
  | v4 (ip : Ipv4Addr)
  | v6 (ip : Ipv6Addr)
  deriving DecidableEq, Repr

def IpAddr.display : IpAddr → Text
  | .v4 ip => ip.display
  | .v6 ip => ip.display

inductive ClientAddress where
  | unknown
  | ip (address : IpAddr)
  deriving DecidableEq, Repr

/-- The bytes of a token: visible ASCII without delimiters. -/
def isTokenByte (byte : UInt8) : Bool :=
  isRecordContentByte byte && !(" \"(),/:;<=>?@[\\]\x7b\x7d".toList.map Char.toUInt8).contains byte

structure Method where
  asStr : Bytes
  token : asStr ≠ [] ∧ asStr.all isTokenByte = true
  deriving DecidableEq

structure AccessLogRecord (C : Chrono) where
  completedAt : C.DateTime
  client : ClientAddress
  method : Method
  target : Option Text
  version : Version
  status : UInt16
  bodyBytes : UInt64
  referer : Option Bytes
  userAgent : Option Bytes

inductive FormattedClient where
  | address
  | identity (name : Option Text)

def missingField : Element := .bytes ['-'.toUInt8]

def textElement (s : Text) : Element := .bytes (utf8Bytes s)

def optionalElement (convert : α → Element) (value : Option α) : Element :=
  value.elim (.bytes ['-'.toUInt8]) convert

def ClientAddress.element : ClientAddress → Element
  | .unknown => .bytes ['-'.toUInt8]
  | .ip address => textElement address.display

def httpVersion : Version → Except FormatError Bytes
  | .http09 => .ok ("HTTP/0.9".toList.map Char.toUInt8)
  | .http10 => .ok ("HTTP/1.0".toList.map Char.toUInt8)
  | .http11 => .ok ("HTTP/1.1".toList.map Char.toUInt8)
  | .http2 => .ok ("HTTP/2".toList.map Char.toUInt8)
  | .http3 => .ok ("HTTP/3".toList.map Char.toUInt8)
  | .other => .error (.unsupportedHttpVersion .other)

def versionElement (version : Version) : Element :=
  match httpVersion version with
  | .ok value => .bytes value
  | .error _ => .unsupported version

variable {C : Chrono}

def accessRequestLine (record : AccessLogRecord C) : Element :=
  .seq (.bytes record.method.asStr) (.seq (.bytes [' '.toUInt8])
    (.seq (optionalElement textElement record.target) (.seq (.bytes [' '.toUInt8])
      (versionElement record.version))))

namespace DefaultAccessFormatter

def clientElement (record : AccessLogRecord C) : FormattedClient → Element
  | .address => record.client.element
  | .identity name => optionalElement textElement name

def operations (record : AccessLogRecord C) (client : FormattedClient) : List Operation :=
  [.element (clientElement record client),
    .literal [' '.toUInt8], .element missingField,
    .literal [' '.toUInt8], .element missingField,
    .literal [' '.toUInt8], .element (.bytes (C.format record.completedAt)),
    .literal [' '.toUInt8], .element (.quoted (accessRequestLine record)),
    .literal [' '.toUInt8], .element (textElement (decimal record.status.toNat)),
    .literal [' '.toUInt8], .element (textElement (decimal record.bodyBytes.toNat)),
    .literal [' '.toUInt8], .element (.quoted (optionalElement .bytes record.referer)),
    .literal [' '.toUInt8], .element (.quoted (optionalElement .bytes record.userAgent))]

def formatWithClient (record : AccessLogRecord C) (client : FormattedClient) :
    Except FormatError Bytes :=
  build (operations record client)

/-- The client is shown by its address. -/
def format (record : AccessLogRecord C) : Except FormatError Bytes :=
  formatWithClient record .address

def formatWithClientIdentity (record : AccessLogRecord C) (identity : Option Text) :
    Except FormatError Bytes :=
  formatWithClient record (.identity identity)

end DefaultAccessFormatter

end Dhttp.Log
