import Mathlib.Data.Nat.Notation

namespace Dhttp.Api
set_option autoImplicit true

abbrev Bytes := List UInt8

/-- The stable categories of the SDK's errors. -/
inductive ErrorCode where
  | invalidArgument
  | identity
  | remoteIdentityChanged
  | alreadyListening
  | network
  | protocol
  | io
  | cancelled
  | closed
  | deadlineExceeded
  | bodyInUse
  | producer
  deriving Repr, DecidableEq

structure Error where
  code : ErrorCode
  message : String
  protocolCode : Option UInt64
  deriving Repr, DecidableEq

def Error.new (code : ErrorCode) (message : String) : Error := ⟨code, message, none⟩

def Error.ofCancelled : Error := .new .cancelled "operation cancelled"

def invalid (message : String) : Error := .new .invalidArgument message

end Dhttp.Api
