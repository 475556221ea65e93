import Dhttp.Api.Errors

namespace Dhttp.Api
set_option autoImplicit true

/-- The cancellation token of an operation, that of its owner, and the first error it failed
with. -/
structure OperationState where
  cancelled : Bool
  ownerCancelled : Bool
  firstError : Option Error
  deriving DecidableEq

namespace OperationState

def new : OperationState := ⟨false, false, none⟩

def fail (state : OperationState) (error : Error) : OperationState :=
  { state with cancelled := true, firstError := some (state.firstError.getD error) }

/-- The owner's token cancels its child. -/
def cancelOwner (state : OperationState) : OperationState :=
  { state with cancelled := true, ownerCancelled := true }

def error (state : OperationState) : Error :=
  state.firstError.getD <|
    if state.ownerCancelled then .new .closed "SDK handle is closed" else .ofCancelled

end OperationState

end Dhttp.Api
