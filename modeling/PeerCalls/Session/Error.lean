import PeerCalls.Call.State
import PeerCalls.Media.FrameError
import PeerCalls.Network

/-!
# Why an operation of a session fails

One type of errors per operation.  The class of an error tells the caller
whether it pays to try again.
-/

namespace PeerCalls

/-- How a failure should be taken. -/
inductive ErrorClass where
  /-- The caller asked for something that cannot be done as things are. -/
  | caller
  /-- The same request may succeed in a later round. -/
  | transient
  | resourceExhausted
  deriving DecidableEq

namespace ErrorClass

/-- The written name of a class. -/
def name : ErrorClass → String
  | caller => "Caller"
  | transient => "Transient"
  | resourceExhausted => "ResourceExhausted"

end ErrorClass

/-- Why a session cannot be opened. -/
inductive OpenError where
  | invalidConfig (reason : String)
  | alreadyAttached
  deriving DecidableEq

/-- Why a call cannot be placed. -/
inductive CallError where
  | outOfMemory
  | friendNotFound (friend : Friend)
  | friendNotConnected (friend : Friend)
  | alreadyInCall (friend : Friend)
  | unsupportedRate (rate : UInt32)
  | signaling (cause : NetworkError)
  | closed
  deriving DecidableEq

/-- Why a call cannot be answered. -/
inductive AnswerError where
  | friendNotFound (friend : Friend)
  | friendNotCalling (friend : Friend)
  | unsupportedRate (rate : UInt32)
  | codecSetup (reason : String)
  | signaling (cause : NetworkError)
  | closed
  deriving DecidableEq

/-- Why a command cannot be given. -/
inductive ControlError where
  | friendNotFound (friend : Friend)
  | friendNotInCall (friend : Friend)
  | invalidTransition (state : CallState) (command : Control)
  | alreadyPaused (friend : Friend)
  | signaling (cause : NetworkError)
  | closed
  deriving DecidableEq

/-- Why a rate cannot be changed. -/
inductive RateError where
  | unsupportedRate (rate : UInt32)
  | friendNotFound (friend : Friend)
  | friendNotInCall (friend : Friend)
  | signaling (cause : NetworkError)
  | closed
  deriving DecidableEq

/-- Why a frame cannot be sent. -/
inductive SendError where
  | missing (part : String)
  | friendNotFound (friend : Friend)
  | friendNotInCall (friend : Friend)
  | invalid (reason : String)
  | streamDisabled
  | outOfMemory
  | rejected (cause : NetworkError)
  | closed
  deriving DecidableEq

namespace OpenError

def message : OpenError → String
  | invalidConfig reason => "invalid configuration: " ++ reason
  | alreadyAttached => "peer network already has an AV session attached"

def errorClass : OpenError → ErrorClass
  | invalidConfig _ => .caller
  | alreadyAttached => .caller

end OpenError

namespace CallError

def message : CallError → String
  | outOfMemory => "allocation failed while registering call"
  | friendNotFound friend => friend.label ++ " not found"
  | friendNotConnected friend => friend.label ++ " is not connected"
  | alreadyInCall friend => friend.label ++ " is already in a call"
  | unsupportedRate rate => "unsupported bit rate: " ++ Nat.repr rate.toNat ++ " kb/s"
  | signaling cause => "signaling failed: " ++ cause.message
  | closed => "av session is closed"

def errorClass : CallError → ErrorClass
  | outOfMemory => .resourceExhausted
  | signaling _ => .transient
  | _ => .caller

end CallError

namespace AnswerError

def message : AnswerError → String
  | friendNotFound friend => friend.label ++ " not found"
  | friendNotCalling friend => friend.label ++ " is not calling"
  | unsupportedRate rate => "unsupported bit rate: " ++ Nat.repr rate.toNat ++ " kb/s"
  | codecSetup reason => "codec initialisation failed: " ++ reason
  | signaling cause => "signaling failed: " ++ cause.message
  | closed => "av session is closed"

def errorClass : AnswerError → ErrorClass
  | codecSetup _ => .transient
  | signaling _ => .transient
  | _ => .caller

end AnswerError

namespace ControlError

def message : ControlError → String
  | friendNotFound friend => friend.label ++ " not found"
  | friendNotInCall friend => friend.label ++ " is not in a call"
  | invalidTransition state command =>
    "cannot apply " ++ command.label ++ " in state " ++ state.name
  | alreadyPaused friend => "call with " ++ friend.label ++ " is already paused"
  | signaling cause => "signaling failed: " ++ cause.message
  | closed => "av session is closed"

def errorClass : ControlError → ErrorClass
  | signaling _ => .transient
  | _ => .caller

end ControlError

namespace RateError

def message : RateError → String
  | unsupportedRate rate => "unsupported bit rate: " ++ Nat.repr rate.toNat ++ " kb/s"
  | friendNotFound friend => friend.label ++ " not found"
  | friendNotInCall friend => friend.label ++ " is not in a call"
  | signaling cause => "signaling failed: " ++ cause.message
  | closed => "av session is closed"

def errorClass : RateError → ErrorClass
  | signaling _ => .transient
  | _ => .caller

end RateError

namespace SendError

def message : SendError → String
  | missing part => "mandatory frame data missing: " ++ part
  | friendNotFound friend => friend.label ++ " not found"
  | friendNotInCall friend => friend.label ++ " is not in a call"
  | invalid reason => "invalid frame: " ++ reason
  | streamDisabled => "stream disabled for this call"
  | outOfMemory => "allocation failed while copying frame"
  | rejected cause => "media push rejected: " ++ cause.message
  | closed => "av session is closed"

def errorClass : SendError → ErrorClass
  | rejected _ => .transient
  | outOfMemory => .resourceExhausted
  | _ => .caller

/-- How a fault of a frame appears when the frame is sent. -/
def ofFrame : FrameError → SendError
  | .missing part => missing part
  | .outOfMemory => outOfMemory
  | fault => invalid fault.message

end SendError

end PeerCalls
