import PeerCalls.Session.Basic

/-!
# Sending frames

A frame goes out when its call runs, the frame is valid and its stream flows
and is not withheld.  What is pushed is the owned frame.  Sending changes no
call, whatever becomes of the push.
-/

namespace PeerCalls.Session

variable {σ : Type}

/-- The call that a frame is for, or why there is none. -/
def callForFrame (network : Network σ) (session : Session) (state : σ) (friend : Friend) :
    Except SendError Call :=
  if !network.knows state friend then .error (.friendNotFound friend)
  else
    match (session.registry.live? friend).filter fun call => !call.state.isRinging with
    | none => .error (.friendNotInCall friend)
    | some call => .ok call

/-- What is pushed for a frame, or why nothing is. -/
def sendable (network : Network σ) (session : Session) (state : σ) (friend : Friend)
    (payload : Payload) : Except SendError Payload :=
  if session.closed then .error .closed
  else
    match payload.missingPart? with
    | some part => .error (.missing part)
    | none =>
      match session.callForFrame network state friend with
      | .error refusal => .error refusal
      | .ok call =>
        match payload.validate session.config with
        | .error fault => .error (.ofFrame fault)
        | .ok () =>
          if !call.canSend payload.kind then .error .streamDisabled
          else
            match payload.owned session.config with
            | .error fault => .error (.ofFrame fault)
            | .ok owned => .ok owned

/-- Sends a frame to the friend. -/
def sendFrame (network : Network σ) (session : Session) (state : σ) (friend : Friend)
    (payload : Payload) : Outcome σ (Except SendError Unit) :=
  match session.sendable network state friend payload with
  | .error refusal => ⟨.error refusal, session, state⟩
  | .ok owned =>
    match network.sendMedia friend owned state with
    | (.ok (), after) => ⟨.ok (), session, after⟩
    | (.error cause, after) => ⟨.error (.rejected cause), session, after⟩

end PeerCalls.Session
