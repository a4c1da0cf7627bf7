import PeerCalls.Session.Basic

/-!
# Commands for a call

A command is pushed to the friend and then takes effect on our side; a command
that would change nothing is refused before anything is pushed.  Hanging up
always succeeds on our side, whether the friend can be told or not.
-/

namespace PeerCalls

/-- The stream that a command withholds or sends again. -/
def Control.withholding? : Control → Option (MediaKind × Bool)
  | muteAudio => some (.audio, true)
  | unmuteAudio => some (.audio, false)
  | hideVideo => some (.video, true)
  | showVideo => some (.video, false)
  | _ => none

/-- The transition that a command stands for. -/
def Control.transition? : Control → Option Transition
  | resume => some .resume
  | pause => some .pause
  | cancel => some .cancel
  | _ => none

/-- Why a command makes no sense for the call. -/
def Call.refusal? (call : Call) (command : Control) : Option ControlError :=
  let invalid := some (ControlError.invalidTransition call.state command)
  match command with
  | .cancel => none
  | .pause => if call.state.isPaused then some (.alreadyPaused call.friend) else none
  | .resume => if call.state.isPaused then none else invalid
  | .muteAudio => if call.withheld.audio then invalid else none
  | .unmuteAudio => if call.withheld.audio then none else invalid
  | .hideVideo => if call.withheld.video then invalid else none
  | .showVideo => if call.withheld.video then none else invalid

/-- The call after a command. -/
def Call.obey? (call : Call) (command : Control) : Option Call :=
  match command.withholding? with
  | some (kind, withheld) => some { call with withheld := call.withheld.set withheld kind }
  | none => command.transition?.bind call.after?

namespace Session

variable {σ : Type}

/-- The call that a command is for, or why there is none. -/
def controllable (network : Network σ) (session : Session) (state : σ) (friend : Friend)
    (command : Control) : Except ControlError Call :=
  if session.closed then .error .closed
  else if !network.knows state friend then .error (.friendNotFound friend)
  else
    match session.registry.live? friend with
    | none => .error (.friendNotInCall friend)
    | some call =>
      if call.state.isRinging && command ≠ .cancel then .error (.friendNotInCall friend)
      else
        match call.refusal? command with
        | some refusal => .error refusal
        | none => .ok call

/-- The session after a command took effect on one of its calls. -/
def obeying (session : Session) (state : σ) (call : Call) (command : Control) :
    Outcome σ (Except ControlError CallState) :=
  match call.obey? command with
  | some after => ⟨.ok after.state, session.setCall after, state⟩
  | none => ⟨.error (.invalidTransition call.state command), session, state⟩

/-- Gives a command to the call with the friend. -/
def control (network : Network σ) (session : Session) (state : σ) (friend : Friend)
    (command : Control) : Outcome σ (Except ControlError CallState) :=
  match session.controllable network state friend command with
  | .error refusal => ⟨.error refusal, session, state⟩
  | .ok call =>
    match network.sendSignal friend (.control command) state with
    | (.ok (), after) => session.obeying after call command
    | (.error cause, after) =>
      if command = .cancel then session.obeying after call command
      else ⟨.error (.signaling cause), session, after⟩

end Session

end PeerCalls
