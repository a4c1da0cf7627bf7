import PeerCalls.Call.State
import PeerCalls.Friend
import PeerCalls.Text.Record

/-!
# Calls and how they change

A call remembers who placed it, the rates of both sides, what it was doing
before a pause and which streams are withheld.  `Call.after?` is the whole
state machine: it gives the call after a transition, or nothing when the
transition does not fit the state.
-/

namespace PeerCalls

/-- Who placed the call. -/
inductive Direction where
  | outgoing
  | incoming
  deriving DecidableEq

namespace Direction

def name : Direction → String
  | outgoing => "Outgoing"
  | incoming => "Incoming"

end Direction

/-- What can happen to a call. -/
inductive Transition where
  /-- We answered, and send at these rates. -/
  | localAnswered (rates : Rates)
  /-- The friend answered, and sends at these rates. -/
  | remoteAnswered (rates : Rates)
  | pause
  | resume
  /-- One of our rates changed. -/
  | ratesChanged
  /-- We cancelled or the friend hung up. -/
  | cancel
  /-- The call cannot go on. -/
  | fault
  deriving DecidableEq

namespace Transition

/-- How messages describe the transition. -/
def description : Transition → String
  | localAnswered rates => Text.record "LocalAnswered" rates.fields
  | remoteAnswered rates => Text.record "RemoteAnswered" rates.fields
  | pause => "Pause"
  | resume => "Resume"
  | ratesChanged => "RatesChanged"
  | cancel => "Cancel"
  | fault => "Fault"

end Transition

/-- One call with one friend. -/
structure Call where
  friend : Friend
  direction : Direction
  state : CallState
  /-- The rates we send at. -/
  rates : Rates
  /-- The rates the friend announced last. -/
  peerRates : Rates
  /-- The state to go back to when a pause ends. -/
  pausedFrom : Option CallState
  /-- The streams we mute or hide. -/
  withheld : Streams Bool
  deriving DecidableEq

namespace Call

/-- A call that we place. -/
def outgoing (friend : Friend) (rates : Rates) : Call where
  friend := friend
  direction := .outgoing
  state := .ringing
  rates := rates
  peerRates := .zero
  pausedFrom := none
  withheld := .both false

/-- A call that a friend places. -/
def incoming (friend : Friend) (peerRates : Rates) : Call where
  friend := friend
  direction := .incoming
  state := .ringing
  rates := .zero
  peerRates := peerRates
  pausedFrom := none
  withheld := .both false

/-- Whether the call is not over. -/
def isLive (call : Call) : Bool := !call.state.isTerminal

def isInitiator (call : Call) : Bool := call.direction = .outgoing

/-- A ringing call that we may answer. -/
def isAnswerable (call : Call) : Bool :=
  call.state.isRinging && call.direction = .incoming

/-- The state that our rates call for while the call runs. -/
def classification (call : Call) : CallState := .running call.rates

/-- Whether frames of the stream may be sent right now. -/
def canSend (call : Call) (kind : MediaKind) : Bool :=
  call.state.sends kind && !call.withheld.get kind

/-- The call, over in the given state. -/
def finish (call : Call) (state : CallState) : Call :=
  { call with state, pausedFrom := none }

/-- The call after a transition, if the transition fits. -/
def after? (call : Call) : Transition → Option Call
  | .localAnswered rates =>
    if call.state.isRinging && call.direction = .incoming then
      some { call with rates, state := .running rates }
    else
      none
  | .remoteAnswered rates =>
    if call.state.isRinging && call.direction = .outgoing then
      some { call with peerRates := rates, state := call.classification }
    else
      none
  | .pause =>
    if call.state.isEstablished then
      some { call with pausedFrom := some call.state, state := .paused }
    else
      none
  | .resume =>
    if call.state.isPaused then
      some { call with state := call.pausedFrom.getD call.classification, pausedFrom := none }
    else
      none
  | .ratesChanged =>
    if call.state.isEstablished then
      some { call with state := call.classification }
    else if call.state.isPaused then
      some { call with pausedFrom := some call.classification }
    else
      none
  | .cancel => if call.isLive then some (call.finish .ended) else none
  | .fault => if call.isLive then some (call.finish .failed) else none

/-- The call after a fault; a call that is over stays as it is. -/
def faulted (call : Call) : Call := (call.after? .fault).getD call

/-- No transition changes whom the call is with. -/
theorem friend_of_after? {call after : Call} {transition : Transition}
    (h : call.after? transition = some after) : after.friend = call.friend := by
  cases transition <;> simp only [after?] at h <;> grind [finish]

@[simp] theorem friend_faulted (call : Call) : call.faulted.friend = call.friend := by
  unfold faulted
  cases h : call.after? .fault with
  | none => rfl
  | some after => exact friend_of_after? h

end Call

/-- A transition that does not fit the state of the call. -/
structure InvalidTransition where
  state : CallState
  attempted : Transition
  deriving DecidableEq

namespace InvalidTransition

def message (invalid : InvalidTransition) : String :=
  "invalid transition " ++ invalid.attempted.description ++ " in state " ++ invalid.state.name

end InvalidTransition

/-- The call after a transition, or why there is none. -/
def Call.apply (call : Call) (transition : Transition) : Except InvalidTransition Call :=
  match call.after? transition with
  | some after => .ok after
  | none => .error ⟨call.state, transition⟩

end PeerCalls
