import PeerCalls.Session.Basic

/-!
# Handling what a friend sends

Each inbound item changes at most the sender's call and adds at most one event.
What does not fit the call is ignored, except an answer: an answer to a call
that is not an outgoing ringing one ends that call with a fault.
-/

namespace PeerCalls

/-- The calls and the events of a round so far. -/
structure Progress where
  registry : Registry
  events : List Event

namespace Progress

/-- One more event, without a change of the calls. -/
def report (progress : Progress) (event : Event) : Progress :=
  { progress with events := progress.events ++ [event] }

/-- A changed call, whose new state is reported. -/
def change (progress : Progress) (call : Call) : Progress :=
  { registry := progress.registry.set call
    events := progress.events ++ [.callState call.friend call.state] }

/-- A friend calls.  While a call with the friend is not over this means nothing. -/
def invited (progress : Progress) (friend : Friend) (rates : Rates) : Progress :=
  match progress.registry.create (.incoming friend rates) with
  | .ok registry => { progress with registry }.report (.call friend rates.flow)
  | .error _ => progress

/-- A friend answers. -/
def answered (progress : Progress) (friend : Friend) (rates : Rates) : Progress :=
  match progress.registry.live? friend with
  | none => progress
  | some call =>
    match call.after? (.remoteAnswered rates) with
    | some running => progress.change running
    | none => progress.change call.faulted

/-- A friend pauses, resumes or hangs up. -/
def transitioned (progress : Progress) (friend : Friend) (transition : Transition) : Progress :=
  match progress.registry.live? friend with
  | none => progress
  | some call =>
    match call.after? transition with
    | some after => progress.change after
    | none => progress

/-- A friend gives a command.  Which of its streams a friend withholds is its own affair. -/
def commanded (progress : Progress) (friend : Friend) : Control → Progress
  | .cancel => progress.transitioned friend .cancel
  | .pause => progress.transitioned friend .pause
  | .resume => progress.transitioned friend .resume
  | _ => progress

/-- A friend announces a rate of its own. -/
def announced (progress : Progress) (friend : Friend) (kind : MediaKind) (rate : UInt32) :
    Progress :=
  match progress.registry.live? friend with
  | none => progress
  | some call =>
    { progress with
      registry := progress.registry.set { call with peerRates := call.peerRates.set rate kind } }

/-- Whether a received frame may reach the application: its call runs and the
frame is valid. -/
def admits (registry : Registry) (config : Config) (friend : Friend) (payload : Payload) : Bool :=
  match registry.live? friend with
  | none => false
  | some call => call.state.isEstablished && (payload.validate config).isOk

/-- A friend sends a frame. -/
def framed (progress : Progress) (config : Config) (friend : Friend) (payload : Payload) :
    Progress :=
  if admits progress.registry config friend payload then progress.report (.frame friend payload)
  else progress

/-- The progress after one inbound item. -/
def handle (progress : Progress) (config : Config) : Inbound → Progress
  | .signal friend (.invite rates) => progress.invited friend rates
  | .signal friend (.answer rates) => progress.answered friend rates
  | .signal friend (.control command) => progress.commanded friend command
  | .signal friend (.bitRate kind rate) => progress.announced friend kind rate
  | .media friend payload => progress.framed config friend payload

end Progress

end PeerCalls
