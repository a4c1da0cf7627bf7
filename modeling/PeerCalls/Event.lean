import PeerCalls.Call.State
import PeerCalls.Friend
import PeerCalls.Media.Payload

/-!
# Events

What a session reports to the application.  The events of one batch are
delivered in three phases: what happened to calls, then received frames, then
requests for frames.  Inside a phase the order in which they arose is kept.
-/

namespace PeerCalls

/-- The outcome of a change of a sending rate. -/
structure RateReport where
  friend : Friend
  kind : MediaKind
  /-- Whether the link carries the rate that was asked for. -/
  stable : Bool
  /-- The rate in force afterwards. -/
  rate : UInt32
  deriving DecidableEq

/-- Something the application is told. -/
inductive Event where
  /-- The friend calls, offering the given streams. -/
  | call (friend : Friend) (offered : Streams Bool)
  /-- The call with the friend changed, by the friend or by the network. -/
  | callState (friend : Friend) (state : CallState)
  | rateReport (report : RateReport)
  /-- The friend sent a frame. -/
  | frame (friend : Friend) (payload : Payload)
  /-- The next frame for the friend should be sent. -/
  | frameRequest (friend : Friend) (kind : MediaKind)
  deriving DecidableEq

/-- When an event of a batch is delivered. -/
inductive Phase where
  | calls
  | frames
  | requests
  deriving DecidableEq

namespace Event

/-- Whom the event is about. -/
def friend : Event → Friend
  | call friend _ => friend
  | callState friend _ => friend
  | rateReport report => report.friend
  | frame friend _ => friend
  | frameRequest friend _ => friend

/-- The written name of what the event tells. -/
def name : Event → String
  | call _ _ => "Call"
  | callState _ _ => "CallState"
  | rateReport _ => "BitRateStatus"
  | frame _ (.audio _) => "AudioFrame"
  | frame _ (.video _) => "VideoFrame"
  | frameRequest _ .audio => "RequestAudioFrame"
  | frameRequest _ .video => "RequestVideoFrame"

def phase : Event → Phase
  | call _ _ => .calls
  | callState _ _ => .calls
  | rateReport _ => .calls
  | frame _ _ => .frames
  | frameRequest _ _ => .requests

/-- The events of one phase, in the order in which they arose. -/
def inPhase (phase : Phase) (events : List Event) : List Event :=
  events.filter fun event => event.phase = phase

/-- The order in which a batch is delivered. -/
def deliveryOrder (events : List Event) : List Event :=
  inPhase .calls events ++ inPhase .frames events ++ inPhase .requests events

end Event

end PeerCalls
