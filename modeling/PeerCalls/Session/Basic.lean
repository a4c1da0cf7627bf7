import PeerCalls.Config
import PeerCalls.Event
import PeerCalls.Registry
import PeerCalls.Session.Error

/-!
# Sessions

A session owns every call over one network.  It is a value: an operation takes
the session and the state of the network and gives an `Outcome`, that is its
answer, the session after it and the state of the network after it.

Events are not delivered by the operation that causes them.  The operation
leaves a `Delivery` on the session, and `Session.advance` hands out its events
one by one.  Between two of them the application may use the session as it
likes, which is what a callback does; a delivery begun there lies on top of the
outer one and is finished first.  A round counts as running until its delivery
is taken away, so a round begun by a callback finds the outer one running.
-/

namespace PeerCalls

/-- A listener of the application. -/
structure ListenerId where
  number : Nat
  deriving DecidableEq

/-- A batch of events on its way to a listener. -/
structure Delivery where
  /-- The listener that was installed when the delivery began. -/
  listener : Option ListenerId
  /-- The events not handed out yet. -/
  pending : List Event
  /-- Whether a round caused the events. -/
  ofRound : Bool
  deriving DecidableEq

/-- The calls over one network and what belongs to them. -/
structure Session where
  config : Config
  registry : Registry
  /-- Who is told of events; nobody to begin with. -/
  listener : Option ListenerId
  closed : Bool
  /-- The deliveries under way, innermost first. -/
  deliveries : List Delivery
  usable : config.Usable

/-- What an operation answers and leaves behind. -/
structure Outcome (σ α : Type) where
  answer : α
  session : Session
  network : σ

namespace Session

variable {σ : Type}

/-- A session without calls. -/
def fresh (config : Config) (usable : config.Usable) : Session where
  config := config
  registry := .empty
  listener := none
  closed := false
  deliveries := []
  usable := usable

/-- Opens a session on a network that no other session has claimed. -/
def attach (network : Network σ) (config : Config) (state : σ) :
    Except OpenError Session × σ :=
  match h : config.defect? with
  | some defect => (.error (.invalidConfig defect.message), state)
  | none =>
    match network.attach state with
    | (true, after) => (.ok (fresh config h), after)
    | (false, after) => (.error .alreadyAttached, after)

/-- The call with a friend, over or not. -/
def call? (session : Session) (friend : Friend) : Option Call := session.registry.get? friend

/-- The state of the call with a friend. -/
def callState? (session : Session) (friend : Friend) : Option CallState :=
  (session.call? friend).map Call.state

/-- The session with a call put into its registry. -/
def setCall (session : Session) (call : Call) : Session :=
  { session with registry := session.registry.set call }

/-- Replaces the listener.  Batches on their way keep theirs. -/
def setListener (session : Session) (listener : ListenerId) : Session :=
  { session with listener := some listener }

/-- Whether a round is being delivered. -/
def isIterating (session : Session) : Bool := session.deliveries.any Delivery.ofRound

/-- How a log line describes the session. -/
def description (session : Session) : String :=
  Text.record "AvSession"
    [("config", session.config.description), ("closed", Text.truth session.closed)]

end Session

end PeerCalls
