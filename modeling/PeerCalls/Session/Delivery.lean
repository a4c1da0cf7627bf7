import PeerCalls.Session.Basic

/-!
# Delivering events

A batch is delivered to the listener that is installed when its delivery
begins, whole and in phase order.  `advance` takes one step of the innermost
delivery: it hands out the next event, or takes the delivery away when nothing
is left of it.
-/

namespace PeerCalls

/-- A step of a delivery. -/
inductive DeliveryStep where
  /-- The event goes to the listener, if there is one. -/
  | handOut (listener : Option ListenerId) (event : Event)
  /-- The delivery is over. -/
  | finish (delivery : Delivery)

namespace Session

/-- Begins to deliver a batch; a batch without events is none. -/
def dispatch (session : Session) (events : List Event) (ofRound : Bool) : Session :=
  if events = [] then session
  else
    { session with
      deliveries := ⟨session.listener, Event.deliveryOrder events, ofRound⟩ :: session.deliveries }

/-- The next step of the innermost delivery, and the session after it. -/
def advance (session : Session) : Option (DeliveryStep × Session) :=
  match session.deliveries with
  | [] => none
  | delivery :: outer =>
    match delivery.pending with
    | [] => some (.finish delivery, { session with deliveries := outer })
    | event :: later =>
      some (.handOut delivery.listener event,
        { session with deliveries := { delivery with pending := later } :: outer })

/-- How many deliveries are under way. -/
def depth (session : Session) : Nat := session.deliveries.length

end Session

end PeerCalls
