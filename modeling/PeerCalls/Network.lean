import PeerCalls.Friend
import PeerCalls.Media.Payload
import PeerCalls.Signal

/-!
# The peer network under a session

A session sees the network through a few capabilities, none of which waits.
`Network σ` is a network whose state is a value of `σ`: whatever answers and
changes the state is described as a function on that state, so a statement over
all networks covers every order of answers, failures and inbound items.
-/

namespace PeerCalls

/-- Something the network received for us. -/
inductive Inbound where
  | signal (friend : Friend) (signal : Signal)
  | media (friend : Friend) (payload : Payload)
  deriving DecidableEq

namespace Inbound

/-- Who sent the item. -/
def friend : Inbound → Friend
  | signal friend _ => friend
  | media friend _ => friend

end Inbound

/-- Why the network refuses a push. -/
inductive NetworkError where
  | notConnected (friend : Friend)
  | unknownFriend (friend : Friend)
  | queueFull
  | rejected (reason : String)
  deriving DecidableEq

namespace NetworkError

def message : NetworkError → String
  | notConnected friend => friend.label ++ " is not connected"
  | unknownFriend friend => friend.label ++ " is not in the friend table"
  | queueFull => "send queue full"
  | rejected reason => "push rejected: " ++ reason

end NetworkError

/-- What a session may ask of a network with state `σ`.  The capabilities with a
default are those that a network may leave out. -/
structure Network (σ : Type) where
  /-- Whether the friend is in the friend table. -/
  knows : σ → Friend → Bool
  status : σ → Friend → ConnectionStatus
  /-- Pushes a signal onto the reliable, ordered channel. -/
  sendSignal : Friend → Signal → σ → Except NetworkError Unit × σ
  /-- Pushes a frame onto the best-effort channel. -/
  sendMedia : Friend → Payload → σ → Except NetworkError Unit × σ
  /-- Takes the next inbound item, if there is one. -/
  poll : σ → Option Inbound × σ
  /-- Whether the link to the friend can carry the stream at the rate. -/
  linkStable : Friend → MediaKind → UInt32 → σ → Bool × σ := fun _ _ _ state => (true, state)
  /-- Prepares the codecs of an answered call. -/
  openMedia : Friend → Rates → σ → Except NetworkError Unit × σ :=
    fun _ _ state => (.ok (), state)
  /-- Releases the codecs of a call, whether they were prepared or not. -/
  closeMedia : Friend → σ → σ := fun _ state => state
  /-- Claims the network for one session; false if it is claimed already. -/
  attach : σ → Bool × σ := fun state => (true, state)
  /-- Gives the network back for another session to use. -/
  detach : σ → σ := fun state => state

namespace Network

variable {σ : Type}

/-- The network with the capabilities left out that a network may leave out. -/
def essentials (network : Network σ) : Network σ where
  knows := network.knows
  status := network.status
  sendSignal := network.sendSignal
  sendMedia := network.sendMedia
  poll := network.poll

end Network

end PeerCalls
