import PeerCalls.Network

/-!
# Networks that record what is asked of them

`Network.recorded` behaves like the network under it and keeps every exchange
with its answer, in the order in which they happened.  Queries about friends
change nothing and are not recorded.
-/

namespace PeerCalls

/-- One request to a network, with its answer. -/
inductive Exchange where
  | signal (friend : Friend) (signal : Signal) (result : Except NetworkError Unit)
  | media (friend : Friend) (payload : Payload) (result : Except NetworkError Unit)
  | poll (item : Option Inbound)
  | linkStable (friend : Friend) (kind : MediaKind) (rate : UInt32) (stable : Bool)
  | openMedia (friend : Friend) (rates : Rates) (result : Except NetworkError Unit)
  | closeMedia (friend : Friend)
  | attach (granted : Bool)
  | detach

namespace Exchange

/-- Whom the exchange is about, if it is about one friend. -/
def friend? : Exchange → Option Friend
  | signal friend _ _ => some friend
  | media friend _ _ => some friend
  | poll item => item.map Inbound.friend
  | linkStable friend _ _ _ => some friend
  | openMedia friend _ _ => some friend
  | closeMedia friend => some friend
  | attach _ => none
  | detach => none

end Exchange

/-- The state of a network and what was asked of it so far. -/
structure Recorded (σ : Type) where
  network : σ
  exchanges : List Exchange

namespace Recorded

variable {σ : Type}

/-- The state with one more exchange, after which the network is as given. -/
def add (recorded : Recorded σ) (exchange : Exchange) (network : σ) : Recorded σ :=
  ⟨network, recorded.exchanges ++ [exchange]⟩

@[simp] theorem network_add (recorded : Recorded σ) (exchange : Exchange) (network : σ) :
    (recorded.add exchange network).network = network := rfl

@[simp] theorem exchanges_add (recorded : Recorded σ) (exchange : Exchange) (network : σ) :
    (recorded.add exchange network).exchanges = recorded.exchanges ++ [exchange] := rfl

end Recorded

namespace Network

variable {σ : Type}

/-- The network, recording what is asked of it. -/
def recorded (network : Network σ) : Network (Recorded σ) where
  knows state := network.knows state.network
  status state := network.status state.network
  sendSignal friend signal state :=
    let (result, after) := network.sendSignal friend signal state.network
    (result, state.add (.signal friend signal result) after)
  sendMedia friend payload state :=
    let (result, after) := network.sendMedia friend payload state.network
    (result, state.add (.media friend payload result) after)
  poll state :=
    let (item, after) := network.poll state.network
    (item, state.add (.poll item) after)
  linkStable friend kind rate state :=
    let (stable, after) := network.linkStable friend kind rate state.network
    (stable, state.add (.linkStable friend kind rate stable) after)
  openMedia friend rates state :=
    let (result, after) := network.openMedia friend rates state.network
    (result, state.add (.openMedia friend rates result) after)
  closeMedia friend state :=
    state.add (.closeMedia friend) (network.closeMedia friend state.network)
  attach state :=
    let (granted, after) := network.attach state.network
    (granted, state.add (.attach granted) after)
  detach state := state.add .detach (network.detach state.network)

end Network

end PeerCalls
