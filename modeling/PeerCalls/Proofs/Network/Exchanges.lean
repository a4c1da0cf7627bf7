import PeerCalls.Network.Recorded

/-!
# What is asked of a recording network

A request to a recording network adds one exchange with the answer that the network
under it gave, and changes nothing else of the record.  So what an operation asked is
read off the requests that it made, one after the other.
-/

namespace PeerCalls

/-- The signal that the network took for a friend, if the exchange is such a push. -/
def Exchange.accepted? : Exchange → Option (Friend × Signal)
  | signal friend said (.ok ()) => some (friend, said)
  | _ => none

namespace Network

variable {σ : Type} {network : Network σ} {friend : Friend} {state after : Recorded σ}
  {result : Except NetworkError Unit}

theorem exchanges_of_sendSignal {signal : Signal}
    (h : network.recorded.sendSignal friend signal state = (result, after)) :
    after.exchanges = state.exchanges ++ [.signal friend signal result] := by
  obtain ⟨rfl, rfl⟩ := Prod.mk.inj h
  rfl

theorem exchanges_of_openMedia {rates : Rates}
    (h : network.recorded.openMedia friend rates state = (result, after)) :
    after.exchanges = state.exchanges ++ [.openMedia friend rates result] := by
  obtain ⟨rfl, rfl⟩ := Prod.mk.inj h
  rfl

@[simp] theorem exchanges_closeMedia (network : Network σ) (friend : Friend)
    (state : Recorded σ) :
    (network.recorded.closeMedia friend state).exchanges =
      state.exchanges ++ [.closeMedia friend] := rfl

theorem exchanges_of_linkStable {kind : MediaKind} {rate : UInt32} {stable : Bool}
    (h : network.recorded.linkStable friend kind rate state = (stable, after)) :
    after.exchanges = state.exchanges ++ [.linkStable friend kind rate stable] := by
  obtain ⟨rfl, rfl⟩ := Prod.mk.inj h
  rfl

end Network

end PeerCalls
