import PeerCalls.Network

/-!
# Networks with planned failures

`Network.scripted` fails the next pushes of a kind with the errors planned for
them, first planned first, without asking the network under it; when no failure
is planned any more, pushes go through.
-/

namespace PeerCalls

/-- The failures to come, for each kind of push. -/
structure PlannedFailures where
  signal : List NetworkError
  media : List NetworkError
  codec : List NetworkError

namespace PlannedFailures

def none : PlannedFailures := ⟨[], [], []⟩

end PlannedFailures

/-- The state of a network and the failures to come. -/
structure Scripted (σ : Type) where
  network : σ
  planned : PlannedFailures

namespace Network

variable {σ : Type}

/-- The network, failing as planned. -/
def scripted (network : Network σ) : Network (Scripted σ) where
  knows state := network.knows state.network
  status state := network.status state.network
  sendSignal friend signal state :=
    match state.planned.signal with
    | error :: later => (.error error, { state with planned.signal := later })
    | [] =>
      let (result, after) := network.sendSignal friend signal state.network
      (result, { state with network := after })
  sendMedia friend payload state :=
    match state.planned.media with
    | error :: later => (.error error, { state with planned.media := later })
    | [] =>
      let (result, after) := network.sendMedia friend payload state.network
      (result, { state with network := after })
  poll state :=
    let (item, after) := network.poll state.network
    (item, { state with network := after })
  linkStable friend kind rate state :=
    let (stable, after) := network.linkStable friend kind rate state.network
    (stable, { state with network := after })
  openMedia friend rates state :=
    match state.planned.codec with
    | error :: later => (.error error, { state with planned.codec := later })
    | [] =>
      let (result, after) := network.openMedia friend rates state.network
      (result, { state with network := after })
  closeMedia friend state := { state with network := network.closeMedia friend state.network }
  attach state :=
    let (granted, after) := network.attach state.network
    (granted, { state with network := after })
  detach state := { state with network := network.detach state.network }

end Network

end PeerCalls
