import PeerCalls.Proofs.Loopback.Nodes
import PeerCalls.Proofs.Session.Isolation

/-!
# Networks that hand out an inbox

`Network.Feeds` describes a network to which nothing happens but what a session does in its
rounds: polling takes the oldest item of an inbox, and neither polling nor the release of
codecs changes anything else that a round looks at.  The nodes of a hub are like this.

On such a network a round takes the first items of the inbox, as many as its limit allows, and
handles them one after the other.
-/

namespace PeerCalls

namespace Network

variable {σ : Type}

/-- Whether the friend is known and connected. -/
def reaches (network : Network σ) (state : σ) (friend : Friend) : Bool :=
  network.knows state friend && (network.status state friend).isConnected

/-- Polling takes the oldest item of the inbox, and whom the network reaches stays as it is. -/
structure Feeds (network : Network σ) (inbox : σ → List Inbound) : Prop where
  poll_head : ∀ state, (network.poll state).1 = (inbox state).head?
  poll_tail : ∀ state, inbox (network.poll state).2 = (inbox state).tail
  inbox_closeMedia : ∀ friend state, inbox (network.closeMedia friend state) = inbox state
  reaches_poll : ∀ state, network.reaches (network.poll state).2 = network.reaches state
  reaches_closeMedia : ∀ friend state,
    network.reaches (network.closeMedia friend state) = network.reaches state

variable {network : Network σ} {inbox : σ → List Inbound}

/-- Taking inbound items is handling the first ones of the inbox. -/
theorem Feeds.takeInbound (h : network.Feeds inbox) (config : Config) (limit : Nat)
    (progress : Progress) (state : σ) :
    (Progress.takeInbound network config limit progress state).1 =
        progress.handleAll config ((inbox state).take limit) ∧
      inbox (Progress.takeInbound network config limit progress state).2 =
        (inbox state).drop limit ∧
      network.reaches (Progress.takeInbound network config limit progress state).2 =
        network.reaches state := by
  induction limit generalizing progress state with
  | zero => exact ⟨rfl, rfl, rfl⟩
  | succ limit ih =>
      have hhead := h.poll_head state
      have htail := h.poll_tail state
      have hreaches := h.reaches_poll state
      unfold Progress.takeInbound
      rcases hpoll : network.poll state with ⟨received, after⟩
      rw [hpoll] at hhead htail hreaches
      cases hinbox : inbox state with
      | nil =>
          rw [hinbox] at hhead htail
          obtain rfl : received = none := hhead
          exact ⟨rfl, htail, hreaches⟩
      | cons item later =>
          rw [hinbox] at hhead htail
          obtain rfl : received = some item := hhead
          obtain ⟨hprogress, hrest, hreached⟩ := ih (progress.handle config item) after
          rw [show inbox after = later from htail] at hprogress hrest
          exact ⟨hprogress, hrest, hreached.trans hreaches⟩

/-- Releasing codecs changes nothing that a round looks at. -/
theorem Feeds.release (h : network.Feeds inbox) (friends : List Friend) (state : σ) :
    inbox (friends.foldl (fun state friend => network.closeMedia friend state) state) =
        inbox state ∧
      network.reaches (friends.foldl (fun state friend => network.closeMedia friend state) state) =
        network.reaches state := by
  induction friends generalizing state with
  | nil => exact ⟨rfl, rfl⟩
  | cons friend rest ih =>
      obtain ⟨hinbox, hreaches⟩ := ih (network.closeMedia friend state)
      exact ⟨hinbox.trans (h.inbox_closeMedia friend state),
        hreaches.trans (h.reaches_closeMedia friend state)⟩

end Network

/-- A node of a hub hands out its own inbox. -/
theorem Hub.feeds_node (place : NodeId) :
    (Hub.node place).Feeds fun hub => (hub.get place).inbox := by
  have hreaches : ∀ hub later : Hub, (later.get place).links = (hub.get place).links →
      (Hub.node place).reaches later = (Hub.node place).reaches hub := by
    intro hub later hlinks
    funext friend
    have hlink : (later.get place).link? friend = (hub.get place).link? friend := by
      rw [Node.link?, Node.link?, hlinks]
    simp only [Network.reaches, Hub.node, Node.knows, Node.status, hlink]
  refine ⟨fun hub => ?_, fun hub => ?_, fun friend hub => ?_, fun hub => ?_, fun friend hub => ?_⟩
  · simp only [Hub.node, Hub.poll]
    cases (hub.get place).inbox <;> rfl
  · simp only [Hub.node, Hub.poll]
    cases hinbox : (hub.get place).inbox with
    | nil => simp [hinbox]
    | cons item later =>
        have hplace : place < hub.nodes.length := by
          -- a place that the hub does not have holds an empty inbox
          by_contra hout
          have hfresh : hub.get place = .fresh := by
            simp [Hub.get, List.getElem?_eq_none (Nat.le_of_not_lt hout)]
          rw [hfresh] at hinbox
          cases hinbox
        simp [Hub.get_update_self hplace]
  · exact Hub.field_update Node.inbox fun _ => rfl
  · exact hreaches hub _ (Hub.field_poll Node.links (fun _ _ => rfl) hub place place)
  · exact hreaches hub _ (Hub.field_update Node.links fun _ => rfl)

end PeerCalls
