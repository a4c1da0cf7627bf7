import PeerCalls.Proofs.Loopback.Nodes
import PeerCalls.Proofs.Network.Separation
import PeerCalls.Proofs.Session.Isolation

/-!
# Channels between the nodes of a hub

The inbox of a node merges what its friends send, and how it merges them is a matter of time.
Each friend's own items form a channel, in which they keep their order.  Two nodes have the same
channels (`Node.SameChannels`) if they differ in nothing but the merge.

A node keeps its friends apart up to the merge (`Hub.separates`): a hang-up to one friend and a
request about another may change places, and then all channels are the same.
-/

namespace PeerCalls

namespace Node

/-- The nodes differ in nothing but the order between the items of different friends. -/
structure SameChannels (node other : Node) : Prop where
  rest : { node with inbox := [] } = { other with inbox := [] }
  channel : ∀ friend, Inbound.ofFriend friend node.inbox = Inbound.ofFriend friend other.inbox

namespace SameChannels

variable {node other third : Node}

theorem refl (node : Node) : SameChannels node node := ⟨rfl, fun _ => rfl⟩

theorem symm (h : SameChannels node other) : SameChannels other node :=
  ⟨h.rest.symm, fun friend => (h.channel friend).symm⟩

theorem trans (h : SameChannels node other) (h' : SameChannels other third) :
    SameChannels node third :=
  ⟨h.rest.trans h'.rest, fun friend => (h.channel friend).trans (h'.channel friend)⟩

theorem links (h : SameChannels node other) : node.links = other.links := by
  have hlinks := congrArg (fun node : Node => node.links) h.rest
  exact hlinks

theorem receive (h : SameChannels node other) (item : Inbound) :
    SameChannels (node.receive item) (other.receive item) := by
  refine ⟨h.rest, fun friend => ?_⟩
  simp only [Inbound.ofFriend, Node.receive, List.filter_append]
  exact congrArg (· ++ _) (h.channel friend)

theorem closeCodecs (h : SameChannels node other) (friend : Friend) :
    SameChannels (node.closeCodecs friend) (other.closeCodecs friend) := by
  have hrest := congrArg (fun node : Node => node.closeCodecs friend) h.rest
  exact ⟨hrest, h.channel⟩

theorem freed (h : SameChannels node other) :
    SameChannels { node with attached := false } { other with attached := false } := by
  have hrest := congrArg (fun node : Node => { node with attached := false }) h.rest
  exact ⟨hrest, h.channel⟩

/-- Nodes with the same channels are equal if their inboxes are. -/
theorem eq_of_inbox (h : SameChannels node other) (hinbox : node.inbox = other.inbox) :
    node = other := by
  have hnode := congrArg (fun node : Node => { node with inbox := other.inbox }) h.rest
  calc node = { node with inbox := other.inbox } := by rw [← hinbox]
    _ = { other with inbox := other.inbox } := hnode

end SameChannels

/-- Hang-ups may change places in an inbox. -/
theorem sameChannels_hangUps (node : Node) (seen seen' : Friend) :
    SameChannels ((node.receive (.signal seen .hangUp)).receive (.signal seen' .hangUp))
      ((node.receive (.signal seen' .hangUp)).receive (.signal seen .hangUp)) := by
  refine ⟨rfl, fun friend => ?_⟩
  simp only [receive, Inbound.ofFriend, List.append_assoc, List.filter_append]
  by_cases hsame : seen = seen'
  · rw [hsame]
  · by_cases hfirst : seen = friend
    · have hsecond : seen' ≠ friend := fun h => hsame (hfirst.trans h.symm)
      simp [Inbound.friend, hsecond]
    · simp [Inbound.friend, hfirst]

end Node

namespace Hub

variable {hub other : Hub} {place : NodeId} {friend : Friend}

/-! ## Hubs with the same channels -/

/-- The nodes of the two hubs have the same channels, place by place. -/
def SameChannels (hub other : Hub) : Prop :=
  hub.nodes.length = other.nodes.length ∧
    ∀ place, (hub.get place).SameChannels (other.get place)

namespace SameChannels

theorem refl (hub : Hub) : SameChannels hub hub := ⟨rfl, fun _ => .refl _⟩

theorem symm (h : SameChannels hub other) : SameChannels other hub :=
  ⟨h.1.symm, fun place => (h.2 place).symm⟩

theorem trans {third : Hub} (h : SameChannels hub other) (h' : SameChannels other third) :
    SameChannels hub third :=
  ⟨h.1.trans h'.1, fun place => (h.2 place).trans (h'.2 place)⟩

theorem update (h : SameChannels hub other) (place : NodeId) {change : Node → Node}
    (hchange : ∀ {node other : Node}, node.SameChannels other →
      (change node).SameChannels (change other)) :
    SameChannels (hub.update place change) (other.update place change) := by
  refine ⟨by simpa using h.1, fun spot => ?_⟩
  rw [get_update, get_update, h.1]
  split
  · exact hchange (h.2 spot)
  · exact h.2 spot

/-- Hubs with the same channels are equal if the inboxes are. -/
theorem eq_of_inboxes (h : SameChannels hub other)
    (hinboxes : ∀ place < hub.nodes.length, (hub.get place).inbox = (other.get place).inbox) :
    hub = other := by
  obtain ⟨nodes⟩ := hub
  obtain ⟨others⟩ := other
  refine congrArg Hub.mk (List.ext_getElem h.1 fun place hplace hother => ?_)
  have hnode := (h.2 place).eq_of_inbox (hinboxes place hplace)
  simpa [get, hplace, hother] using hnode

end SameChannels

/-- Two changes may change places if they may do so at a node that both of them change. -/
theorem sameChannels_update_update (hub : Hub) {place place' : NodeId}
    {first second : Node → Node}
    (hswap : place = place' →
      ∀ node, (second (first node)).SameChannels (first (second node))) :
    SameChannels ((hub.update place first).update place' second)
      ((hub.update place' second).update place first) := by
  refine ⟨by simp, fun spot => ?_⟩
  simp only [get_update, length_update]
  by_cases hfirst : spot = place ∧ place < hub.nodes.length
  · by_cases hsecond : spot = place' ∧ place' < hub.nodes.length
    · simp only [if_pos hfirst, if_pos hsecond]
      exact hswap (hfirst.1.symm.trans hsecond.1) _
    · simp only [if_pos hfirst, if_neg hsecond]
      exact .refl _
  · simp only [if_neg hfirst]
    exact .refl _

/-! ## Where a push arrives -/

/-- The node at which a push to the friend arrives, and the number by which that node knows us. -/
def target? (hub : Hub) (place : NodeId) (friend : Friend) : Option (NodeId × Friend) :=
  match (hub.get place).route friend with
  | .error _ => none
  | .ok remote? => remote?

theorem link_of_target? {target : NodeId × Friend} (h : hub.target? place friend = some target) :
    ∃ link, (hub.get place).link? friend = some link ∧ link.remote = some target := by
  unfold target? Node.route at h
  split at h
  · cases h
  · rename_i remote? hroute
    split at hroute
    · cases hroute
    · rename_i link hlink
      split at hroute
      · exact ⟨link, hlink, (Except.ok.inj hroute).trans h⟩
      · cases hroute

theorem target?_congr (hlinks : (hub.get place).links = (other.get place).links)
    (friend : Friend) : hub.target? place friend = other.target? place friend := by
  simp only [target?, Node.route, Node.link?, hlinks]

theorem hangUp_of_target?_none (h : hub.target? place friend = none) :
    (node place).hangUp friend hub = hub := by
  unfold target? at h
  simp only [Network.hangUp, node, push]
  split at h
  · rename_i hroute
    rw [hroute]
  · rename_i hroute
    rw [hroute, h]

theorem hangUp_of_target? {remote : NodeId} {seen : Friend}
    (h : hub.target? place friend = some (remote, seen)) :
    (node place).hangUp friend hub =
      hub.update remote fun node => node.receive (.signal seen .hangUp) := by
  unfold target? at h
  split at h
  · cases h
  · rename_i hroute
    simp only [Network.hangUp, node, push, hroute, h]

theorem links_hangUp (hub : Hub) (place : NodeId) (friend : Friend) :
    (((node place).hangUp friend hub).get place).links = (hub.get place).links :=
  field_push Node.links (fun _ _ => rfl) hub place friend _ place

theorem links_closeMedia (hub : Hub) (place : NodeId) (friend : Friend) :
    (((node place).closeMedia friend hub).get place).links = (hub.get place).links :=
  field_update Node.links fun _ => rfl

/-! ## Requests about different friends -/

theorem SameChannels.hangUp (h : SameChannels hub other) (place : NodeId) (friend : Friend) :
    SameChannels ((node place).hangUp friend hub) ((node place).hangUp friend other) := by
  have htarget : other.target? place friend = hub.target? place friend :=
    (target?_congr (h.2 place).links friend).symm
  cases hhub : hub.target? place friend with
  | none =>
      rw [hangUp_of_target?_none hhub, hangUp_of_target?_none (htarget.trans hhub)]
      exact h
  | some target =>
      rw [hangUp_of_target? hhub, hangUp_of_target? (htarget.trans hhub)]
      exact h.update target.1 fun hnode => hnode.receive _

/-- Two hang-ups may change places. -/
theorem sameChannels_hangUp_hangUp (hub : Hub) (place : NodeId) (first second : Friend) :
    SameChannels ((node place).hangUp second ((node place).hangUp first hub))
      ((node place).hangUp first ((node place).hangUp second hub)) := by
  have hafter : ∀ told asked, ((node place).hangUp told hub).target? place asked =
      hub.target? place asked := fun told asked => target?_congr (links_hangUp hub place told) asked
  -- a hang-up that arrives nowhere changes nothing, and two that arrive meet at one node only
  cases hfirst : hub.target? place first with
  | none =>
      rw [hangUp_of_target?_none hfirst,
        hangUp_of_target?_none ((hafter second first).trans hfirst)]
      exact .refl _
  | some target =>
      cases hsecond : hub.target? place second with
      | none =>
          rw [hangUp_of_target?_none hsecond,
            hangUp_of_target?_none ((hafter first second).trans hsecond)]
          exact .refl _
      | some target' =>
          rw [hangUp_of_target? ((hafter first second).trans hsecond),
            hangUp_of_target? ((hafter second first).trans hfirst),
            hangUp_of_target? hfirst, hangUp_of_target? hsecond]
          exact sameChannels_update_update hub fun _ node =>
            node.sameChannels_hangUps target.2 target'.2

/-- A hang-up and the release of codecs may change places. -/
theorem sameChannels_hangUp_closeMedia (hub : Hub) (place : NodeId) (told closed : Friend) :
    SameChannels ((node place).closeMedia closed ((node place).hangUp told hub))
      ((node place).hangUp told ((node place).closeMedia closed hub)) := by
  have hafter : ((node place).closeMedia closed hub).target? place told =
      hub.target? place told := target?_congr (links_closeMedia hub place closed) told
  cases htarget : hub.target? place told with
  | none =>
      rw [hangUp_of_target?_none htarget, hangUp_of_target?_none (hafter.trans htarget)]
      exact .refl _
  | some target =>
      rw [hangUp_of_target? htarget, hangUp_of_target? (hafter.trans htarget)]
      exact sameChannels_update_update hub fun _ _ => .refl _

/-- The codecs of two friends may be released in either order. -/
theorem sameChannels_closeMedia_closeMedia (hub : Hub) (place : NodeId) (first second : Friend) :
    SameChannels ((node place).closeMedia second ((node place).closeMedia first hub))
      ((node place).closeMedia first ((node place).closeMedia second hub)) := by
  refine sameChannels_update_update hub fun _ node => ?_
  have hcomm : (node.closeCodecs first).closeCodecs second =
      (node.closeCodecs second).closeCodecs first := by
    simp only [Node.closeCodecs, List.filter_filter, Bool.and_comm]
  rw [hcomm]
  exact .refl _

/-- A node keeps its friends apart, up to how the inboxes merge what they are sent. -/
theorem separates (place : NodeId) : (node place).Separates SameChannels where
  symm h := h.symm
  trans h h' := h.trans h'
  hangUp friend _ _ h := h.hangUp place friend
  closeMedia friend _ _ h := h.update place fun hnode => hnode.closeCodecs friend
  detach h := h.update place fun hnode => hnode.freed
  hangUp_hangUp _ _ _ := sameChannels_hangUp_hangUp _ place _ _
  hangUp_closeMedia _ _ _ := sameChannels_hangUp_closeMedia _ place _ _
  closeMedia_closeMedia _ _ _ := sameChannels_closeMedia_closeMedia _ place _ _

end Hub

end PeerCalls
