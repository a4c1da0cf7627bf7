import PeerCalls.Loopback

/-!
# Nodes under an update

An update changes one node of a hub.  Seen from any place, the node there is
either the changed one or the one it was, so a field that the change keeps is
the same at every place.
-/

namespace PeerCalls

namespace Node

theorem mem_links_of_link? {node : Node} {friend : Friend} {link : Link}
    (h : node.link? friend = some link) : (friend, link) ∈ node.links := by
  obtain ⟨earlier, later, heq, -⟩ := List.lookup_eq_some_iff.mp h
  simp [heq]

/-- A link that is entered is found, and the links of other friends stay. -/
theorem link?_setLink (node : Node) (friend : Friend) (link : Link) (other : Friend) :
    (node.setLink friend link).link? other =
      if other = friend then some link else node.link? other := by
  unfold link? setLink
  by_cases h : other = friend
  · subst h
    simp
  · have hkept : (node.links.filter fun entry => decide (entry.1 ≠ friend)).lookup other =
        node.links.lookup other := by
      induction node.links with
      | nil => rfl
      | cons entry rest ih =>
          by_cases hentry : entry.1 = friend
          · have hskip : (other == entry.1) = false := by
              rw [hentry]
              exact beq_false_of_ne h
            rw [List.filter_cons_of_neg (by simpa using hentry), ih, List.lookup_cons, hskip]
          · rw [List.filter_cons_of_pos (by simpa using hentry), List.lookup_cons,
              List.lookup_cons, ih]
    have hskip : (other == friend) = false := beq_false_of_ne h
    simp only [List.lookup_cons, hskip, if_neg h]
    exact hkept

end Node

namespace Hub

variable {hub : Hub} {place other : NodeId} {change : Node → Node}

theorem get_update (hub : Hub) (place : NodeId) (change : Node → Node) (other : NodeId) :
    (hub.update place change).get other =
      if other = place ∧ place < hub.nodes.length then change (hub.get other)
      else hub.get other := by
  unfold get update
  rw [List.getD_eq_getElem?_getD, List.getD_eq_getElem?_getD, List.getElem?_modify]
  by_cases hplace : place = other
  · subst hplace
    by_cases hlength : place < hub.nodes.length
    · simp [hlength]
    · simp [hlength]
  · have hne : ¬ other = place := fun h => hplace h.symm
    simp [hplace, hne]

theorem get_update_self (h : place < hub.nodes.length) :
    (hub.update place change).get place = change (hub.get place) := by
  rw [get_update, if_pos ⟨rfl, h⟩]

theorem get_update_of_ne (h : other ≠ place) :
    (hub.update place change).get other = hub.get other := by
  rw [get_update, if_neg fun hboth => h hboth.1]

@[simp] theorem length_update (hub : Hub) (place : NodeId) (change : Node → Node) :
    (hub.update place change).nodes.length = hub.nodes.length := by
  simp [update]

/-- What a change keeps of a node is kept at every place. -/
theorem field_update {α : Type} (field : Node → α)
    (keeps : ∀ node, field (change node) = field node) :
    field ((hub.update place change).get other) = field (hub.get other) := by
  rw [get_update]
  split
  · exact keeps _
  · rfl

/-! ## What the requests of one node leave alone -/

/-- A push adds to an inbox, at most. -/
theorem field_push {α : Type} (field : Node → α)
    (keeps : ∀ (node : Node) (item : Inbound), field (node.receive item) = field node)
    (hub : Hub) (place : NodeId) (friend : Friend) (item : Friend → Inbound) (other : NodeId) :
    field ((hub.push place friend item).2.get other) = field (hub.get other) := by
  unfold push
  split
  · rfl
  · rfl
  · exact field_update field fun node => keeps node _

/-- Polling takes from an inbox, at most. -/
theorem field_poll {α : Type} (field : Node → α)
    (keeps : ∀ (node : Node) (inbox : List Inbound), field { node with inbox } = field node)
    (hub : Hub) (place other : NodeId) :
    field ((hub.poll place).2.get other) = field (hub.get other) := by
  unfold poll
  split
  · rfl
  · exact field_update field fun node => keeps node _

end Hub

end PeerCalls
