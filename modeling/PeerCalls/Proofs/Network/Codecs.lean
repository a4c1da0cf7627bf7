import PeerCalls.Network.Scripted
import PeerCalls.Proofs.Loopback.Nodes

/-!
# Networks that keep track of codecs

A network that keeps track of codecs knows for which friends they are prepared:
preparing adds the friend if it succeeds, releasing takes the friend out, and
nothing else changes the set.  `TracksCodecs` states this for an arbitrary
network.  The nodes of a hub keep track in this sense, and a network that fails
as planned keeps track whenever the network under it does.
-/

namespace PeerCalls

namespace Network

variable {σ : Type}

/-- `prepared` tells for which friends the network has prepared codecs. -/
structure TracksCodecs (network : Network σ) (prepared : σ → Friend → Prop) : Prop where
  /-- Preparing adds nobody but the friend, and nobody at all if it is refused. -/
  openMedia : ∀ friend rates state other,
    prepared (network.openMedia friend rates state).2 other →
      prepared state other ∨
        (network.openMedia friend rates state).1 = .ok () ∧ other = friend
  /-- Releasing takes out the friend and nobody else. -/
  closeMedia : ∀ friend state other,
    prepared (network.closeMedia friend state) other ↔ prepared state other ∧ other ≠ friend
  sendSignal : ∀ friend signal state other,
    prepared (network.sendSignal friend signal state).2 other ↔ prepared state other
  sendMedia : ∀ friend payload state other,
    prepared (network.sendMedia friend payload state).2 other ↔ prepared state other
  poll : ∀ state other, prepared (network.poll state).2 other ↔ prepared state other
  linkStable : ∀ friend kind rate state other,
    prepared (network.linkStable friend kind rate state).2 other ↔ prepared state other
  attach : ∀ state other, prepared (network.attach state).2 other ↔ prepared state other
  detach : ∀ state other, prepared (network.detach state) other ↔ prepared state other

namespace TracksCodecs

variable {network : Network σ} {prepared : σ → Friend → Prop} {friend : Friend} {state after : σ}

theorem of_sendSignal (h : network.TracksCodecs prepared) {signal : Signal}
    {result : Except NetworkError Unit}
    (hpush : network.sendSignal friend signal state = (result, after)) (other : Friend) :
    prepared after other ↔ prepared state other := by
  have hkept := h.sendSignal friend signal state other
  rwa [hpush] at hkept

theorem of_openMedia (h : network.TracksCodecs prepared) {rates : Rates}
    {result : Except NetworkError Unit}
    (hopen : network.openMedia friend rates state = (result, after)) {other : Friend}
    (hprepared : prepared after other) :
    prepared state other ∨ result = .ok () ∧ other = friend := by
  have hopened := h.openMedia friend rates state other
  rw [hopen] at hopened
  exact hopened hprepared

theorem of_poll (h : network.TracksCodecs prepared) {item : Option Inbound}
    (hpoll : network.poll state = (item, after)) (other : Friend) :
    prepared after other ↔ prepared state other := by
  have hkept := h.poll state other
  rwa [hpoll] at hkept

end TracksCodecs

/-- Planned failures do not touch codecs. -/
theorem TracksCodecs.scripted {network : Network σ} {prepared : σ → Friend → Prop}
    (h : network.TracksCodecs prepared) :
    network.scripted.TracksCodecs fun state friend => prepared state.network friend where
  openMedia friend rates state other hprepared := by
    cases hplanned : state.planned.codec with
    | nil =>
        simp only [Network.scripted, hplanned] at hprepared ⊢
        exact h.openMedia friend rates state.network other hprepared
    | cons error later =>
        simp only [Network.scripted, hplanned] at hprepared
        exact Or.inl hprepared
  closeMedia friend state other := h.closeMedia friend state.network other
  sendSignal friend signal state other := by
    cases hplanned : state.planned.signal with
    | nil => simpa only [Network.scripted, hplanned] using h.sendSignal friend signal _ other
    | cons error later => simp only [Network.scripted, hplanned]
  sendMedia friend payload state other := by
    cases hplanned : state.planned.media with
    | nil => simpa only [Network.scripted, hplanned] using h.sendMedia friend payload _ other
    | cons error later => simp only [Network.scripted, hplanned]
  poll state other := h.poll state.network other
  linkStable friend kind rate state other := h.linkStable friend kind rate state.network other
  attach state other := h.attach state.network other
  detach state other := h.detach state.network other

end Network

namespace Hub

/-- A node of a hub keeps track of codecs. -/
theorem tracksCodecs_node (place : NodeId) :
    (node place).TracksCodecs fun hub friend => (hub.get place).hasOpenMedia friend where
  openMedia friend rates hub other hprepared := by
    simp only [node, get_update] at hprepared
    split at hprepared
    · by_cases hother : other = friend
      · exact Or.inr ⟨rfl, hother⟩
      · left
        simpa [Node.hasOpenMedia, Node.openCodecs, Node.closeCodecs, hother] using hprepared
    · exact Or.inl hprepared
  closeMedia friend hub other := by
    simp only [node, get_update]
    split
    · simp [Node.hasOpenMedia, Node.closeCodecs]
    · rename_i hplace
      have hfresh : hub.get place = .fresh := by
        have hlength : hub.nodes.length ≤ place := by simpa using hplace
        simp [get, List.getElem?_eq_none hlength]
      simp [hfresh, Node.hasOpenMedia, Node.fresh]
  sendSignal friend signal hub other := by
    have hkept := hub.field_push (fun node => node.hasOpenMedia other) (fun _ _ => rfl) place friend
      (fun asSeen => .signal asSeen signal) place
    simp only [node, hkept]
  sendMedia friend payload hub other := by
    have hkept := hub.field_push (fun node => node.hasOpenMedia other) (fun _ _ => rfl) place friend
      (fun asSeen => .media asSeen payload) place
    simp only [node]
    split
    · exact Iff.rfl
    · rw [hkept]
  poll hub other := by
    have hkept := hub.field_poll (fun node => node.hasOpenMedia other) (fun _ _ => rfl) place place
    simp only [node, hkept]
  linkStable friend kind rate hub other := Iff.rfl
  attach hub other := by
    have hkept : ((hub.update place fun node => { node with attached := true }).get
        place).hasOpenMedia other = (hub.get place).hasOpenMedia other :=
      field_update (fun node => node.hasOpenMedia other) fun _ => rfl
    simp only [node, hkept]
  detach hub other := by
    have hkept : ((hub.update place fun node => { node with attached := false }).get
        place).hasOpenMedia other = (hub.get place).hasOpenMedia other :=
      field_update (fun node => node.hasOpenMedia other) fun _ => rfl
    simp only [node, hkept]

end Hub

end PeerCalls
