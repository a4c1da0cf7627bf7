import PeerCalls.Proofs.Duo.Line
import PeerCalls.Proofs.Loopback.Nodes

/-!
# Two linked nodes of a hub

A `Wiring` says where the two sides sit in a hub and by which number each knows the
other.  Whatever a session asks of its node comes down to two things for the inboxes
of the two sides: a push to the other side adds one item to its inbox, and polling
takes one item from the own inbox.  Everything else leaves both inboxes alone, and
nothing changes a link.
-/

namespace PeerCalls

/-- The signal that an inbound item carries, if it carries one. -/
def Inbound.signal? : Inbound → Option Signal
  | signal _ said => some said
  | media _ _ => none

/-- The places of two sides in a hub, and how each side knows the other. -/
structure Wiring where
  place : Side → NodeId
  number : Side → Friend
  apart : place .left ≠ place .right

namespace Wiring

/-- The network under the session of a side. -/
abbrev network (wiring : Wiring) (side : Side) : Network Hub := Hub.node (wiring.place side)

theorem place_other_ne (wiring : Wiring) (side : Side) :
    wiring.place side.other ≠ wiring.place side := by
  cases side with
  | left => exact wiring.apart.symm
  | right => exact wiring.apart

variable {wiring : Wiring} {hub later : Hub} {side : Side} {friend : Friend}

/-- The two sides are linked and connected, and no other friend of a side is one of the
two sides. -/
structure Joins (wiring : Wiring) (hub : Hub) : Prop where
  linked : ∀ side, ∃ status, status.isConnected = true ∧
    (hub.get (wiring.place side)).link? (wiring.number side) =
      some ⟨status, some (wiring.place side.other, wiring.number side.other)⟩
  elsewhere : ∀ side friend link remote asSeen, friend ≠ wiring.number side →
    (hub.get (wiring.place side)).link? friend = some link →
    link.remote = some (remote, asSeen) → ∀ own, remote ≠ wiring.place own

theorem Joins.of_links (h : wiring.Joins hub)
    (hlinks : ∀ place, (later.get place).links = (hub.get place).links) : wiring.Joins later := by
  have hlink : ∀ place friend, (later.get place).link? friend = (hub.get place).link? friend := by
    intro place friend
    rw [Node.link?, Node.link?, hlinks]
  refine ⟨fun side => ?_, fun side friend link remote asSeen hfriend hlater => ?_⟩
  · rw [hlink]
    exact h.linked side
  · rw [hlink] at hlater
    exact h.elsewhere side friend link remote asSeen hfriend hlater

/-- A place with friends is a place of the hub. -/
theorem Joins.place_lt (h : wiring.Joins hub) (side : Side) :
    wiring.place side < hub.nodes.length := by
  by_contra hout
  obtain ⟨status, -, hlink⟩ := h.linked side
  have hfresh : hub.get (wiring.place side) = .fresh := by
    simp [Hub.get, List.getElem?_eq_none (Nat.le_of_not_lt hout)]
  rw [hfresh] at hlink
  cases hlink

/-- Each side knows the other one and is connected to it. -/
theorem Joins.reaches (h : wiring.Joins hub) (side : Side) :
    (hub.get (wiring.place side)).knows (wiring.number side) = true ∧
      ((hub.get (wiring.place side)).status (wiring.number side)).isConnected = true := by
  obtain ⟨status, hconnected, hlink⟩ := h.linked side
  constructor
  · simp [Node.knows, hlink]
  · simp [Node.status, hlink, hconnected]

/-- Befriending two nodes joins the sides there, unless one of them already knows one of the
two nodes by another number. -/
theorem joins_connect (wiring : Wiring) {hub : Hub}
    (hplace : ∀ side, wiring.place side < hub.nodes.length)
    (helsewhere : ∀ side friend link remote asSeen, friend ≠ wiring.number side →
      (hub.get (wiring.place side)).link? friend = some link →
      link.remote = some (remote, asSeen) → ∀ own, remote ≠ wiring.place own) :
    wiring.Joins (hub.connect (wiring.place .left) (wiring.number .left) (wiring.place .right)
      (wiring.number .right)) := by
  have hnode : ∀ side friend, ((hub.connect (wiring.place .left) (wiring.number .left)
      (wiring.place .right) (wiring.number .right)).get (wiring.place side)).link? friend =
        if friend = wiring.number side then
          some ⟨.udp, some (wiring.place side.other, wiring.number side.other)⟩
        else (hub.get (wiring.place side)).link? friend := by
    intro side friend
    unfold Hub.connect
    cases side with
    | left =>
        rw [Hub.get_update_of_ne wiring.apart, Hub.get_update_self (hplace .left),
          Node.link?_setLink]
        rfl
    | right =>
        rw [Hub.get_update_self (by simpa using hplace .right),
          Hub.get_update_of_ne wiring.apart.symm, Node.link?_setLink]
        rfl
  refine ⟨fun side => ⟨.udp, rfl, ?_⟩, fun side friend link remote asSeen hfriend hlink => ?_⟩
  · rw [hnode, if_pos rfl]
  · rw [hnode, if_neg hfriend] at hlink
    exact helsewhere side friend link remote asSeen hfriend hlink

/-! ## What reaches the other side -/

/-- A request of the side leaves all links and its own inbox as they are, and adds these
items to the inbox of the other side. -/
structure Carries (wiring : Wiring) (side : Side) (items : List Inbound) (hub later : Hub) :
    Prop where
  links : ∀ place, (later.get place).links = (hub.get place).links
  own : (later.get (wiring.place side)).inbox = (hub.get (wiring.place side)).inbox
  other : (later.get (wiring.place side.other)).inbox =
    (hub.get (wiring.place side.other)).inbox ++ items

theorem Carries.refl : wiring.Carries side [] hub hub :=
  ⟨fun _ => rfl, rfl, (List.append_nil _).symm⟩

theorem Carries.trans {middle : Hub} {items more : List Inbound}
    (h : wiring.Carries side items hub middle) (h' : wiring.Carries side more middle later) :
    wiring.Carries side (items ++ more) hub later where
  links place := (h'.links place).trans (h.links place)
  own := h'.own.trans h.own
  other := by rw [h'.other, h.other, List.append_assoc]

/-- A change of one node that keeps its links and its inbox carries nothing. -/
theorem Carries.of_update {place : NodeId} {change : Node → Node}
    (hlinks : ∀ node, (change node).links = node.links)
    (hinbox : ∀ node, (change node).inbox = node.inbox) :
    wiring.Carries side [] hub (hub.update place change) where
  links _ := Hub.field_update Node.links hlinks
  own := Hub.field_update Node.inbox hinbox
  other := by rw [List.append_nil, Hub.field_update Node.inbox hinbox]

/-- Releasing codecs carries nothing. -/
theorem carries_closeMedia (wiring : Wiring) (side : Side) (friend : Friend) (hub : Hub) :
    wiring.Carries side [] hub ((wiring.network side).closeMedia friend hub) :=
  .of_update (fun _ => rfl) fun _ => rfl

/-- A push to the other side arrives there, with the number by which it knows the side. -/
theorem carries_push (h : wiring.Joins hub) (side : Side) (item : Friend → Inbound) :
    ∃ later, hub.push (wiring.place side) (wiring.number side) item = (.ok (), later) ∧
      wiring.Carries side [item (wiring.number side.other)] hub later := by
  obtain ⟨status, hconnected, hlink⟩ := h.linked side
  have hroute : (hub.get (wiring.place side)).route (wiring.number side) =
      .ok (some (wiring.place side.other, wiring.number side.other)) := by
    simp [Node.route, hlink, hconnected]
  refine ⟨hub.update (wiring.place side.other) fun node =>
    node.receive (item (wiring.number side.other)), by simp [Hub.push, hroute], ?_, ?_, ?_⟩
  · exact fun _ => Hub.field_update Node.links fun _ => rfl
  · rw [Hub.get_update_of_ne (wiring.place_other_ne side).symm]
  · rw [Hub.get_update_self (h.place_lt side.other)]
    rfl

/-- A push to anybody else does not concern the two sides. -/
theorem carries_push_of_ne (h : wiring.Joins hub) (hfriend : friend ≠ wiring.number side)
    (item : Friend → Inbound) :
    wiring.Carries side [] hub (hub.push (wiring.place side) friend item).2 := by
  unfold Hub.push
  split
  · exact .refl
  · exact .refl
  · rename_i remote asSeen hroute
    have haway : ∀ own, remote ≠ wiring.place own := by
      unfold Node.route at hroute
      split at hroute
      · cases hroute
      · rename_i link hlink
        split at hroute
        · exact h.elsewhere side friend link remote asSeen hfriend hlink (Except.ok.inj hroute)
        · cases hroute
    refine ⟨fun _ => Hub.field_update Node.links fun _ => rfl, ?_, ?_⟩
    · rw [Hub.get_update_of_ne (haway side).symm]
    · rw [Hub.get_update_of_ne (haway side.other).symm, List.append_nil]

/-- A signal to the other side always arrives; one to anybody else does not concern the
two sides. -/
theorem sendSignal_cases (h : wiring.Joins hub) {signal : Signal}
    {result : Except NetworkError Unit}
    (hpush : (wiring.network side).sendSignal friend signal hub = (result, later)) :
    (friend = wiring.number side ∧ result = .ok () ∧
      wiring.Carries side [.signal (wiring.number side.other) signal] hub later) ∨
    (friend ≠ wiring.number side ∧ wiring.Carries side [] hub later) := by
  by_cases hfriend : friend = wiring.number side
  · subst hfriend
    obtain ⟨arrived, harrived, hcarries⟩ := carries_push h side fun asSeen => .signal asSeen signal
    obtain ⟨rfl, rfl⟩ := Prod.mk.inj (harrived.symm.trans hpush)
    exact Or.inl ⟨rfl, rfl, hcarries⟩
  · have hcarries := carries_push_of_ne h hfriend fun asSeen => .signal asSeen signal
    rw [show hub.push _ _ _ = _ from hpush] at hcarries
    exact Or.inr ⟨hfriend, hcarries⟩

/-- A push to the other side goes through, so a refused one was to somebody else. -/
theorem carries_of_refused (h : wiring.Joins hub) {signal : Signal} {cause : NetworkError}
    (hpush : (wiring.network side).sendSignal friend signal hub = (.error cause, later)) :
    friend ≠ wiring.number side ∧ wiring.Carries side [] hub later := by
  rcases sendSignal_cases h hpush with ⟨-, hok, -⟩ | hother
  · cases hok
  · exact hother

/-- A frame arrives at the other side or nowhere that concerns the two sides. -/
theorem sendMedia_cases (h : wiring.Joins hub) (side : Side) (friend : Friend)
    (payload : Payload) :
    ∃ items, wiring.Carries side items hub
        ((wiring.network side).sendMedia friend payload hub).2 ∧
      ∀ item ∈ items, ∃ payload, item = .media (wiring.number side.other) payload := by
  simp only [Hub.node]
  split
  · exact ⟨[], .refl, by simp⟩
  · by_cases hfriend : friend = wiring.number side
    · subst hfriend
      obtain ⟨arrived, harrived, hcarries⟩ :=
        carries_push h side fun asSeen => .media asSeen payload
      rw [harrived]
      exact ⟨_, hcarries, fun item hitem => ⟨payload, List.mem_singleton.mp hitem⟩⟩
    · exact ⟨[], carries_push_of_ne h hfriend _, by simp⟩

/-! ## What is taken from the own inbox -/

/-- Polling takes the oldest item from the own inbox and leaves everything else alone. -/
theorem poll_cases (h : wiring.Joins hub) (side : Side) :
    ((hub.get (wiring.place side)).inbox = [] ∧
      hub.poll (wiring.place side) = (none, hub)) ∨
    ∃ item rest later, (hub.get (wiring.place side)).inbox = item :: rest ∧
      hub.poll (wiring.place side) = (some item, later) ∧
      (∀ place, (later.get place).links = (hub.get place).links) ∧
      (later.get (wiring.place side)).inbox = rest ∧
      (later.get (wiring.place side.other)).inbox =
        (hub.get (wiring.place side.other)).inbox := by
  unfold Hub.poll
  cases hinbox : (hub.get (wiring.place side)).inbox with
  | nil => exact Or.inl ⟨rfl, rfl⟩
  | cons item rest =>
      refine Or.inr ⟨item, rest, _, rfl, rfl, ?_, ?_, ?_⟩
      · exact fun _ => Hub.field_update Node.links fun _ => rfl
      · rw [Hub.get_update_self (h.place_lt side)]
      · rw [Hub.get_update_of_ne (wiring.place_other_ne side)]

/-- Polling an empty inbox leaves everything alone. -/
theorem hub_of_poll_none (h : wiring.Joins hub)
    (hpoll : (wiring.network side).poll hub = (none, later)) : later = hub := by
  rcases poll_cases h side with ⟨-, hnone⟩ | ⟨_, _, _, -, hsome, -⟩
  · exact congrArg Prod.snd (hpoll.symm.trans hnone)
  · cases hsome.symm.trans hpoll

end Wiring

end PeerCalls
