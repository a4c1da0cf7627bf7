import PeerCalls.Network.Recorded
import PeerCalls.Proofs.Loopback.Nodes
import PeerCalls.Proofs.Session.Station

/-!
# What the work of a session keeps

A session claims a network when it is opened and gives it back when it is closed.  In between
it uses the other capabilities only.  So what survives each of these, one request at a time,
survives every operation of a session, and closing gives back a network of which it still
holds.

The place of a node in its hub and the flag of its claim survive in this sense.
-/

namespace PeerCalls

namespace Network

variable {σ : Type}

/-- What holds of a network holds after each request but claiming it and giving it back. -/
structure Keeps (network : Network σ) (P : σ → Prop) : Prop where
  sendSignal : ∀ friend signal state, P state → P (network.sendSignal friend signal state).2
  sendMedia : ∀ friend payload state, P state → P (network.sendMedia friend payload state).2
  poll : ∀ state, P state → P (network.poll state).2
  linkStable : ∀ friend kind rate state, P state → P (network.linkStable friend kind rate state).2
  openMedia : ∀ friend rates state, P state → P (network.openMedia friend rates state).2
  closeMedia : ∀ friend state, P state → P (network.closeMedia friend state)

namespace Keeps

variable {network : Network σ} {P : σ → Prop} {friend : Friend} {state after : σ}
  {result : Except NetworkError Unit}

theorem of_sendSignal (h : network.Keeps P) {signal : Signal}
    (hpush : network.sendSignal friend signal state = (result, after)) (hstate : P state) :
    P after := by
  have hkept := h.sendSignal friend signal state hstate
  rwa [hpush] at hkept

theorem of_openMedia (h : network.Keeps P) {rates : Rates}
    (hopen : network.openMedia friend rates state = (result, after)) (hstate : P state) :
    P after := by
  have hkept := h.openMedia friend rates state hstate
  rwa [hopen] at hkept

theorem of_poll (h : network.Keeps P) {item : Option Inbound}
    (hpoll : network.poll state = (item, after)) (hstate : P state) : P after := by
  have hkept := h.poll state hstate
  rwa [hpoll] at hkept

theorem of_linkCarries (h : network.Keeps P) {kind : MediaKind} {rate : UInt32}
    {force carries : Bool}
    (hlink : Session.linkCarries network state friend kind rate force = (carries, after))
    (hstate : P state) : P after := by
  unfold Session.linkCarries at hlink
  split at hlink
  · cases hlink
    exact hstate
  · have hkept := h.linkStable friend kind rate state hstate
    rwa [hlink] at hkept

theorem of_closeMedias (h : network.Keeps P) (friends : List Friend) (hstate : P state) :
    P (friends.foldl (fun state friend => network.closeMedia friend state) state) := by
  induction friends generalizing state with
  | nil => exact hstate
  | cons friend friends ih => exact ih (h.closeMedia friend state hstate)

theorem of_release (h : network.Keeps P) (calls : List Call) (hstate : P state) :
    P (calls.foldl (Call.release network) state) := by
  induction calls generalizing state with
  | nil => exact hstate
  | cons call calls ih =>
      refine ih (h.closeMedia call.friend _ ?_)
      split
      · exact h.sendSignal call.friend .hangUp state hstate
      · exact hstate

/-- A recording network keeps what the network under it keeps. -/
theorem recorded (h : network.Keeps P) : network.recorded.Keeps fun state => P state.network where
  sendSignal friend signal state hstate := h.sendSignal friend signal state.network hstate
  sendMedia friend payload state hstate := h.sendMedia friend payload state.network hstate
  poll state hstate := h.poll state.network hstate
  linkStable friend kind rate state hstate := h.linkStable friend kind rate state.network hstate
  openMedia friend rates state hstate := h.openMedia friend rates state.network hstate
  closeMedia friend state hstate := h.closeMedia friend state.network hstate

end Keeps

end Network

namespace Session

variable {σ : Type} {network : Network σ} {P : σ → Prop} {session : Session} {state : σ}

/-- A round keeps what its requests keep. -/
theorem keeps_round (h : network.Keeps P) (hstate : P state) :
    P (session.round network state).network := by
  have htaken : P (session.taken network state).2 :=
    Progress.takeInbound_induction (P := fun _ state => P state)
      (fun _ _ _ hbefore hpoll => h.of_poll hpoll hbefore)
      (fun _ _ _ _ hbefore hpoll => h.of_poll hpoll hbefore) _ hstate
  rw [round_eq]
  exact h.of_closeMedias _ htaken

/-- An operation other than closing keeps what its requests keep. -/
theorem keeps_perform (h : network.Keeps P) (hstate : P state) {command : Command}
    (hcommand : command ≠ .close) : P (session.perform network state command).network := by
  cases command with
  | close => exact absurd rfl hcommand
  | call friend rates =>
      rw [perform]
      rcases call_cases network session state friend rates with
        ⟨_, -, houtcome⟩ | ⟨-, _, _, hpush, houtcome⟩ | ⟨-, _, hpush, houtcome⟩
      all_goals rw [houtcome]
      · exact hstate
      all_goals exact h.of_sendSignal hpush hstate
  | answer friend rates =>
      rw [perform]
      rcases answer_cases network session state friend rates with
        ⟨_, houtcome⟩ | ⟨_, -, ⟨_, _, hopen, houtcome⟩ | ⟨_, hopen,
          ⟨_, _, hpush, houtcome⟩ | ⟨_, hpush, houtcome⟩⟩⟩
      all_goals rw [houtcome]
      · exact hstate
      · exact h.of_openMedia hopen hstate
      · exact h.closeMedia friend _ (h.of_sendSignal hpush (h.of_openMedia hopen hstate))
      · exact h.of_sendSignal hpush (h.of_openMedia hopen hstate)
  | control friend command =>
      rw [perform]
      rcases control_cases network session state friend command with
        ⟨_, houtcome⟩ | ⟨_, -, ⟨_, _, -, hpush, houtcome⟩ | ⟨_, _, _, hpush, -, -, houtcome⟩⟩
      all_goals rw [houtcome]
      · exact hstate
      all_goals exact h.of_sendSignal hpush hstate
  | setRate friend kind rate force =>
      rw [perform]
      rcases setRate_cases network session state friend kind rate force with
        ⟨_, houtcome⟩ | ⟨_, -, ⟨_, hlink, houtcome⟩ | ⟨_, hlink,
          ⟨_, _, hpush, houtcome⟩ | ⟨_, hpush, houtcome⟩⟩⟩
      all_goals rw [houtcome]
      · exact hstate
      · exact h.of_linkCarries hlink hstate
      all_goals exact h.of_sendSignal hpush (h.of_linkCarries hlink hstate)
  | sendFrame friend payload =>
      rw [perform]
      simp only [Outcome.map, sendFrame]
      split
      · exact hstate
      · rename_i owned _
        have hpushed := h.sendMedia friend owned state hstate
        split <;> rename_i hpush <;> rwa [hpush] at hpushed
  | iterate =>
      rw [perform]
      rcases iterate_cases network session state with houtcome | ⟨-, -, houtcome⟩
      all_goals rw [houtcome]
      · exact hstate
      · exact keeps_round h hstate
  | listen listener => exact hstate

/-- Closing an open session gives back a network of which still holds what the requests keep. -/
theorem detach_of_close (h : network.Keeps P) (hstate : P state)
    (hopen : session.closed = false) :
    ∃ released, P released ∧ (session.close network state).network = network.detach released := by
  refine ⟨session.registry.calls.foldl (Call.release network) state,
    h.of_release session.registry.calls hstate, ?_⟩
  simp [close, hopen, Registry.drain]

end Session

namespace Hub

/-- A change that leaves the node at its place as it is leaves the hub as it is. -/
theorem update_eq_self {hub : Hub} {place : NodeId} {change : Node → Node}
    (h : change (hub.get place) = hub.get place) : hub.update place change = hub := by
  have hnodes : hub.nodes.modify place change = hub.nodes := by
    refine List.ext_getElem? fun index => ?_
    rw [List.getElem?_modify]
    by_cases hplace : place = index
    · subst hplace
      cases hnode : hub.nodes[place]? with
      | none => rfl
      | some node =>
          have hget : hub.get place = node := by simp [get, hnode]
          rw [hget] at h
          simp [h]
    · simp [hplace]
  rw [update, hnodes]

variable {place other : NodeId} {claimed : Bool} {hub : Hub}

/-- The hub has a node at the place, and the node is claimed or not, as told. -/
structure ClaimedAt (place : NodeId) (claimed : Bool) (hub : Hub) : Prop where
  placed : place < hub.nodes.length
  flag : (hub.get place).attached = claimed

theorem ClaimedAt.update {change : Node → Node} (h : hub.ClaimedAt place claimed)
    (keeps : ∀ node, (change node).attached = node.attached) :
    (hub.update other change).ClaimedAt place claimed :=
  ⟨by rw [length_update]; exact h.placed, (field_update Node.attached keeps).trans h.flag⟩

theorem ClaimedAt.push (h : hub.ClaimedAt place claimed) (friend : Friend)
    (item : Friend → Inbound) : (hub.push other friend item).2.ClaimedAt place claimed := by
  unfold Hub.push
  split
  · exact h
  · exact h
  · exact h.update fun _ => rfl

/-- What a session asks of any node changes no claim. -/
theorem keeps_claimedAt (other place : NodeId) (claimed : Bool) :
    (node other).Keeps (ClaimedAt place claimed) where
  sendSignal friend signal hub h := h.push friend fun asSeen => .signal asSeen signal
  sendMedia friend payload hub h := by
    simp only [node]
    split
    · exact h
    · exact h.push friend fun asSeen => .media asSeen payload
  poll hub h := by
    simp only [node, poll]
    split
    · exact h
    · exact h.update fun _ => rfl
  linkStable friend kind rate hub h := h
  openMedia friend rates hub h := h.update fun _ => rfl
  closeMedia friend hub h := h.update fun _ => rfl

/-- A node is claimed once, and claiming it again changes nothing. -/
theorem attach_of_claimedAt (h : hub.ClaimedAt place claimed) :
    ((node place).attach hub).1 = !claimed ∧
      ((node place).attach hub).2.ClaimedAt place true ∧
      (claimed = true → ((node place).attach hub).2 = hub) := by
  refine ⟨congrArg not h.flag, ⟨by simpa [node] using h.placed, ?_⟩, fun hclaimed => ?_⟩
  · simp [node, get_update_self h.placed]
  · have hflag : (hub.get place).attached = true := h.flag.trans hclaimed
    exact update_eq_self (by rw [← hflag])

/-- A node that is given back is free. -/
theorem detach_of_claimedAt (h : hub.ClaimedAt place claimed) :
    ((node place).detach hub).ClaimedAt place false :=
  ⟨by simpa [node] using h.placed, by simp [node, get_update_self h.placed]⟩

end Hub

end PeerCalls
