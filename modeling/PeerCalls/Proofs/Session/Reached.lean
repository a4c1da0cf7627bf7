import PeerCalls.Proofs.Network.Feeding
import PeerCalls.Proofs.Session.Frames
import PeerCalls.Proofs.Session.Gate

/-!
# What a round leaves behind

A round handles its inbound items first, and they may begin calls with anybody.  Then it checks
the friends of all calls, reaps, and asks for frames.  In this order nothing gets past the check:
the calls that are left are the live ones whose friends are reached (`call?_round`), each of the
others got one last event from the check (`about_checkConnectivity`), and frames are asked for
in the calls that are left, so whatever is asked for may be sent (`passes_of_mem_requests`).
-/

namespace PeerCalls

namespace Network

variable {σ : Type}

/-- The state in which a live call with the friend ends when friends are checked: a friend who is
not known ends it, and one who is not connected makes it fail. -/
def fate? (network : Network σ) (state : σ) (friend : Friend) : Option CallState :=
  if !network.knows state friend then some .ended
  else if !(network.status state friend).isConnected then some .failed
  else none

theorem fate?_eq_none_iff {network : Network σ} {state : σ} {friend : Friend} :
    network.fate? state friend = none ↔ network.reaches state friend = true := by
  unfold fate? reaches
  cases network.knows state friend <;>
    cases (network.status state friend).isConnected <;> simp

/-- A call only ends in a state in which it is over. -/
theorem isTerminal_of_fate? {network : Network σ} {state : σ} {friend : Friend} {fate : CallState}
    (h : network.fate? state friend = some fate) : fate.isTerminal = true := by
  unfold fate? at h
  split at h
  · cases h
    rfl
  split at h
  · cases h
    rfl
  · cases h

end Network

namespace Progress

variable {σ : Type} {network : Network σ} {state : σ} {progress : Progress}

/-! ## The check of friends -/

/-- What the check of a friend tells: the end of a live call, if it comes to an end. -/
def lastWords (network : Network σ) (state : σ) (registry : Registry) (friend : Friend) :
    List Event :=
  if (registry.live? friend).isSome then
    (network.fate? state friend).toList.map (.callState friend)
  else []

theorem checkFriend_of_none {friend : Friend} (h : progress.registry.live? friend = none) :
    progress.checkFriend network state friend = progress := by
  simp [checkFriend, h]

theorem checkFriend_of_some {friend : Friend} {call : Call}
    (h : progress.registry.live? friend = some call) :
    progress.checkFriend network state friend =
      match network.fate? state friend with
      | some fate => progress.change (call.finish fate)
      | none => progress := by
  have hlive := Registry.isLive_of_live? h
  simp only [checkFriend, h, Call.after?_cancel hlive, Call.faulted_of_isLive hlive, Network.fate?]
  cases network.knows state friend <;>
    cases (network.status state friend).isConnected <;> rfl

/-- A call that has finished is not live any more, and all others stay as they are. -/
theorem live?_checkFriend (friend other : Friend) :
    (progress.checkFriend network state friend).registry.live? other =
      if other = friend ∧ network.reaches state friend = false then none
      else progress.registry.live? other := by
  cases hlive : progress.registry.live? friend with
  | none =>
      rw [checkFriend_of_none hlive]
      split
      · rename_i hsame
        rw [hsame.1, hlive]
      · rfl
  | some call =>
      rw [checkFriend_of_some hlive]
      cases hfate : network.fate? state friend with
      | none =>
          have hreached := Network.fate?_eq_none_iff.mp hfate
          rw [if_neg (by simp [hreached])]
      | some fate =>
          have hlost : network.reaches state friend = false := by
            rw [← Bool.not_eq_true, ← Network.fate?_eq_none_iff, hfate]
            exact Option.some_ne_none fate
          have hends : (call.finish fate).isLive = false := by
            simp [Call.isLive, Call.finish, Network.isTerminal_of_fate? hfate]
          have hfriend : (call.finish fate).friend = friend :=
            show call.friend = friend from Registry.friend_of_live? hlive
          simp only [change, Registry.live?_set, hfriend, hlost, and_true]
          by_cases hsame : friend = other
          · rw [if_pos hsame, if_pos hsame.symm, Option.filter_some_neg (by simp [hends])]
          · rw [if_neg hsame, if_neg (Ne.symm hsame)]

theorem events_checkFriend (friend : Friend) :
    (progress.checkFriend network state friend).events =
      progress.events ++ lastWords network state progress.registry friend := by
  cases hlive : progress.registry.live? friend with
  | none => simp [checkFriend_of_none hlive, lastWords, hlive]
  | some call =>
      have hfriend : call.friend = friend := Registry.friend_of_live? hlive
      rw [checkFriend_of_some hlive]
      cases hfate : network.fate? state friend with
      | none => simp [lastWords, hfate]
      | some fate => simp [lastWords, hlive, hfate, change, Call.finish, hfriend]

theorem live?_foldl_checkFriend (friends : List Friend) (other : Friend) :
    (friends.foldl (checkFriend network state) progress).registry.live? other =
      if other ∈ friends ∧ network.reaches state other = false then none
      else progress.registry.live? other := by
  induction friends generalizing progress with
  | nil => simp
  | cons friend rest ih =>
      rw [List.foldl_cons, ih, live?_checkFriend]
      by_cases hlost : network.reaches state other = false
      · by_cases hsame : other = friend
        · subst hsame
          simp [hlost]
        · simp [hlost, hsame]
      · have hfirst : ¬ (other = friend ∧ network.reaches state friend = false) := by
          rintro ⟨rfl, h⟩
          exact hlost h
        simp [hlost, hfirst]

/-- The live calls after the check are those with friends who are reached. -/
theorem live?_checkConnectivity (friend : Friend) :
    (progress.checkConnectivity network state).registry.live? friend =
      if network.reaches state friend then progress.registry.live? friend else none := by
  rw [checkConnectivity, live?_foldl_checkFriend]
  cases hreached : network.reaches state friend with
  | true => simp
  | false =>
      by_cases hmem : friend ∈ progress.registry.friends
      · simp [hmem]
      · -- with whom there is no entry, there is no live call
        have hnone : progress.registry.get? friend = none := by
          simpa [Registry.mem_friends_iff] using hmem
        simp [hmem, Registry.live?, hnone]

theorem friend_of_mem_lastWords {registry : Registry} {friend : Friend} {event : Event}
    (h : event ∈ lastWords network state registry friend) : event.friend = friend := by
  unfold lastWords at h
  split at h
  · obtain ⟨fate, -, rfl⟩ := List.mem_map.mp h
    rfl
  · cases h

/-- Each friend on the list is told of once, however often the friend is on it: the first check
leaves no live call to end. -/
theorem about_foldl_checkFriend (network : Network σ) (state : σ) (progress : Progress)
    (friends : List Friend) :
    ∃ news, (friends.foldl (checkFriend network state) progress).events =
        progress.events ++ news ∧
      ∀ friend, Event.about friend news =
        if friend ∈ friends then lastWords network state progress.registry friend else [] := by
  induction friends generalizing progress with
  | nil => exact ⟨[], (List.append_nil _).symm, fun _ => rfl⟩
  | cons first rest ih =>
      obtain ⟨news, hnews, habout⟩ := ih (progress.checkFriend network state first)
      refine ⟨lastWords network state progress.registry first ++ news, ?_, fun friend => ?_⟩
      · rw [List.foldl_cons, hnews, events_checkFriend, List.append_assoc]
      rw [Event.about_append, habout]
      by_cases hsame : friend = first
      · subst hsame
        have hquiet : lastWords network state
            (progress.checkFriend network state friend).registry friend = [] := by
          simp only [lastWords, live?_checkFriend, true_and]
          cases hreached : network.reaches state friend with
          | false => simp
          | true => simp [Network.fate?_eq_none_iff.mpr hreached]
        have hwords : Event.about friend (lastWords network state progress.registry friend) =
            lastWords network state progress.registry friend :=
          Event.about_eq_self fun _ => friend_of_mem_lastWords
        simp [hwords, hquiet]
      · have hwords : Event.about friend (lastWords network state progress.registry first) = [] :=
          Event.about_eq_nil (fun _ => friend_of_mem_lastWords) (Ne.symm hsame)
        have hkept : lastWords network state
            (progress.checkFriend network state first).registry friend =
              lastWords network state progress.registry friend := by
          simp only [lastWords, live?_checkFriend, hsame, false_and, if_false]
        simp [hwords, hkept, hsame]

theorem about_checkConnectivity (network : Network σ) (state : σ) (progress : Progress) :
    ∃ news, (progress.checkConnectivity network state).events = progress.events ++ news ∧
      ∀ friend, Event.about friend news = lastWords network state progress.registry friend := by
  obtain ⟨news, hnews, habout⟩ := about_foldl_checkFriend network state progress
    progress.registry.friends
  refine ⟨news, hnews, fun friend => ?_⟩
  rw [habout]
  split
  · rfl
  · rename_i hnobody
    have hnone : progress.registry.get? friend = none := by
      simpa [Registry.mem_friends_iff] using hnobody
    simp [lastWords, Registry.live?, hnone]

/-! ## No requests before the calls are settled -/

/-- No event so far asks for a frame. -/
def Unasking (progress : Progress) : Prop := ∀ event ∈ progress.events, event.phase ≠ .requests

theorem Unasking.report (h : progress.Unasking) {event : Event} (hevent : event.phase ≠ .requests) :
    (progress.report event).Unasking := by
  intro other hmem
  rcases List.mem_append.mp hmem with hbefore | hnew
  · exact h other hbefore
  · rwa [List.mem_singleton.mp hnew]

theorem Unasking.change (h : progress.Unasking) (call : Call) :
    (progress.change call).Unasking := by
  intro other hmem
  rcases List.mem_append.mp hmem with hbefore | hnew
  · exact h other hbefore
  · rw [List.mem_singleton.mp hnew]
    simp [Event.phase]

theorem Unasking.transitioned (h : progress.Unasking) (friend : Friend) (transition : Transition) :
    (progress.transitioned friend transition).Unasking := by
  unfold Progress.transitioned
  split
  · exact h
  split
  · exact h.change _
  · exact h

theorem Unasking.handle (h : progress.Unasking) (config : Config) (item : Inbound) :
    (progress.handle config item).Unasking := by
  cases item with
  | media friend payload =>
      rw [Progress.handle, framed]
      split
      · exact h.report (by simp [Event.phase])
      · exact h
  | signal friend signal =>
      cases signal with
      | invite rates =>
          rw [Progress.handle, invited]
          split
          · rename_i registry _
            have hentered : Unasking { progress with registry } := h
            exact hentered.report (by simp [Event.phase])
          · exact h
      | answer rates =>
          rw [Progress.handle, answered]
          split
          · exact h
          split
          · exact h.change _
          · exact h.change _
      | control command =>
          cases command with
          | cancel => exact h.transitioned friend .cancel
          | pause => exact h.transitioned friend .pause
          | resume => exact h.transitioned friend .resume
          | _ => exact h
      | bitRate kind rate =>
          rw [Progress.handle, announced]
          split <;> exact h

end Progress

/-! ## Requests -/

/-- The order in which frames are asked for: by friends, and audio before video. -/
def Event.AskedBefore : Event → Event → Prop
  | .frameRequest friend kind, .frameRequest other otherKind =>
    friend < other ∨ friend = other ∧ kind = .audio ∧ otherKind = .video
  | _, _ => False

theorem Call.mem_frameRequests_iff {call : Call} {event : Event} :
    event ∈ call.frameRequests ↔
      ∃ kind, call.canSend kind = true ∧ event = .frameRequest call.friend kind := by
  simp only [frameRequests, List.mem_map, List.mem_filter]
  constructor
  · rintro ⟨kind, ⟨-, hsend⟩, rfl⟩
    exact ⟨kind, hsend, rfl⟩
  · rintro ⟨kind, hsend, rfl⟩
    exact ⟨kind, ⟨by cases kind <;> simp [MediaKind.all], hsend⟩, rfl⟩

theorem Call.pairwise_frameRequests (call : Call) :
    call.frameRequests.Pairwise Event.AskedBefore := by
  have hkinds : MediaKind.all.Pairwise fun kind other => kind = .audio ∧ other = .video := by
    simp [MediaKind.all]
  exact (hkinds.filter call.canSend).map _ fun kind other horder => Or.inr ⟨rfl, horder⟩

/-- The calls of a registry ask for their frames in order. -/
theorem Registry.pairwise_frameRequests (registry : Registry) :
    (registry.calls.flatMap Call.frameRequests).Pairwise Event.AskedBefore := by
  refine List.pairwise_flatMap.mpr ⟨fun call _ => call.pairwise_frameRequests, ?_⟩
  refine registry.ordered.imp fun {first second} hbefore event hevent other hother => ?_
  obtain ⟨kind, -, rfl⟩ := Call.mem_frameRequests_iff.mp hevent
  obtain ⟨otherKind, -, rfl⟩ := Call.mem_frameRequests_iff.mp hother
  exact Or.inl hbefore

namespace Session

variable {σ : Type} (network : Network σ) (session : Session) (state : σ)

theorem unasking_checked : (session.checked network state).Unasking := by
  have htaken : (session.taken network state).1.Unasking :=
    Progress.takeInbound_induction (P := fun progress _ => progress.Unasking)
      (fun _ _ _ hbefore _ => hbefore)
      (fun _ _ item _ hbefore _ => hbefore.handle session.config item) _
      fun _ hnone => absurd hnone List.not_mem_nil
  refine Progress.checkConnectivity_induction (fun progress friend hbefore => ?_) htaken
  intro event hmem
  rw [Progress.events_checkFriend] at hmem
  rcases List.mem_append.mp hmem with htold | hlast
  · exact hbefore event htold
  · unfold Progress.lastWords at hlast
    split at hlast
    · obtain ⟨fate, -, rfl⟩ := List.mem_map.mp hlast
      simp [Event.phase]
    · cases hlast

/-- All requests of a batch come from the calls that are left in the end. -/
theorem inPhase_requests_batch :
    Event.inPhase .requests (session.batch network state) = session.requests network state := by
  have hnone : Event.inPhase .requests (session.checked network state).events = [] :=
    List.filter_eq_nil_iff.mpr fun event hmem hphase =>
      session.unasking_checked network state event hmem (of_decide_eq_true hphase)
  have hall : Event.inPhase .requests (session.requests network state) =
      session.requests network state := by
    refine List.filter_eq_self.mpr fun event hmem => ?_
    obtain ⟨call, -, hrequest⟩ := List.mem_flatMap.mp hmem
    obtain ⟨kind, -, rfl⟩ := Call.mem_frameRequests_iff.mp hrequest
    rfl
  rw [batch, Event.inPhase, List.filter_append]
  exact (congrArg₂ (· ++ ·) hnone hall).trans (List.nil_append _)

/-- The calls that a round leaves are the live ones with friends who were reached. -/
theorem call?_round (friend : Friend) :
    (session.round network state).session.call? friend =
      if network.reaches (session.taken network state).2 friend then
        (session.taken network state).1.registry.live? friend
      else none := by
  rw [call?, registry_round, Registry.get?_reap, checked, Progress.live?_checkConnectivity]

/-- A call is asked for the frames of the streams that flow in it and are not withheld. -/
theorem mem_requests_iff {friend : Friend} {kind : MediaKind} :
    .frameRequest friend kind ∈ session.requests network state ↔
      ∃ call, (session.round network state).session.call? friend = some call ∧
        call.canSend kind = true := by
  rw [requests, ← registry_round, List.mem_flatMap]
  constructor
  · rintro ⟨call, hmem, hrequest⟩
    obtain ⟨asked, hsend, hsame⟩ := Call.mem_frameRequests_iff.mp hrequest
    obtain ⟨rfl, rfl⟩ := Event.frameRequest.inj hsame
    exact ⟨call, Registry.mem_calls_iff.mp hmem, hsend⟩
  · rintro ⟨call, hcall, hsend⟩
    obtain rfl : call.friend = friend := Registry.friend_of_get? hcall
    exact ⟨call, Registry.mem_of_get? hcall, Call.mem_frameRequests_iff.mpr ⟨kind, hsend, rfl⟩⟩

/-- On a network that reaches after a round whom it reached when friends were checked, the
calls that are left are live, and their friends are reached. -/
theorem reached_of_mem_round
    (hsteady : network.reaches (session.round network state).network =
      network.reaches (session.taken network state).2)
    {call : Call} (h : call ∈ (session.round network state).session.registry.calls) :
    call.isLive = true ∧
      network.reaches (session.round network state).network call.friend = true := by
  have hcall := Registry.mem_calls_iff.mp h
  rw [← call?, call?_round] at hcall
  split at hcall
  · rename_i hreached
    exact ⟨Registry.isLive_of_live? hcall, by rw [hsteady, hreached]⟩
  · cases hcall

/-- A valid frame that is asked for passes the gate. -/
theorem passes_of_mem_requests
    (hsteady : network.reaches (session.round network state).network =
      network.reaches (session.taken network state).2)
    {friend : Friend} {payload : Payload}
    (hasked : .frameRequest friend payload.kind ∈ session.requests network state)
    (hvalid : payload.validate session.config = .ok ()) :
    (session.round network state).session.Passes network (session.round network state).network
      friend payload := by
  obtain ⟨call, hcall, hsend⟩ := (session.mem_requests_iff network state).mp hasked
  have hfriend : call.friend = friend := Registry.friend_of_get? hcall
  have hreached :=
    (session.reached_of_mem_round network state hsteady (Registry.mem_of_get? hcall)).2
  rw [hfriend, Network.reaches, Bool.and_eq_true] at hreached
  exact
    { complete := (Payload.validate_eq_ok_iff.mp hvalid).complete
      known := hreached.1
      flows := ⟨call, hcall, by simpa [Call.canSend] using hsend⟩
      valid := by rw [config_round, hvalid] }

/-- A round of an open session, on a network that still reaches afterwards whom it reached when
friends were checked.  The calls that are left are the ones that were live after the inbound
items and whose friends are reached; so each of them is live, and its friend is known and
connected.  The check ended every other live call with one event, as the friend was gone or
offline.  What the batch asks for are, in order, the frames that the calls that are left may
send, and each valid frame of a kind that was asked for is pushed. -/
theorem settled_round {network : Network σ} {session : Session} {state : σ}
    (hopen : session.closed = false) (hidle : session.isIterating = false)
    (hsteady : network.reaches (session.iterate network state).network =
      network.reaches (session.taken network state).2) :
    let handled := (session.taken network state).1
    let polled := (session.taken network state).2
    let outcome := session.iterate network state
    let events := session.batch network state
    let asked := Event.inPhase .requests events
    (outcome.session.deliveries =
      if events = [] then session.deliveries
      else ⟨session.listener, Event.deliveryOrder events, true⟩ :: session.deliveries) ∧
    (∀ friend, outcome.session.call? friend =
      if network.reaches polled friend then handled.registry.live? friend else none) ∧
    (∀ call ∈ outcome.session.registry.calls, call.state.isTerminal = false ∧
      network.knows outcome.network call.friend = true ∧
      (network.status outcome.network call.friend).isConnected = true) ∧
    (∃ ends, events = handled.events ++ ends ++ asked ∧
      ∀ friend, Event.about friend ends =
        if handled.registry.isInCall friend then
          (network.fate? polled friend).toList.map (.callState friend)
        else []) ∧
    asked.Pairwise Event.AskedBefore ∧
    (∀ friend kind, .frameRequest friend kind ∈ asked ↔
      ∃ call, outcome.session.call? friend = some call ∧ call.canSend kind = true) ∧
    (∀ friend payload, .frameRequest friend payload.kind ∈ asked →
      payload.validate session.config = .ok () →
      ∃ owned, payload.owned session.config = .ok owned ∧
        outcome.session.sendFrame network outcome.network friend payload =
          ⟨(network.sendMedia friend owned outcome.network).1.mapError .rejected,
            outcome.session, (network.sendMedia friend owned outcome.network).2⟩) := by
  intro handled polled outcome events asked
  have hround : outcome = session.round network state := iterate_of_open network state hopen hidle
  have hrequests : asked = session.requests network state :=
    session.inPhase_requests_batch network state
  rw [iterate_of_open network state hopen hidle] at hsteady
  rw [hrequests, hround]
  refine ⟨session.deliveries_round network state, session.call?_round network state,
    fun call hmem => ?_, ?_, Registry.pairwise_frameRequests _,
    fun _ _ => session.mem_requests_iff network state, fun friend payload hasked hvalid => ?_⟩
  · obtain ⟨hlive, hreached⟩ := session.reached_of_mem_round network state hsteady hmem
    rw [Network.reaches, Bool.and_eq_true] at hreached
    exact ⟨by simpa [Call.isLive] using hlive, hreached⟩
  · obtain ⟨ends, hends, habout⟩ := Progress.about_checkConnectivity network polled handled
    exact ⟨ends, congrArg (· ++ session.requests network state) hends, habout⟩
  · have hpasses := session.passes_of_mem_requests network state hsteady hasked hvalid
    have howned := hpasses.owned_eq
    rw [config_round] at howned
    exact ⟨payload.cut, howned,
      sendFrame_of_passes ((session.closed_round network state).trans hopen) hpasses⟩

/-- On a network that hands out an inbox a round does not change whom the network reaches. -/
theorem reaches_iterate {inbox : σ → List Inbound} (hfeeds : network.Feeds inbox)
    (hopen : session.closed = false) (hidle : session.isIterating = false) :
    network.reaches (session.iterate network state).network =
      network.reaches (session.taken network state).2 := by
  rw [iterate_of_open network state hopen hidle, round_eq]
  exact (hfeeds.release _ _).2

/-- Calls with three friends, of whom the first has answered, the second has gone offline and
the third is not known any more.  Somebody who never was known has just called. -/
def partedCalls : Station Hub :=
  let hub := (((Hub.fresh 2).connect 0 ⟨1⟩ 1 ⟨0⟩).update 0 (·.addFriend ⟨2⟩ .tcp)).update 0
    (·.addFriend ⟨3⟩ .udp)
  let start : Station Hub :=
    ⟨.fresh .standard Config.standard_usable, ((Hub.node 0).attach hub).2⟩
  start.run (Hub.node 0)
    [.perform (.call ⟨1⟩ ⟨48, 500⟩), .perform (.call ⟨2⟩ ⟨48, 0⟩), .perform (.call ⟨3⟩ ⟨48, 0⟩),
      .drift fun hub => ((Hub.node 1).sendSignal ⟨0⟩ (.answer ⟨48, 0⟩) hub).2,
      .drift fun hub => hub.update 0 (·.setStatus ⟨2⟩ .offline),
      .drift fun hub => hub.update 0 (·.removeFriend ⟨3⟩),
      .drift fun hub => hub.update 0 (·.receive (.signal ⟨9⟩ (.invite ⟨48, 0⟩)))]

/-- Only the call with the first friend is left, both of its streams are asked for, and a click
for the friend is pushed. -/
theorem settled_round_partedCalls :
    let outcome := partedCalls.session.iterate (Hub.node 0) partedCalls.state
    let handled := (partedCalls.session.taken (Hub.node 0) partedCalls.state).1
    let events := partedCalls.session.batch (Hub.node 0) partedCalls.state
    let pushed : Payload := .audio { AudioFrame.click with pcm := .replicate 20 0 }
    (handled.registry.friends = [⟨1⟩, ⟨2⟩, ⟨3⟩, ⟨9⟩] ∧
      outcome.session.registry.friends = [⟨1⟩]) ∧
    (∃ ends, events = handled.events ++ ends ++
        [.frameRequest ⟨1⟩ .audio, .frameRequest ⟨1⟩ .video] ∧
      Event.about ⟨1⟩ ends = [] ∧ Event.about ⟨2⟩ ends = [.callState ⟨2⟩ .failed] ∧
      Event.about ⟨3⟩ ends = [.callState ⟨3⟩ .ended] ∧
      Event.about ⟨9⟩ ends = [.callState ⟨9⟩ .ended]) ∧
    outcome.session.sendFrame (Hub.node 0) outcome.network ⟨1⟩ (.audio .click) =
      ⟨.ok (), outcome.session, ((Hub.node 0).sendMedia ⟨1⟩ pushed outcome.network).2⟩ := by
  intro outcome handled events pushed
  have hopen : partedCalls.session.closed = false := by decide
  have hidle : partedCalls.session.isIterating = false := by decide
  obtain ⟨-, -, -, ⟨ends, hends, habout⟩, -, hasked, hsent⟩ :=
    settled_round hopen hidle (reaches_iterate _ _ _ (Hub.feeds_node 0) hopen hidle)
  have hrequests : Event.inPhase .requests events =
      [.frameRequest ⟨1⟩ .audio, .frameRequest ⟨1⟩ .video] := by decide
  rw [hrequests] at hends hsent
  obtain ⟨owned, howned, hpush⟩ := hsent ⟨1⟩ (.audio .click) (by decide) rfl
  have hcut : Payload.owned .standard (.audio .click) = .ok pushed := by rfl
  obtain rfl : pushed = owned := Except.ok.inj (hcut.symm.trans howned)
  refine ⟨by decide, ⟨ends, hends, ?_, ?_, ?_, ?_⟩, hpush⟩
  · exact (habout ⟨1⟩).trans (by decide)
  · exact (habout ⟨2⟩).trans (by decide)
  · exact (habout ⟨3⟩).trans (by decide)
  · exact (habout ⟨9⟩).trans (by decide)

end Session

end PeerCalls
