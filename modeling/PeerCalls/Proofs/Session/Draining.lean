import PeerCalls.Proofs.Config.Usable
import PeerCalls.Proofs.Network.Feeding
import PeerCalls.Proofs.Session.Story

/-!
# Rounds until the inbox is empty

A round takes some of the items that wait in the inbox, and reaps what is over; the next round
goes on with the rest.  Once rounds have emptied the inbox, it makes no difference where one
of them ended: handling an item looks at live calls only, and reaping takes none of them away.

`Reflects` compares a session in the middle of its rounds with the progress of handling the
items of the inbox one after the other, without any rounds.  The live calls are the same.
What was handed out so far, followed by what is still to be handed out, are the events of
that progress, as far as each phase but the last one goes.  Every step of the session keeps
this, so it says all about the session once the inbox is empty.
-/

namespace PeerCalls

namespace Progress

variable {config : Config} {progress other : Progress}

/-! ## Items under the same live calls -/

/-- Between stages with the same live calls, items make no difference. -/
theorem handleAll_of_live? (config : Config)
    (h : ∀ friend, other.registry.live? friend = progress.registry.live? friend)
    (items : List Inbound) :
    (∀ friend, (other.handleAll config items).registry.live? friend =
      (progress.handleAll config items).registry.live? friend) ∧
    ∃ news, (progress.handleAll config items).events = progress.events ++ news ∧
      (other.handleAll config items).events = other.events ++ news := by
  induction items generalizing progress other with
  | nil => exact ⟨h, [], (List.append_nil _).symm, (List.append_nil _).symm⟩
  | cons item later ih =>
      obtain ⟨entered, told, -, -, hstep⟩ := handle_eq_enter config progress item
      have hcalls : ∀ friend, (other.enter entered told).registry.live? friend =
          (progress.enter entered told).registry.live? friend := by
        intro friend
        cases entered with
        | none => exact h friend
        | some call => simp only [enter, Option.elim_some, Registry.live?_set, h]
      rw [handleAll_cons, handleAll_cons, hstep progress rfl, hstep other (h item.friend)]
      obtain ⟨hlive, news, hprogress, hother⟩ := ih hcalls
      refine ⟨hlive, told ++ news, ?_, ?_⟩
      · rw [hprogress, ← List.append_assoc]
        rfl
      · rw [hother, ← List.append_assoc]
        rfl

/-- Who is in a call after some items was so before, or sent one of them. -/
theorem isInCall_handleAll {items : List Inbound} {friend : Friend}
    (h : (progress.handleAll config items).registry.isInCall friend = true) :
    progress.registry.isInCall friend = true ∨ friend ∈ items.map Inbound.friend := by
  by_cases hsent : friend ∈ items.map Inbound.friend
  · exact Or.inr hsent
  · left
    have hnone : Inbound.ofFriend friend items = [] := by
      refine List.filter_eq_nil_iff.mpr fun item hitem hfriend => hsent ?_
      exact List.mem_map.mpr ⟨item, hitem, of_decide_eq_true hfriend⟩
    have hagrees := (Agrees.refl friend progress).handleAll_ofFriend config items
    rw [hnone, handleAll_nil] at hagrees
    rwa [Registry.isInCall, Registry.live?, hagrees.entry]

/-- A round finds nothing wrong with friends that the network reaches. -/
theorem checkConnectivity_of_reaches {σ : Type} {network : Network σ} {state : σ}
    (h : ∀ friend, progress.registry.isInCall friend = true →
      network.reaches state friend = true) :
    progress.checkConnectivity network state = progress := by
  refine checkConnectivity_induction (P := fun checked => checked = progress) ?_ rfl
  rintro _ friend rfl
  unfold checkFriend
  split
  · rfl
  · rename_i call hlive
    have hreached := h friend (by rw [Registry.isInCall, hlive]; rfl)
    obtain ⟨hknown, hconnected⟩ : network.knows state friend = true ∧
        (network.status state friend).isConnected = true := by
      simpa [Network.reaches] using hreached
    simp [hknown, hconnected]

end Progress

/-! ## What is handed out -/

namespace Event

theorem inPhase_append (phase : Phase) (earlier later : List Event) :
    inPhase phase (earlier ++ later) = inPhase phase earlier ++ inPhase phase later :=
  List.filter_append earlier later

/-- Delivery brings the phases into an order, and leaves each of them as it is. -/
theorem inPhase_deliveryOrder (phase : Phase) (events : List Event) :
    inPhase phase (deliveryOrder events) = inPhase phase events := by
  have hself : inPhase phase (inPhase phase events) = inPhase phase events := by
    simp [inPhase, List.filter_filter]
  have hother : ∀ second, second ≠ phase → inPhase phase (inPhase second events) = [] := by
    intro second hne
    refine List.filter_eq_nil_iff.mpr fun event hmem hphase => hne ?_
    obtain ⟨-, hsecond⟩ := List.mem_filter.mp hmem
    exact (of_decide_eq_true hsecond).symm.trans (of_decide_eq_true hphase)
  simp only [deliveryOrder, inPhase_append]
  cases phase with
  | calls => simp [hself, hother .frames, hother .requests]
  | frames => simp [hself, hother .calls, hother .requests]
  | requests => simp [hself, hother .calls, hother .frames]

end Event

namespace Session

variable {σ : Type} (network : Network σ) (session : Session) (state : σ)

/-- The events that are on their way to a listener. -/
def pending (session : Session) : List Event := session.deliveries.flatMap Delivery.pending

/-- The event that the next step of the innermost delivery hands out. -/
def handsOut? (session : Session) : Option Event :=
  match session.advance with
  | some (.handOut _ event, _) => some event
  | _ => none

/-- Requests for frames are all that the last phase of a round consists of. -/
theorem inPhase_requests {phase : Phase} (h : phase ≠ .requests) :
    Event.inPhase phase (session.requests network state) = [] := by
  refine List.filter_eq_nil_iff.mpr fun event hmem hphase => h ?_
  obtain ⟨call, -, hrequest⟩ := List.mem_flatMap.mp hmem
  obtain ⟨kind, -, rfl⟩ := List.mem_map.mp hrequest
  exact (of_decide_eq_true hphase).symm

variable {session}

/-- A step of a delivery hands out the first one of the pending events, if anything. -/
theorem pending_of_advance {step : DeliveryStep} {after : Session}
    (h : session.advance = some (step, after)) :
    session.handsOut?.toList ++ after.pending = session.pending := by
  simp only [handsOut?, h]
  unfold advance at h
  split at h
  · cases h
  · rename_i delivery outer hdeliveries
    split at h
    all_goals
      rename_i hpending
      cases h
      simp [pending, hdeliveries, hpending]

/-- The steps of a delivery leave only deliveries that were there. -/
theorem ofRound_of_advance {step : DeliveryStep} {after : Session}
    (h : session.advance = some (step, after))
    (hrounds : ∀ delivery ∈ session.deliveries, delivery.ofRound = true) :
    ∀ delivery ∈ after.deliveries, delivery.ofRound = true := by
  unfold advance at h
  split at h
  · cases h
  · rename_i delivery outer hdeliveries
    rw [hdeliveries] at hrounds
    obtain ⟨hfirst, houter⟩ := List.forall_mem_cons.mp hrounds
    split at h
    · cases h
      exact houter
    · cases h
      exact List.forall_mem_cons.mpr ⟨hfirst, houter⟩

/-- A session on which rounds are all that is delivered is idle when it is not in a round. -/
theorem deliveries_eq_nil_of_idle (hidle : session.isIterating = false)
    (hrounds : ∀ delivery ∈ session.deliveries, delivery.ofRound = true) :
    session.deliveries = [] := by
  refine List.eq_nil_iff_forall_not_mem.mpr fun delivery hmem => ?_
  have hround : session.isIterating = true := List.any_eq_true.mpr ⟨delivery, hmem, hrounds _ hmem⟩
  rw [hidle] at hround
  cases hround

/-- On an idle session all that a round leaves pending is its own batch. -/
theorem pending_round (hidle : session.deliveries = []) :
    (session.round network state).session.pending =
      Event.deliveryOrder ((session.checked network state).events ++
        session.requests network state) := by
  simp only [pending, round_eq, deliveries_dispatch, hidle]
  split
  · rename_i hnothing
    rw [hnothing]
    rfl
  · simp

/-- What a round leaves to deliver is its own batch, besides what there was. -/
theorem ofRound_of_round (hrounds : ∀ delivery ∈ session.deliveries, delivery.ofRound = true) :
    ∀ delivery ∈ (session.round network state).session.deliveries, delivery.ofRound = true := by
  intro delivery hmem
  simp only [round_eq, deliveries_dispatch] at hmem
  split at hmem
  · exact hrounds delivery hmem
  · rcases List.mem_cons.mp hmem with rfl | hbefore
    · rfl
    · exact hrounds delivery hbefore

end Session

/-! ## Rounds until the inbox is empty -/

namespace Station

variable {σ : Type} {network : Network σ} {inbox : σ → List Inbound} {station : Station σ}

/-- The events that a move hands out, which is one, at most. -/
def handsOut (station : Station σ) : Move σ → List Event
  | .deliver => station.session.handsOut?.toList
  | _ => []

/-- The events that a run hands out, in order. -/
def handedOut (network : Network σ) : Station σ → List (Move σ) → List Event
  | _, [] => []
  | station, move :: moves =>
    station.handsOut move ++ handedOut network (station.after network move) moves

/-- All that the application does is to call for a round, at least once, and to be told of its
events, until the inbox is empty and nothing is left to be told. -/
structure Drains (network : Network σ) (inbox : σ → List Inbound) (station : Station σ)
    (moves : List (Move σ)) : Prop where
  rounds : ∀ move ∈ moves, move = .perform .iterate ∨ move = .deliver
  begun : .perform .iterate ∈ moves
  emptied : inbox (station.run network moves).state = []
  delivered : (station.run network moves).session.deliveries = []

/-- A session in the middle of its rounds, where `told` was handed out, and the progress of
handling the same items one after the other. -/
structure Reflects (network : Network σ) (inbox : σ → List Inbound) (progress : Progress)
    (station : Station σ) (told : List Event) : Prop where
  isOpen : station.session.closed = false
  rounds : ∀ delivery ∈ station.session.deliveries, delivery.ofRound = true
  live : ∀ friend, station.session.registry.live? friend = progress.registry.live? friend
  told : ∀ phase, phase ≠ .requests →
    Event.inPhase phase (told ++ station.session.pending) = Event.inPhase phase progress.events
  reached : ∀ friend, station.session.registry.isInCall friend = true ∨
    friend ∈ (inbox station.state).map Inbound.friend →
      network.reaches station.state friend = true

variable {progress : Progress} {told : List Event}

/-! ### One step -/

/-- A session that delivers nothing reflects its own calls, before it has handled anything. -/
theorem reflects_start (session : Session) {state : σ} (hopen : session.closed = false)
    (hidle : session.deliveries = [])
    (hreached : ∀ friend ∈ session.registry.friends ++ (inbox state).map Inbound.friend,
      network.reaches state friend = true) :
    Reflects network inbox ⟨session.registry, []⟩ ⟨session, state⟩ [] := by
  refine ⟨hopen, fun delivery hmem => ?_, fun _ => rfl, fun phase _ => ?_, fun friend h => ?_⟩
  · rw [show (⟨session, state⟩ : Station σ).session.deliveries = [] from hidle] at hmem
    cases hmem
  · rw [Session.pending, show (⟨session, state⟩ : Station σ).session.deliveries = [] from hidle]
    rfl
  · refine hreached friend (List.mem_append.mpr (h.imp_left fun hcall => ?_))
    obtain ⟨call, hlive⟩ := Option.isSome_iff_exists.mp hcall
    exact Registry.mem_friends_iff.mpr (Option.isSome_iff_exists.mpr
      ⟨call, Registry.get?_of_live? hlive⟩)

/-- A step of a delivery hands out what was pending, and nothing else changes. -/
theorem Reflects.deliver (h : Reflects network inbox progress station told) :
    Reflects network inbox progress (station.after network .deliver)
        (told ++ station.session.handsOut?.toList) ∧
      (station.after network .deliver).session.registry = station.session.registry ∧
      (station.after network .deliver).state = station.state := by
  simp only [after]
  cases hadvance : station.session.advance with
  | none =>
      have hnothing : station.session.handsOut? = none := by rw [Session.handsOut?, hadvance]
      rw [hnothing, Option.toList_none, List.append_nil]
      exact ⟨h, rfl, rfl⟩
  | some result =>
      obtain ⟨step, session⟩ := result
      have hsession := Session.advance_eq hadvance
      have hregistry : session.registry = station.session.registry := by rw [hsession]
      have hclosed : session.closed = station.session.closed := by rw [hsession]
      have hpending := Session.pending_of_advance hadvance
      refine ⟨⟨?_, ?_, ?_, ?_, ?_⟩, hregistry, rfl⟩
      · exact hclosed.trans h.isOpen
      · exact Session.ofRound_of_advance hadvance h.rounds
      · rw [hregistry]
        exact h.live
      · intro phase hphase
        rw [List.append_assoc, hpending]
        exact h.told phase hphase
      · rw [hregistry]
        exact h.reached

/-- What a round has handled and checked is what its items make of the calls, because the check
of friends that are reached comes to nothing. -/
theorem Reflects.checked (hfeeds : network.Feeds inbox)
    (h : Reflects network inbox progress station told) :
    let config := station.session.config
    let handled := Progress.handleAll config ⟨station.session.registry, []⟩
      ((inbox station.state).take config.inboundLimit.toNat)
    station.session.checked network station.state = handled ∧
      ∀ friend, handled.registry.isInCall friend = true →
        network.reaches station.state friend = true := by
  intro config handled
  obtain ⟨htaken, -, hreaches⟩ := hfeeds.takeInbound config config.inboundLimit.toNat
    ⟨station.session.registry, []⟩ station.state
  have hinCall : ∀ friend, handled.registry.isInCall friend = true →
      network.reaches station.state friend = true := by
    intro friend hcall
    refine h.reached friend ((Progress.isInCall_handleAll hcall).imp_right fun hmem => ?_)
    obtain ⟨item, hitem, hfriend⟩ := List.mem_map.mp hmem
    exact List.mem_map.mpr ⟨item, List.mem_of_mem_take hitem, hfriend⟩
  refine ⟨?_, hinCall⟩
  have htaken' : (station.session.taken network station.state).1 = handled := htaken
  have hreaches' : network.reaches (station.session.taken network station.state).2 =
      network.reaches station.state := hreaches
  unfold Session.checked
  rw [htaken']
  refine Progress.checkConnectivity_of_reaches fun friend hcall => ?_
  rw [hreaches']
  exact hinCall friend hcall

/-- A round does to the session what its items do to the progress, and reaps. -/
theorem Reflects.round (hfeeds : network.Feeds inbox)
    (h : Reflects network inbox progress station told)
    (hidle : station.session.deliveries = []) :
    let config := station.session.config
    let items := (inbox station.state).take config.inboundLimit.toNat
    let outcome := station.session.round network station.state
    Reflects network inbox (progress.handleAll config items) ⟨outcome.session, outcome.network⟩
        told ∧
      outcome.session.registry = (progress.handleAll config items).registry.reap.2 ∧
      inbox outcome.network = (inbox station.state).drop config.inboundLimit.toNat := by
  intro config items outcome
  obtain ⟨-, hrest, hreaches⟩ := hfeeds.takeInbound config config.inboundLimit.toNat
    ⟨station.session.registry, []⟩ station.state
  obtain ⟨hinbox, hreleased⟩ := hfeeds.release
    (station.session.checked network station.state).registry.finished
    (station.session.taken network station.state).2
  have hdropped : inbox outcome.network = (inbox station.state).drop config.inboundLimit.toNat :=
    hinbox.trans hrest
  obtain ⟨hlive, news, hprogress, hsession⟩ := Progress.handleAll_of_live? config
    (show ∀ friend, (⟨station.session.registry, []⟩ : Progress).registry.live? friend =
      progress.registry.live? friend from h.live) items
  obtain ⟨hchecked, hinCall⟩ := h.checked hfeeds
  have hregistry : outcome.session.registry =
      (Progress.handleAll config ⟨station.session.registry, []⟩ items).registry.reap.2 := by
    rw [← hchecked]
    exact Session.registry_round network station.session station.state
  have hpending : outcome.session.pending =
      Event.deliveryOrder (news ++ station.session.requests network station.state) := by
    have hevents : (station.session.checked network station.state).events = news := by
      rw [hchecked]
      exact hsession
    rw [← hevents]
    exact Session.pending_round network station.state hidle
  refine ⟨⟨?_, ?_, fun friend => ?_, fun phase hphase => ?_, fun friend hfriend => ?_⟩, ?_,
    hdropped⟩
  · have hclosed : outcome.session.closed = station.session.closed := by
      simp only [outcome, Session.round_eq, Session.closed_dispatch]
    exact hclosed.trans h.isOpen
  · exact Session.ofRound_of_round network station.state h.rounds
  · rw [hregistry, Registry.live?_reap]
    exact hlive friend
  · have htold := h.told phase hphase
    rw [Session.pending, hidle, List.flatMap_nil, List.append_nil] at htold
    simp only [hpending, Event.inPhase_append, Event.inPhase_deliveryOrder,
      Session.inPhase_requests network station.session station.state hphase, List.append_nil,
      htold, hprogress]
  · have hsame : network.reaches outcome.network = network.reaches station.state :=
      hreleased.trans hreaches
    rw [hsame]
    rcases hfriend with hcall | hsent
    · refine hinCall friend ?_
      rwa [hregistry, Registry.isInCall, Registry.live?_reap] at hcall
    · refine h.reached friend (Or.inr ?_)
      rw [hdropped] at hsent
      obtain ⟨item, hitem, hitemFriend⟩ := List.mem_map.mp hsent
      exact List.mem_map.mpr ⟨item, List.mem_of_mem_drop hitem, hitemFriend⟩
  · rw [hregistry]
    refine Registry.ext_get? fun friend => ?_
    rw [Registry.get?_reap, Registry.get?_reap]
    exact hlive friend

/-- A round on an idle session leaves one that reflects what it has handled by then; nothing
that is over is left, and what there is to handle altogether is the same. -/
theorem Reflects.iterate (hfeeds : network.Feeds inbox)
    (h : Reflects network inbox progress station told)
    (hidle : station.session.deliveries = []) :
    ∃ later, Reflects network inbox later (station.after network (.perform .iterate)) told ∧
      (station.after network (.perform .iterate)).session.registry = later.registry.reap.2 ∧
      later.handleAll station.session.config
          (inbox (station.after network (.perform .iterate)).state) =
        progress.handleAll station.session.config (inbox station.state) := by
  have hnotIterating : station.session.isIterating = false := by
    simp [Session.isIterating, hidle]
  have hround : station.after network (.perform .iterate) =
      ⟨(station.session.round network station.state).session,
        (station.session.round network station.state).network⟩ := by
    simp [Station.after, Session.perform, Outcome.map,
      Session.iterate_of_open network station.state h.isOpen hnotIterating]
  obtain ⟨hafter, hregistry, hinbox⟩ := h.round hfeeds hidle
  rw [hround]
  refine ⟨_, hafter, hregistry, ?_⟩
  rw [hinbox, ← Progress.handleAll_append, List.take_append_drop]

/-! ### Runs -/

theorem Reflects.after (hfeeds : network.Feeds inbox)
    (h : Reflects network inbox progress station told)
    (hreaped : station.session.registry = progress.registry.reap.2) {move : Move σ}
    (hmove : move = .perform .iterate ∨ move = .deliver) :
    ∃ later, Reflects network inbox later (station.after network move)
        (told ++ station.handsOut move) ∧
      (station.after network move).session.registry = later.registry.reap.2 ∧
      later.handleAll station.session.config (inbox (station.after network move).state) =
        progress.handleAll station.session.config (inbox station.state) := by
  rcases hmove with rfl | rfl
  · have hquiet : told ++ station.handsOut (.perform .iterate) = told := List.append_nil told
    rw [hquiet]
    cases hiterating : station.session.isIterating with
    | true =>
        -- a round that is called for in the middle of another one does nothing
        have hsame : station.after network (.perform .iterate) = station := by
          simp [Station.after, Session.perform, Outcome.map, Session.iterate, hiterating]
        rw [hsame]
        exact ⟨progress, h, hreaped, rfl⟩
    | false => exact h.iterate hfeeds (Session.deliveries_eq_nil_of_idle hiterating h.rounds)
  · obtain ⟨hafter, hregistry, hstate⟩ := h.deliver
    refine ⟨progress, hafter, hregistry.trans hreaped, ?_⟩
    rw [hstate]

theorem Reflects.run (hfeeds : network.Feeds inbox)
    (h : Reflects network inbox progress station told)
    (hreaped : station.session.registry = progress.registry.reap.2) {moves : List (Move σ)}
    (hrounds : ∀ move ∈ moves, move = .perform .iterate ∨ move = .deliver) :
    ∃ later, Reflects network inbox later (station.run network moves)
        (told ++ handedOut network station moves) ∧
      (station.run network moves).session.registry = later.registry.reap.2 ∧
      later.handleAll station.session.config (inbox (station.run network moves).state) =
        progress.handleAll station.session.config (inbox station.state) := by
  induction moves generalizing progress station told with
  | nil => exact ⟨progress, by simpa [handedOut] using h, hreaped, rfl⟩
  | cons move moves ih =>
      obtain ⟨hmove, hmoves⟩ := List.forall_mem_cons.mp hrounds
      obtain ⟨middle, hmiddle, hmiddleReaped, hsame⟩ := h.after hfeeds hreaped hmove
      obtain ⟨later, hlater, hlaterReaped, hend⟩ := ih hmiddle hmiddleReaped hmoves
      rw [config_after] at hend
      rw [List.append_assoc] at hlater
      exact ⟨later, hlater, hlaterReaped, hend.trans hsame⟩

/-- Rounds on an idle session, once they have emptied the inbox, have done what handling its
items one after the other does. -/
theorem Reflects.drained (hfeeds : network.Feeds inbox)
    (h : Reflects network inbox progress station [])
    (hidle : station.session.deliveries = []) {moves : List (Move σ)}
    (hdrains : Drains network inbox station moves) :
    let whole := progress.handleAll station.session.config (inbox station.state)
    (station.run network moves).session.registry = whole.registry.reap.2 ∧
      ∀ phase, phase ≠ .requests →
        Event.inPhase phase (handedOut network station moves) =
          Event.inPhase phase whole.events := by
  obtain ⟨hrounds, hbegun, hemptied, hdelivered⟩ := hdrains
  induction moves with
  | nil => cases hbegun
  | cons move moves ih =>
      obtain ⟨hmove, hmoves⟩ := List.forall_mem_cons.mp hrounds
      rcases hmove with rfl | rfl
      · -- whatever comes after this first round begins with what it has reaped
        obtain ⟨middle, hmiddle, hreaped, hsame⟩ := h.iterate hfeeds hidle
        obtain ⟨later, hlater, hregistry, hend⟩ := hmiddle.run hfeeds hreaped hmoves
        rw [config_after, hsame] at hend
        have hall : later = progress.handleAll station.session.config (inbox station.state) := by
          rw [← hend, show inbox ((station.after network (.perform .iterate)).run network
            moves).state = [] from hemptied]
          rfl
        rw [← hall]
        refine ⟨hregistry, fun phase hphase => ?_⟩
        have htold := hlater.told phase hphase
        have hnothing : ((station.after network (.perform .iterate)).run network
            moves).session.deliveries = [] := hdelivered
        rw [Session.pending, hnothing, List.flatMap_nil, List.append_nil] at htold
        exact htold
      · -- nothing is delivered before the first round
        have hadvance : station.session.advance = none := by rw [Session.advance, hidle]
        have hsame : station.after network .deliver = station := by
          rw [Station.after, hadvance]
        have hquiet : station.handsOut .deliver = [] := by
          rw [handsOut, Session.handsOut?, hadvance]
          rfl
        have hbegun' : Move.perform .iterate ∈ moves :=
          (List.mem_cons.mp hbegun).resolve_left (by simp)
        have hlater : station.run network (.deliver :: moves) = station.run network moves := by
          rw [Station.run, List.foldl_cons, hsame]
          rfl
        rw [handedOut, hquiet, hsame, List.nil_append]
        rw [hlater] at hemptied hdelivered ⊢
        exact ih hmoves hbegun' hemptied hdelivered

/-! ### That the inbox becomes empty -/

theorem run_append (network : Network σ) (station : Station σ) (earlier later : List (Move σ)) :
    station.run network (earlier ++ later) = (station.run network earlier).run network later :=
  List.foldl_append

/-- Whatever is being delivered, enough steps deliver it. -/
theorem exists_delivered (network : Network σ) (station : Station σ) :
    ∃ moves : List (Move σ), (∀ move ∈ moves, move = .deliver) ∧
      station.run network moves =
        ⟨{ station.session with deliveries := [] }, station.state⟩ := by
  obtain ⟨session, state⟩ := station
  generalize hdeliveries : session.deliveries = deliveries
  induction deliveries generalizing session with
  | nil =>
      refine ⟨[], by simp, ?_⟩
      rw [run_nil, ← hdeliveries]
  | cons delivery outer ih =>
      obtain ⟨listener, pending, ofRound⟩ := delivery
      induction pending generalizing session with
      | nil =>
          have hadvance : session.advance =
              some (.finish ⟨listener, [], ofRound⟩, { session with deliveries := outer }) := by
            simp [Session.advance, hdeliveries]
          obtain ⟨moves, hmoves, hrun⟩ := ih { session with deliveries := outer } rfl
          refine ⟨.deliver :: moves, by simpa using hmoves, ?_⟩
          rw [run, List.foldl_cons, after, hadvance]
          exact hrun
      | cons event later ihPending =>
          have hadvance : session.advance = some (.handOut listener event,
              { session with deliveries := ⟨listener, later, ofRound⟩ :: outer }) := by
            simp [Session.advance, hdeliveries]
          obtain ⟨moves, hmoves, hrun⟩ :=
            ihPending { session with deliveries := ⟨listener, later, ofRound⟩ :: outer } rfl
          refine ⟨.deliver :: moves, by simpa using hmoves, ?_⟩
          rw [run, List.foldl_cons, after, hadvance]
          exact hrun

/-- Each round takes something from an inbox that is not empty, so rounds empty it. -/
theorem Reflects.exists_drains (hfeeds : network.Feeds inbox)
    (h : Reflects network inbox progress station told)
    (hidle : station.session.deliveries = []) : ∃ moves, Drains network inbox station moves := by
  generalize hlength : (inbox station.state).length = length
  induction length using Nat.strong_induction_on generalizing progress station told with
  | _ length ih =>
      obtain ⟨first, hfirst, hreaped, -⟩ := h.iterate hfeeds hidle
      have hinbox : inbox (station.after network (.perform .iterate)).state =
          (inbox station.state).drop station.session.config.inboundLimit.toNat := by
        have hnotIterating : station.session.isIterating = false := by
          simp [Session.isIterating, hidle]
        simp only [Station.after, Session.perform, Outcome.map,
          Session.iterate_of_open network station.state h.isOpen hnotIterating]
        exact (h.round hfeeds hidle).2.2
      obtain ⟨delivering, hdelivering, hrun⟩ :=
        exists_delivered network (station.after network (.perform .iterate))
      obtain ⟨middle, hmiddle, -, -⟩ := hfirst.run hfeeds hreaped
        fun move hmove => Or.inr (hdelivering move hmove)
      rw [hrun] at hmiddle
      -- the first round and its delivery, before whatever is left to do
      have htogether : ∀ moves, station.run network (.perform .iterate :: delivering ++ moves) =
          Station.run network ⟨{ (station.after network (.perform .iterate)).session with
            deliveries := [] }, (station.after network (.perform .iterate)).state⟩ moves := by
        intro moves
        rw [← hrun, ← run_append]
        rfl
      have hrounds : ∀ moves : List (Move σ),
          (∀ move ∈ moves, move = .perform .iterate ∨ move = .deliver) →
          ∀ move ∈ .perform .iterate :: delivering ++ moves,
            move = .perform .iterate ∨ move = .deliver := by
        intro moves hmoves move hmem
        rcases List.mem_append.mp hmem with hbefore | hafter
        · exact (List.mem_cons.mp hbefore).imp_right (hdelivering move)
        · exact hmoves move hafter
      by_cases hempty : inbox station.state = []
      · refine ⟨.perform .iterate :: delivering ++ [], hrounds [] (by simp), by simp, ?_, ?_⟩
        · rw [htogether, run_nil, hinbox, hempty, List.drop_nil]
        · rw [htogether, run_nil]
      · have hpositive : 0 < station.session.config.inboundLimit.toNat := by
          have hlimit := (Config.usable_iff.mp station.session.usable).2.2
          exact UInt64.pos_iff_ne_zero.mpr hlimit
        have hshorter : ((inbox station.state).drop
            station.session.config.inboundLimit.toNat).length < length := by
          rw [List.length_drop, ← hlength]
          have hsome := List.length_pos_of_ne_nil hempty
          omega
        obtain ⟨moves, hlater, -, hemptied, hdelivered⟩ :=
          ih _ hshorter hmiddle rfl (by rw [hinbox])
        refine ⟨.perform .iterate :: delivering ++ moves, hrounds moves hlater, by simp, ?_, ?_⟩
        · rw [htogether]
          exact hemptied
        · rw [htogether]
          exact hdelivered

end Station

end PeerCalls
