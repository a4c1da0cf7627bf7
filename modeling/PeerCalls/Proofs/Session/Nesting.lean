import PeerCalls.Proofs.Session.Draining
import PeerCalls.Proofs.Session.Frames

/-!
# Deliveries inside deliveries

While a batch is delivered, each callback may use the session as it likes, and what it does may
begin a delivery of its own, change the listener or close the session.  The deliveries under way
are a stack.  An operation puts its own batch on top, at most (`deliveries_perform`), and a step
of a delivery works on the top alone, so a batch further down stays as it is until everything
above it is gone.

The delivery that an operation begins is `Carried` through whatever happens next: one move
hands out the next event of the batch, or leaves the batch alone, or takes it away when nothing
is left of it (`Carried.after`).  Moves are `During` the delivery as long as it is under way,
and they `Span` it when it is over exactly at their end, which is when the operation returns.
-/

namespace PeerCalls

namespace Event

/-- First what happened to calls and rates, then the frames, then the requests. -/
theorem deliveryOrder_eq (events : List Event) :
    deliveryOrder events =
      events.filter (· matches .call .. | .callState .. | .rateReport _) ++
        events.filter (· matches .frame ..) ++ events.filter (· matches .frameRequest ..) := by
  refine congrArg₂ _ (congrArg₂ _ ?_ ?_) ?_
  all_goals exact List.filter_congr fun event _ => by cases event <;> rfl

/-- Delivery brings the events of a batch into another order, and neither loses nor repeats one. -/
theorem perm_deliveryOrder (events : List Event) : (deliveryOrder events).Perm events := by
  refine List.perm_iff_count.mpr fun event => ?_
  have hphase : ∀ phase, (inPhase phase events).count event =
      if event.phase = phase then events.count event else 0 := by
    intro phase
    split
    · rename_i hsame
      exact List.count_filter (by simpa using hsame)
    · rename_i hother
      exact List.count_eq_zero.mpr fun hmem =>
        hother (of_decide_eq_true (List.mem_filter.mp hmem).2)
  simp only [deliveryOrder, List.count_append, hphase]
  cases event.phase <;> simp

end Event

/-- Whether the operation is a round. -/
def Command.isRound : Command → Bool
  | iterate => true
  | _ => false

namespace Session

variable {σ : Type} (network : Network σ) (session : Session) (state : σ)

/-- The batch that an operation computes: a round what happened in it, a change of a rate its
report, and any other operation nothing. -/
def computed : Command → List Event
  | .iterate =>
    if session.closed || session.isIterating then [] else session.batch network state
  | .setRate friend kind rate force =>
    match (session.setRate network state friend kind rate force).answer with
    | .ok report => [.rateReport report]
    | .error _ => []
  | _ => []

/-- An operation puts the batch that it computes on top of the deliveries under way, for the
listener that is installed by then. -/
theorem deliveries_perform (command : Command) :
    (session.perform network state command).session.deliveries =
      if session.computed network state command = [] then session.deliveries
      else ⟨session.listener, Event.deliveryOrder (session.computed network state command),
        command.isRound⟩ :: session.deliveries := by
  cases command with
  | call friend rates =>
      rcases call_cases network session state friend rates with
        ⟨_, -, h⟩ | ⟨-, _, _, -, h⟩ | ⟨-, _, -, h⟩ <;> rw [perform, h] <;> rfl
  | answer friend rates =>
      rcases answer_cases network session state friend rates with
        ⟨_, h⟩ | ⟨_, -, ⟨_, _, -, h⟩ | ⟨_, -, ⟨_, _, -, h⟩ | ⟨_, -, h⟩⟩⟩ <;> rw [perform, h] <;> rfl
  | control friend command =>
      rcases control_cases network session state friend command with
        ⟨_, h⟩ | ⟨_, -, ⟨_, _, -, -, h⟩ | ⟨_, _, _, -, -, -, h⟩⟩ <;> rw [perform, h] <;> rfl
  | setRate friend kind rate force =>
      rcases setRate_cases network session state friend kind rate force with
        ⟨_, h⟩ | ⟨call, -, ⟨_, -, h⟩ | ⟨_, -, ⟨_, _, -, h⟩ | ⟨_, -, h⟩⟩⟩
      all_goals simp [perform, computed, h, Outcome.map, reporting, dispatch, Command.isRound]
      rfl
  | sendFrame friend payload =>
      simp [perform, Outcome.map, computed]
  | iterate =>
      simp only [perform, Outcome.map, computed, iterate, Command.isRound]
      split
      · rfl
      · exact session.deliveries_round network state
  | close =>
      simp only [perform, Outcome.map, computed, close]
      split <;> rfl
  | listen listener => rfl

/-- A round that is called for while another one is delivered only tells the wait. -/
theorem perform_iterate_of_isIterating (h : session.isIterating = true) :
    session.perform network state .iterate = ⟨.iterated session.interval, session, state⟩ := by
  simp [perform, Outcome.map, iterate, h]

end Session

namespace Station

variable {σ : Type} (network : Network σ)

/-- What a move hands out from the delivery that lies on `level` others. -/
def handsOutAt (level : Nat) (station : Station σ) : Move σ → List (Option ListenerId × Event)
  | .deliver =>
    match station.session.advance with
    | some (.handOut listener event, _) =>
      if station.session.depth = level + 1 then [(listener, event)] else []
    | _ => []
  | _ => []

/-- What a run hands out from deliveries that lie on `level` others, in order. -/
def handedOutAt (level : Nat) :
    Station σ → List (Move σ) → List (Option ListenerId × Event)
  | _, [] => []
  | station, move :: moves =>
    station.handsOutAt level move ++ handedOutAt level (station.after network move) moves

/-- Moves throughout which more than `level` deliveries are under way. -/
def During (level : Nat) : Station σ → List (Move σ) → Prop
  | station, [] => level < station.session.depth
  | station, move :: moves =>
    level < station.session.depth ∧ During level (station.after network move) moves

/-- Moves throughout which more than `level` deliveries are under way, until in the end there
are no more than these. -/
def Spans (level : Nat) : Station σ → List (Move σ) → Prop
  | station, [] => station.session.depth = level
  | station, move :: moves =>
    level < station.session.depth ∧ Spans level (station.after network move) moves

instance decidableDuring (level : Nat) : (station : Station σ) → (moves : List (Move σ)) →
    Decidable (station.During network level moves)
  | station, [] => inferInstanceAs (Decidable (level < station.session.depth))
  | station, move :: moves =>
    have := decidableDuring level (station.after network move) moves
    inferInstanceAs (Decidable (level < station.session.depth ∧
      During network level (station.after network move) moves))

instance decidableSpans (level : Nat) : (station : Station σ) → (moves : List (Move σ)) →
    Decidable (station.Spans network level moves)
  | station, [] => inferInstanceAs (Decidable (station.session.depth = level))
  | station, move :: moves =>
    have := decidableSpans level (station.after network move) moves
    inferInstanceAs (Decidable (level < station.session.depth ∧
      Spans network level (station.after network move) moves))

variable {network} {station : Station σ} {level : Nat}

theorem During.append_spans {moves rest : List (Move σ)} (h : station.During network level moves)
    (hrest : (station.run network moves).Spans network level rest) :
    station.Spans network level (moves ++ rest) := by
  induction moves generalizing station with
  | nil => exact hrest
  | cons move moves ih => exact ⟨h.1, ih h.2 hrest⟩

/-- The batch, as far as it is still to be handed out, lies on the deliveries `outer`, and on it
whatever callbacks have begun. -/
def Carried (batch : Delivery) (outer : List Delivery) (station : Station σ) : Prop :=
  ∃ inner, station.session.deliveries = inner ++ batch :: outer

variable {batch : Delivery} {outer : List Delivery}

theorem Carried.depth_lt (h : station.Carried batch outer) :
    outer.length < station.session.depth := by
  obtain ⟨inner, hstack⟩ := h
  simp only [Session.depth, hstack, List.length_append, List.length_cons]
  omega

theorem Carried.isIterating (h : station.Carried batch outer) (hround : batch.ofRound = true) :
    station.session.isIterating = true := by
  obtain ⟨inner, hstack⟩ := h
  simp [Session.isIterating, hstack, hround]

/-- One move: the batch is still under way, and what it has lost was handed out; or it is over,
which it is only when nothing was left of it. -/
theorem Carried.after (h : station.Carried batch outer) (network : Network σ) (move : Move σ) :
    (∃ pending, (station.after network move).Carried { batch with pending } outer ∧
      batch.pending.map (fun event => (batch.listener, event)) =
        station.handsOutAt outer.length move ++
          pending.map fun event => (batch.listener, event)) ∨
    (station.after network move).session.deliveries = outer ∧
      batch.pending = [] ∧ station.handsOutAt outer.length move = [] := by
  obtain ⟨inner, hstack⟩ := h
  cases move with
  | drift change => exact Or.inl ⟨batch.pending, ⟨inner, hstack⟩, rfl⟩
  | perform command =>
      refine Or.inl ⟨batch.pending, ?_, rfl⟩
      have hdeliveries :=
        Session.deliveries_perform network station.session station.state command
      split at hdeliveries
      · exact ⟨inner, hdeliveries.trans hstack⟩
      · exact ⟨_ :: inner, hdeliveries.trans (congrArg _ hstack)⟩
  | deliver =>
      cases inner with
      | nil =>
          -- the batch is on top: its next event is handed out, or it is taken away
          obtain ⟨listener, pending, ofRound⟩ := batch
          rw [List.nil_append] at hstack
          cases pending with
          | nil =>
              exact Or.inr ⟨by simp [Station.after, Session.advance, hstack], rfl,
                by simp [handsOutAt, Session.advance, hstack]⟩
          | cons event later =>
              refine Or.inl ⟨later, ⟨[], by simp [Station.after, Session.advance, hstack]⟩, ?_⟩
              simp [handsOutAt, Session.advance, Session.depth, hstack]
      | cons top inner =>
          -- something lies on the batch, and the step is a step of that
          obtain ⟨listener, pending, ofRound⟩ := top
          have hdepth : station.session.depth ≠ outer.length + 1 := by
            simp only [Session.depth, hstack, List.length_append, List.length_cons]
            omega
          refine Or.inl ⟨batch.pending, ?_, ?_⟩
          · cases pending with
            | nil => exact ⟨inner, by simp [Station.after, Session.advance, hstack]⟩
            | cons event later =>
                exact ⟨⟨listener, later, ofRound⟩ :: inner,
                  by simp [Station.after, Session.advance, hstack]⟩
          · have hnothing : station.handsOutAt outer.length .deliver = [] := by
              simp only [handsOutAt, if_neg hdepth]
              split <;> rfl
            rw [hnothing, List.nil_append]

/-- As long as the delivery is under way, what was handed out of the batch and what is left of it
make up the batch. -/
theorem Carried.during (h : station.Carried batch outer) {moves : List (Move σ)}
    (hduring : station.During network outer.length moves) :
    ∃ pending, (station.run network moves).Carried { batch with pending } outer ∧
      batch.pending.map (fun event => (batch.listener, event)) =
        handedOutAt network outer.length station moves ++
          pending.map fun event => (batch.listener, event) := by
  induction moves generalizing station batch with
  | nil => exact ⟨batch.pending, h, rfl⟩
  | cons move moves ih =>
      rcases h.after network move with ⟨pending, hafter, hhanded⟩ | ⟨hover, -, -⟩
      · obtain ⟨later, hlater, hrest⟩ := ih hafter hduring.2
        refine ⟨later, hlater, ?_⟩
        rw [hhanded, handedOutAt, List.append_assoc]
        exact congrArg _ hrest
      · -- a delivery that is over is not under way any more
        have hdepth : outer.length < (station.after network move).session.depth := by
          cases moves with
          | nil => exact hduring.2
          | cons next moves => exact hduring.2.1
        rw [Session.depth, hover] at hdepth
        exact absurd hdepth (Nat.lt_irrefl _)

/-- Once the delivery is over, the whole batch was handed out, and the deliveries below it are as
they were. -/
theorem Carried.spans (h : station.Carried batch outer) {moves : List (Move σ)}
    (hspans : station.Spans network outer.length moves) :
    handedOutAt network outer.length station moves =
        batch.pending.map (fun event => (batch.listener, event)) ∧
      (station.run network moves).session.deliveries = outer := by
  induction moves generalizing station batch with
  | nil => exact absurd h.depth_lt (Nat.not_lt.mpr (Nat.le_of_eq hspans))
  | cons move moves ih =>
      rcases h.after network move with
        ⟨pending, hafter, hhanded⟩ | ⟨hover, hnothing, hquiet⟩
      · obtain ⟨hrest, hdeliveries⟩ := ih hafter hspans.2
        refine ⟨?_, hdeliveries⟩
        rw [hhanded, handedOutAt]
        exact congrArg _ hrest
      · cases moves with
        | nil =>
            refine ⟨?_, hover⟩
            rw [hnothing, handedOutAt, hquiet]
            rfl
        | cons next moves =>
            have hdepth : outer.length < (station.after network move).session.depth := hspans.2.1
            rw [Session.depth, hover] at hdepth
            exact absurd hdepth (Nat.lt_irrefl _)

/-- Deliveries come to their end when nothing but they go on. -/
theorem exists_spans (network : Network σ) (station : Station σ) {inner : List Delivery}
    (h : station.session.deliveries = inner ++ outer) :
    ∃ rest : List (Move σ), (∀ move ∈ rest, move = .deliver) ∧
      station.Spans network outer.length rest := by
  induction inner generalizing station with
  | nil => exact ⟨[], by simp, by rw [Spans, Session.depth, h, List.nil_append]⟩
  | cons delivery inner ih =>
      obtain ⟨listener, pending, ofRound⟩ := delivery
      induction pending generalizing station with
      | nil =>
          have hdepth : outer.length < station.session.depth := by
            simp only [Session.depth, h, List.length_append, List.length_cons]
            omega
          obtain ⟨rest, hrest, hspans⟩ := ih (station.after network .deliver)
            (by simp [Station.after, Session.advance, h])
          exact ⟨.deliver :: rest, by simpa using hrest, hdepth, hspans⟩
      | cons event later ihPending =>
          have hdepth : outer.length < station.session.depth := by
            simp only [Session.depth, h, List.length_append, List.length_cons]
            omega
          obtain ⟨rest, hrest, hspans⟩ := ihPending (station.after network .deliver)
            (by simp [Station.after, Session.advance, h])
          exact ⟨.deliver :: rest, by simpa using hrest, hdepth, hspans⟩

/-- An operation that computes nothing begins no delivery; otherwise its batch is carried from
here on. -/
theorem begun_cases (network : Network σ) (station : Station σ) (command : Command) :
    let begun := station.after network (.perform command)
    let events := station.session.computed network station.state command
    events = [] ∧ begun.session.deliveries = station.session.deliveries ∨
      begun.Carried ⟨station.session.listener, Event.deliveryOrder events, command.isRound⟩
        station.session.deliveries := by
  intro begun events
  have hdeliveries := Session.deliveries_perform network station.session station.state command
  split at hdeliveries
  · rename_i hnothing
    exact Or.inl ⟨hnothing, hdeliveries⟩
  · exact Or.inr ⟨[], hdeliveries⟩

/-- Without deliveries above the first `level`, nothing is under way. -/
theorem not_during_of_depth (hdepth : station.session.depth = level) (moves : List (Move σ)) :
    ¬ station.During network level moves := by
  cases moves with
  | nil => exact Nat.not_lt.mpr (Nat.le_of_eq hdepth)
  | cons move moves => exact fun h => Nat.not_lt.mpr (Nat.le_of_eq hdepth) h.1

theorem eq_nil_of_spans (hdepth : station.session.depth = level) {moves : List (Move σ)}
    (h : station.Spans network level moves) : moves = [] := by
  cases moves with
  | nil => rfl
  | cons move moves => exact absurd h.1 (Nat.not_lt.mpr (Nat.le_of_eq hdepth))

/-- What becomes of the batch that an operation computes, whatever callbacks do meanwhile.  By
the time the operation returns, the listener that was installed when the delivery began was
handed the whole batch, each event once, and nothing else from this delivery: first what happened
to calls and rates, then the frames, then the requests, and each of these as it arose.  The
delivery comes to its end whenever the callbacks do.

If the operation is a round, a round that is called for before it returns does nothing: it asks
nothing of the network, leaves the session as it is, and tells the wait as things are.  Once the
outer one has returned, the next round does its work. -/
theorem delivered_whole (network : Network σ) (station : Station σ) (command : Command) :
    let level := station.session.depth
    let begun := station.after network (.perform command)
    let events := station.session.computed network station.state command
    let ordered := events.filter (· matches .call .. | .callState .. | .rateReport _) ++
      events.filter (· matches .frame ..) ++ events.filter (· matches .frameRequest ..)
    ordered.Perm events ∧
    (∀ moves, begun.Spans network level moves →
      handedOutAt network level begun moves =
          ordered.map (fun event => (station.session.listener, event)) ∧
        (begun.run network moves).session.deliveries = station.session.deliveries) ∧
    (∀ moves, begun.During network level moves →
      ∃ rest : List (Move σ), (∀ move ∈ rest, move = .deliver) ∧
        begun.Spans network level (moves ++ rest)) ∧
    (command = .iterate →
      (∀ moves, begun.During network level moves →
        let nested := begun.run network moves
        nested.session.perform network nested.state .iterate =
          ⟨.iterated (if nested.session.closed then nested.session.config.idleInterval
            else nested.session.config.pace nested.session.registry),
            nested.session, nested.state⟩) ∧
      (station.session.isIterating = false → ∀ moves, begun.Spans network level moves →
        let returned := begun.run network moves
        returned.session.closed = false →
          returned.session.iterate network returned.state =
            returned.session.round network returned.state)) := by
  intro level begun events ordered
  have hordered : Event.deliveryOrder events = ordered := Event.deliveryOrder_eq events
  have hspans : ∀ moves, begun.Spans network level moves →
      handedOutAt network level begun moves =
          ordered.map (fun event => (station.session.listener, event)) ∧
        (begun.run network moves).session.deliveries = station.session.deliveries := by
    intro moves hmoves
    rcases begun_cases network station command with ⟨hnothing, hkept⟩ | hcarried
    · have hdepth : begun.session.depth = level := congrArg List.length hkept
      obtain rfl := eq_nil_of_spans hdepth hmoves
      refine ⟨?_, hkept⟩
      rw [← hordered, show events = [] from hnothing]
      rfl
    · rw [← hordered]
      exact hcarried.spans hmoves
  have hcarried : ∀ moves, begun.During network level moves →
      ∃ pending, (begun.run network moves).Carried
        ⟨station.session.listener, pending, command.isRound⟩ station.session.deliveries := by
    intro moves hmoves
    rcases begun_cases network station command with ⟨-, hkept⟩ | hcarried
    · exact absurd hmoves (not_during_of_depth (congrArg List.length hkept) moves)
    · obtain ⟨pending, hpending, -⟩ := hcarried.during hmoves
      exact ⟨pending, hpending⟩
  refine ⟨hordered ▸ Event.perm_deliveryOrder events, hspans, fun moves hmoves => ?_, ?_⟩
  · obtain ⟨pending, inner, hstack⟩ := hcarried moves hmoves
    rw [← List.singleton_append, ← List.append_assoc] at hstack
    obtain ⟨rest, hrest, hover⟩ := exists_spans network _ hstack
    exact ⟨rest, hrest, hmoves.append_spans hover⟩
  rintro rfl
  constructor
  · intro moves hmoves nested
    obtain ⟨pending, hpending⟩ := hcarried moves hmoves
    exact Session.perform_iterate_of_isIterating network _ _ (hpending.isIterating rfl)
  · intro hidle moves hmoves returned hopen
    have hreturned : returned.session.isIterating = false := by
      rw [Session.isIterating, (hspans moves hmoves).2]
      exact hidle
    exact Session.iterate_of_open network _ hopen hreturned

/-- A call that the friend has answered, has sent a frame in and has paused and resumed, before
the round that hears of all this. -/
def answeredCall : Station Hub :=
  let start : Station Hub :=
    ⟨.fresh .standard Config.standard_usable,
      ((Hub.node 0).attach ((Hub.fresh 2).connect 0 ⟨1⟩ 1 ⟨0⟩)).2⟩
  start.run (Hub.node 0)
    [.perform (.listen ⟨7⟩), .perform (.call ⟨1⟩ ⟨48, 0⟩),
      .drift fun hub => ((Hub.node 1).sendSignal ⟨0⟩ (.answer ⟨48, 0⟩) hub).2,
      .drift fun hub => ((Hub.node 1).sendMedia ⟨0⟩ (.audio .click) hub).2,
      .drift fun hub => ((Hub.node 1).sendSignal ⟨0⟩ (.control .pause) hub).2,
      .drift fun hub => ((Hub.node 1).sendSignal ⟨0⟩ (.control .resume) hub).2]

/-- What the callbacks of that round do.  The first one calls for a round, changes a rate, which
it is told of as well, and changes the listener; the one that is handed the frame closes the
session. -/
def nestedMoves : List (Move Hub) :=
  [.deliver, .perform .iterate, .perform (.setRate ⟨1⟩ .audio 64 false), .perform (.listen ⟨8⟩),
    .deliver, .perform .iterate, .deliver, .deliver, .deliver, .deliver, .perform .close, .deliver,
    .perform .iterate, .deliver]

/-- Every event of the round reaches the listener that was there at first, and the frame comes
after the states that the call got into later.  The rounds in between only tell the wait, which is
the idle one in the end. -/
theorem delivered_whole_nestedMoves :
    let begun := answeredCall.after (Hub.node 0) (.perform .iterate)
    let first := begun.run (Hub.node 0) (nestedMoves.take 5)
    let last := begun.run (Hub.node 0) (nestedMoves.take 12)
    let returned := begun.run (Hub.node 0) (.replicate 6 .deliver)
    let arisen : List Event := [.callState ⟨1⟩ (.running ⟨48, 0⟩), .frame ⟨1⟩ (.audio .click),
      .callState ⟨1⟩ .paused, .callState ⟨1⟩ (.running ⟨48, 0⟩), .frameRequest ⟨1⟩ .audio]
    let delivered : List Event := [.callState ⟨1⟩ (.running ⟨48, 0⟩), .callState ⟨1⟩ .paused,
      .callState ⟨1⟩ (.running ⟨48, 0⟩), .frame ⟨1⟩ (.audio .click), .frameRequest ⟨1⟩ .audio]
    answeredCall.session.computed (Hub.node 0) answeredCall.state .iterate = arisen ∧
      handedOutAt (Hub.node 0) 0 begun nestedMoves =
        delivered.map (fun event => (some ⟨7⟩, event)) ∧
      first.session.perform (Hub.node 0) first.state .iterate =
        ⟨.iterated 20, first.session, first.state⟩ ∧
      last.session.perform (Hub.node 0) last.state .iterate =
        ⟨.iterated 200, last.session, last.state⟩ ∧
      returned.session.iterate (Hub.node 0) returned.state =
        returned.session.round (Hub.node 0) returned.state := by
  intro begun first last returned arisen delivered
  obtain ⟨-, hwhole, -, hrounds⟩ := delivered_whole (Hub.node 0) answeredCall .iterate
  obtain ⟨hnested, hreturned⟩ := hrounds rfl
  have harisen : answeredCall.session.computed (Hub.node 0) answeredCall.state .iterate =
      arisen := by
    decide
  have hfirst := hnested (nestedMoves.take 5) (by decide)
  have hlast := hnested (nestedMoves.take 12) (by decide)
  have hhanded := (hwhole nestedMoves (by decide)).1
  rw [harisen] at hhanded
  exact ⟨harisen, hhanded.trans rfl, hfirst, hlast,
    hreturned (by decide) (.replicate 6 .deliver) (by decide) (by decide)⟩

end Station

end PeerCalls
