import PeerCalls.Proofs.Call.Coherence
import PeerCalls.Proofs.Session.Steps

/-!
# The events of a round tell the whole story

An application may keep a `View`, that is the state that it believes each call to be in, and
follow the events that it is handed.  `View.follow?` is what one event makes of a view.  It is
undefined where the event tells nothing new: that a friend calls with whom there is a call
already, or a state of a call that is over, or is in that state.

Each step of a round keeps the view right (`Faithful.step`), because the call that it puts in
and the event that it adds go together.  The batch is then delivered in phases, but only the
first one matters to a view.  What is reaped in the end was over before, and the view knows.
-/

namespace PeerCalls

/-- The state that each call is believed to be in, if there is one. -/
abbrev View := Friend → Option CallState

namespace View

/-- The view after an event, unless the event tells nothing new. -/
def follow? (view : View) : Event → Option View
  | .call friend _ =>
    if (view friend).all CallState.isTerminal then
      some (Function.update view friend (some .ringing))
    else
      none
  | .callState friend state =>
    if (view friend).any fun before => !before.isTerminal && before ≠ state then
      some (Function.update view friend (some state))
    else
      none
  | _ => some view

/-- The view after a list of events. -/
def replay? (view : View) (events : List Event) : Option View := events.foldlM follow? view

variable (view : View)

@[simp] theorem replay?_nil : view.replay? [] = some view := rfl

@[simp] theorem replay?_singleton (event : Event) : view.replay? [event] = view.follow? event := by
  simp [replay?]

theorem replay?_append (earlier later : List Event) :
    view.replay? (earlier ++ later) = (view.replay? earlier).bind (replay? · later) :=
  List.foldlM_append

/-! ## Phases -/

theorem follow?_of_phase {event : Event} (h : event.phase ≠ .calls) :
    view.follow? event = some view := by
  cases event with
  | call friend offered => exact absurd rfl h
  | callState friend state => exact absurd rfl h
  | rateReport report => rfl
  | frame friend payload => rfl
  | frameRequest friend kind => rfl

theorem replay?_of_phase {events : List Event} (h : ∀ event ∈ events, event.phase ≠ .calls) :
    view.replay? events = some view := by
  induction events with
  | nil => rfl
  | cons event later ih =>
      obtain ⟨hevent, hlater⟩ := List.forall_mem_cons.mp h
      rw [replay?, List.foldlM_cons, follow?_of_phase view hevent]
      exact ih hlater

/-- The view follows the events of the first phase only. -/
theorem replay?_inPhase (events : List Event) :
    view.replay? (Event.inPhase .calls events) = view.replay? events := by
  induction events generalizing view with
  | nil => rfl
  | cons event later ih =>
      by_cases hphase : event.phase = .calls
      · rw [Event.inPhase, List.filter_cons_of_pos (by simpa using hphase), replay?, replay?,
          List.foldlM_cons, List.foldlM_cons]
        exact congrArg _ (funext ih)
      · rw [Event.inPhase, List.filter_cons_of_neg (by simpa using hphase), replay?,
          replay?, List.foldlM_cons, follow?_of_phase view hphase]
        exact ih view

/-- In the order of delivery a batch tells the same as in the order in which it arose. -/
theorem replay?_deliveryOrder (events : List Event) :
    view.replay? (Event.deliveryOrder events) = view.replay? events := by
  have hlater : ∀ phase, phase ≠ .calls → ∀ (view : View),
      view.replay? (Event.inPhase phase events) = some view := by
    intro phase hphase view
    refine replay?_of_phase view fun event hmem => ?_
    have hevent : event.phase = phase := by simpa using (List.mem_filter.mp hmem).2
    rwa [hevent]
  rw [Event.deliveryOrder, replay?_append, replay?_append, replay?_inPhase]
  cases view.replay? events with
  | none => rfl
  | some after => simp [hlater .frames (by simp), hlater .requests (by simp)]

end View

theorem Event.deliveryOrder_eq_nil_iff {events : List Event} :
    deliveryOrder events = [] ↔ events = [] := by
  constructor
  · intro h
    refine List.eq_nil_iff_forall_not_mem.mpr fun event hmem => ?_
    have hordered : event ∈ deliveryOrder events := by
      simp only [deliveryOrder, inPhase, List.mem_append, List.mem_filter, hmem,
        true_and, decide_eq_true_eq]
      cases event.phase <;> simp
    rw [h] at hordered
    cases hordered
  · rintro rfl
    rfl

/-- The state of each call. -/
def Registry.states (registry : Registry) : View := fun friend =>
  (registry.get? friend).map Call.state

theorem Registry.states_set (registry : Registry) (call : Call) :
    (registry.set call).states =
      Function.update registry.states call.friend (some call.state) := by
  funext friend
  by_cases hfriend : friend = call.friend
  · rw [hfriend, Function.update_self, states, get?_set_self, Option.map_some]
  · rw [Function.update_of_ne hfriend, states, get?_set_of_ne _ (Ne.symm hfriend)]
    rfl

theorem Registry.states_of_live? {registry : Registry} {friend : Friend} {call : Call}
    (h : registry.live? friend = some call) : registry.states friend = some call.state := by
  rw [states, get?_of_live? h, Option.map_some]

/-! ## One step -/

/-- A transition that is not ours changes the state of a coherent call, which is live. -/
theorem Call.Coherent.state_moves {config : Config} {call after : Call} {transition : Transition}
    (h : call.Coherent config) (theirs : transition.isOurs = false)
    (fits : call.after? transition = some after) :
    call.state.isTerminal = false ∧ call.state ≠ after.state := by
  cases transition with
  | localAnswered rates => cases theirs
  | ratesChanged => cases theirs
  | remoteAnswered rates =>
      obtain ⟨hringing, -, rfl⟩ := of_remoteAnswered fits
      rw [hringing]
      exact ⟨rfl, CallState.noConfusion⟩
  | pause =>
      obtain ⟨hestablished, rfl⟩ := of_pause fits
      rw [(h.established hestablished).1]
      exact ⟨rfl, CallState.noConfusion⟩
  | resume =>
      obtain ⟨hpaused, rfl⟩ := of_resume fits
      rw [hpaused, h.paused hpaused]
      exact ⟨rfl, CallState.noConfusion⟩
  | cancel =>
      simp only [Call.after?, Option.ite_none_right_eq_some, Option.some.injEq] at fits
      obtain ⟨hlive, rfl⟩ := fits
      rw [isLive_iff] at hlive
      refine ⟨hlive, fun heq => ?_⟩
      rw [heq] at hlive
      cases hlive
  | fault =>
      simp only [Call.after?, Option.ite_none_right_eq_some, Option.some.injEq] at fits
      obtain ⟨hlive, rfl⟩ := fits
      rw [isLive_iff] at hlive
      refine ⟨hlive, fun heq => ?_⟩
      rw [heq] at hlive
      cases hlive

namespace Progress

variable {config : Config} {friend : Friend} {progress : Progress}

/-- The calls are coherent, and a view that was right at the start and has followed the events
is right. -/
structure Faithful (config : Config) (start : View) (progress : Progress) : Prop where
  coherent : ∀ friend, ∀ call ∈ progress.registry.get? friend, call.Coherent config
  told : start.replay? progress.events = some progress.registry.states

/-- The news of a step keep a right view right. -/
theorem replay?_of_tells (hcoherent : ∀ call ∈ progress.registry.live? friend, call.Coherent config)
    {entered : Option Call} {news : List Event}
    (htells : Tells friend (progress.registry.live? friend) entered news) :
    progress.registry.states.replay? news = some (progress.enter entered news).registry.states := by
  generalize hfound : progress.registry.live? friend = found at htells hcoherent
  cases htells with
  | unheard found silent => exact View.replay?_of_phase _ silent
  | called rates =>
      have hover : (progress.registry.states friend).all CallState.isTerminal = true := by
        have hvacant := Registry.live?_eq_none_iff.mp hfound
        rw [Registry.states]
        cases hget : progress.registry.get? friend with
        | none => rfl
        | some call => simpa [Call.isLive] using hvacant call hget
      rw [View.replay?_singleton, View.follow?, if_pos hover]
      exact congrArg some (Registry.states_set progress.registry (.incoming friend rates)).symm
  | @moved call after transition theirs fits =>
      obtain ⟨hlive, hmoves⟩ := (hcoherent call rfl).state_moves theirs fits
      have hfriend : after.friend = friend :=
        (Call.friend_of_after? fits).trans (Registry.friend_of_live? hfound)
      have hbefore : progress.registry.states after.friend = some call.state := by
        rw [hfriend]
        exact Registry.states_of_live? hfound
      have hnew : (progress.registry.states after.friend).any
          (fun before => !before.isTerminal && before ≠ after.state) = true := by
        simp [hbefore, hlive, hmoves]
      rw [View.replay?_singleton, View.follow?, if_pos hnew]
      exact congrArg some (Registry.states_set _ _).symm
  | announced call kind rate =>
      -- the states stay as they are, although the call changes
      have hfriend : call.friend = friend := Registry.friend_of_live? hfound
      have hsame : Function.update progress.registry.states friend (some call.state) =
          progress.registry.states := by
        rw [← Registry.states_of_live? hfound, Function.update_eq_self]
      simp only [View.replay?_nil, enter, Option.elim_some, Registry.states_set,
        Call.friend_withPeerRate, hfriend]
      exact congrArg some hsame.symm

/-- Each step of a round is faithful. -/
theorem Faithful.step {start : View} {step : Progress → Progress}
    (h : Faithful config start progress) (hminds : Minds friend step) :
    Faithful config start (step progress) := by
  obtain ⟨entered, news, htells, hstep⟩ := hminds progress
  have hfound : ∀ call ∈ progress.registry.live? friend, call.Coherent config :=
    fun call hlive => h.coherent friend call (Registry.get?_of_live? hlive)
  refine ⟨fun other => ?_, ?_⟩
  · exact Call.Coherent.evolvesOnce (h.coherent other) (evolves_of_minds hminds progress other)
  · rw [hstep progress rfl]
    simp only [enter, View.replay?_append, h.told, Option.bind_some]
    exact replay?_of_tells hfound htells

end Progress

/-! ## One round -/

namespace Session

variable {σ : Type} (network : Network σ) {session : Session} (state : σ)

theorem faithful_checked {config : Config}
    (h : ∀ friend, ∀ call ∈ session.call? friend, call.Coherent config) :
    Progress.Faithful config session.callState? (session.checked network state) := by
  have hstart : Progress.Faithful config session.callState? ⟨session.registry, []⟩ := ⟨h, rfl⟩
  exact checked_induction network state (fun _ _ _ hminds h => h.step hminds) hstart

theorem requests_phase : ∀ event ∈ session.requests network state, event.phase ≠ .calls := by
  intro event hmem
  obtain ⟨call, -, hrequest⟩ := List.mem_flatMap.mp hmem
  obtain ⟨kind, -, rfl⟩ := List.mem_map.mp hrequest
  simp [Event.phase]

/-- The events that the next steps of the deliveries hand out, each with its listener. -/
def handOuts (session : Session) : Nat → List (Option ListenerId × Event)
  | 0 => []
  | steps + 1 =>
    match session.advance with
    | none => []
    | some (.handOut listener event, after) => (listener, event) :: after.handOuts steps
    | some (.finish _, after) => after.handOuts steps

/-- The innermost delivery is handed out as it is, one event at each step. -/
theorem handOuts_eq {listener : Option ListenerId} {pending : List Event} {ofRound : Bool}
    {outer : List Delivery} (h : session.deliveries = ⟨listener, pending, ofRound⟩ :: outer) :
    session.handOuts pending.length = pending.map fun event => (listener, event) := by
  induction pending generalizing session with
  | nil => rfl
  | cons event later ih =>
      simp only [List.length_cons, handOuts, advance, h, List.map_cons]
      rw [ih rfl]

/-- A round puts its batch, in the order of delivery, on top of the deliveries under way. -/
theorem deliveries_dispatch (session : Session) (events : List Event) (ofRound : Bool) :
    (session.dispatch events ofRound).deliveries =
      if Event.deliveryOrder events = [] then session.deliveries
      else ⟨session.listener, Event.deliveryOrder events, ofRound⟩ :: session.deliveries := by
  simp only [dispatch, Event.deliveryOrder_eq_nil_iff]
  split <;> rfl

/-- The view knows the state of every call, and has seen the end of every call that is gone. -/
structure KnownBy (session : Session) (view : View) : Prop where
  present : ∀ friend state, session.callState? friend = some state → view friend = some state
  gone : ∀ friend, session.callState? friend = none →
    ∀ state ∈ view friend, state.isTerminal = true

/-- The events tell the whole story of the calls from one session to a later one: each event
tells something new, and a view that followed them all knows the calls afterwards. -/
def Story (events : List Event) (before after : Session) : Prop :=
  ∃ view, View.replay? before.callState? events = some view ∧ after.KnownBy view

theorem Story.refl (session : Session) : Story [] session session := by
  refine ⟨session.callState?, rfl, fun _ _ hstate => hstate, fun friend hnone state hmem => ?_⟩
  rw [hnone] at hmem
  cases hmem

/-- Reaping takes out only what a view knows to be over. -/
theorem knownBy_of_reap {after : Session} {registry : Registry}
    (h : after.registry = registry.reap.2) : after.KnownBy registry.states := by
  have hafter : ∀ friend, after.callState? friend = (registry.live? friend).map Call.state := by
    intro friend
    rw [callState?, call?, h, Registry.get?_reap]
  constructor
  · intro friend state hstate
    rw [hafter] at hstate
    obtain ⟨call, hlive, rfl⟩ := Option.map_eq_some_iff.mp hstate
    exact Registry.states_of_live? hlive
  · intro friend hgone state hmem
    rw [hafter, Option.map_eq_none_iff] at hgone
    obtain ⟨call, hget, rfl⟩ := Option.map_eq_some_iff.mp hmem
    have hover := Registry.live?_eq_none_iff.mp hgone call hget
    simpa [Call.isLive] using hover

/-- The batch of a round tells the whole story of the round. -/
theorem story_round {config : Config}
    (h : ∀ friend, ∀ call ∈ session.call? friend, call.Coherent config) :
    Story (Event.deliveryOrder
        ((session.checked network state).events ++ session.requests network state))
      session (session.round network state).session := by
  have htold := (faithful_checked network state h).told
  refine ⟨_, ?_, knownBy_of_reap (registry_round network session state)⟩
  rw [View.replay?_deliveryOrder, View.replay?_append, htold, Option.bind_some]
  exact View.replay?_of_phase _ (requests_phase network state)

end Session

/-! ## Runs -/

namespace Station

variable {σ : Type}

/-- Whatever was done with a session before, and whatever its network hands to it and answers:
the events that an iteration has delivered tell the whole story of the iteration, and they are
handed out as they are, one after the other. -/
theorem story_of_run (network : Network σ) {config : Config} {state opened : σ}
    {session : Session} (h : Session.attach network config state = (.ok session, opened))
    (moves : List (Move σ)) :
    let station := (⟨session, opened⟩ : Station σ).run network moves
    let after := (station.session.iterate network station.state).session
    ∃ batch : List Event, Session.Story batch station.session after ∧
      after.deliveries =
        (if batch = [] then station.session.deliveries
        else ⟨station.session.listener, batch, true⟩ :: station.session.deliveries) ∧
      (batch ≠ [] → after.handOuts batch.length =
        batch.map fun event => (station.session.listener, event)) := by
  intro station after
  obtain ⟨usable, rfl, -⟩ := Session.attach_eq_ok h
  have hcoherent : ∀ friend, ∀ call ∈ station.session.call? friend, call.Coherent config :=
    coherent_call? network usable opened moves
  rcases Session.iterate_cases network station.session station.state with
    hidle | ⟨-, -, hround⟩
  · have hafter : after = station.session := congrArg Outcome.session hidle
    rw [hafter]
    exact ⟨[], .refl _, rfl, fun hne => absurd rfl hne⟩
  · have hafter : after = (station.session.round network station.state).session :=
      congrArg Outcome.session hround
    have hstory := Session.story_round network station.state hcoherent
    have hdeliveries := Session.deliveries_dispatch
      { station.session with
        registry := (station.session.checked network station.state).registry.reap.2 }
      ((station.session.checked network station.state).events ++
        station.session.requests network station.state) true
    rw [hafter]
    refine ⟨_, hstory, hdeliveries, fun hne => ?_⟩
    rw [if_neg hne] at hdeliveries
    exact Session.handOuts_eq hdeliveries

/-- The second node answers, pauses and hangs up a call of the first one; in between the third
node calls. -/
def eventfulMoves : List (Move Hub) :=
  let told (node : Nat) (signal : Signal) : Move Hub :=
    .drift fun hub => ((Hub.node node).sendSignal ⟨0⟩ signal hub).2
  [.perform (.call ⟨1⟩ ⟨64, 0⟩), .perform (.listen ⟨7⟩), told 1 (.answer ⟨48, 0⟩),
    told 2 (.invite ⟨48, 500⟩), told 1 (.control .pause), told 1 (.control .cancel)]

/-- The first of three nodes, linked to both others. -/
def eventfulHub : Hub := ((Hub.fresh 3).connect 0 ⟨1⟩ 1 ⟨0⟩).connect 0 ⟨2⟩ 2 ⟨0⟩

def eventfulRun : Station Hub :=
  let start : Station Hub :=
    ⟨.fresh .standard Config.standard_usable, ((Hub.node 0).attach eventfulHub).2⟩
  start.run (Hub.node 0) eventfulMoves

/-- The view has seen one call to its end, and knows that the other one rings. -/
theorem story_of_eventfulRun :
    let after := (eventfulRun.session.iterate (Hub.node 0) eventfulRun.state).session
    eventfulRun.session.callState? ⟨1⟩ = some .ringing ∧ after.callState? ⟨1⟩ = none ∧
      ∃ batch view, after.deliveries = [⟨some ⟨7⟩, batch, true⟩] ∧ batch.length = 4 ∧
        View.replay? eventfulRun.session.callState? batch = some view ∧
        (∀ state ∈ view ⟨1⟩, state.isTerminal = true) ∧ view ⟨2⟩ = some .ringing := by
  intro after
  have hattach : Session.attach (Hub.node 0) .standard eventfulHub =
      (.ok (.fresh .standard Config.standard_usable), _) :=
    Session.attach_of_usable Config.standard_usable rfl
  obtain ⟨batch, ⟨view, hreplay, hknown⟩, hdeliveries, -⟩ :=
    story_of_run (Hub.node 0) hattach eventfulMoves
  have hlengths : after.deliveries.map (fun delivery => delivery.pending.length) = [4] := by
    decide
  have hbatch : after.deliveries =
      if batch = [] then [] else [⟨some ⟨7⟩, batch, true⟩] := hdeliveries
  split at hbatch
  · rw [hbatch] at hlengths
    cases hlengths
  · rw [hbatch] at hlengths
    exact ⟨by decide, by decide, batch, view, hbatch, (List.cons.inj hlengths).1, hreplay,
      hknown.gone ⟨1⟩ (by decide), hknown.present ⟨2⟩ _ (by decide)⟩

end Station

end PeerCalls
