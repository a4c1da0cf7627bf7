import Mathlib.Data.List.Induction
import PeerCalls.Proofs.Media.Owned
import PeerCalls.Proofs.Session.Story

/-!
# Frames and what is known of their calls

A frame is admitted when its call runs, but it is delivered only after all that its batch tells
of calls.  So there are two orders to look at.  In the order in which the events arose, a view
that follows them believes the call to be running whenever a frame comes (`FramesRun`); each
step of a round keeps this, since it adds one event at most, and a frame only in a running call.

In the order of delivery, every frame finds the view as it is after the whole batch.  The call
runs in this view exactly if it runs when the round is over, and it does unless something else
was told of it after the frame arose: a friend who sends a frame and then pauses, both in one
batch, is seen to pause first.  A call that begins in a round waits for us (`Renewed`), so a
frame of an old call is never taken for one of a new call that runs.
-/

namespace PeerCalls

namespace View

/-- The view believes that the call with the friend runs. -/
def Running (view : View) (friend : Friend) : Prop :=
  ∃ state, view friend = some state ∧ state.isEstablished = true

/-- Whenever a frame is among the events, a view that has followed the ones before it believes
its call to be running. -/
def FramesRun (start : View) (events : List Event) : Prop :=
  ∀ earlier friend payload, earlier ++ [.frame friend payload] <+: events →
    ∃ view, start.replay? earlier = some view ∧ view.Running friend

variable {start view : View} {events : List Event}

theorem framesRun_nil : start.FramesRun [] := by
  intro earlier friend payload hprefix
  simpa using hprefix.length_le

/-- One more event, which is a frame of a running call if it is a frame. -/
theorem FramesRun.concat (h : start.FramesRun events) (htold : start.replay? events = some view)
    {event : Event} (hevent : ∀ friend payload, event = .frame friend payload →
      view.Running friend) : start.FramesRun (events ++ [event]) := by
  intro earlier friend payload hprefix
  rcases List.prefix_concat_iff.mp hprefix with hwhole | hbefore
  · obtain ⟨rfl, hlast⟩ := List.append_inj' hwhole rfl
    exact ⟨view, htold, hevent friend payload (List.cons.inj hlast).1.symm⟩
  · exact h earlier friend payload hbefore

/-- Further events without frames. -/
theorem FramesRun.append (h : start.FramesRun events) {later : List Event}
    (hlater : ∀ event ∈ later, event.phase ≠ .frames) : start.FramesRun (events ++ later) := by
  induction later using List.reverseRecOn with
  | nil => simpa using h
  | append_singleton later event ih =>
      intro earlier friend payload hprefix
      rw [← List.append_assoc] at hprefix
      rcases List.prefix_concat_iff.mp hprefix with hwhole | hbefore
      · obtain ⟨-, hlast⟩ := List.append_inj' hwhole rfl
        have hframe : event = .frame friend payload := (List.cons.inj hlast).1.symm
        exact absurd (congrArg Event.phase hframe) (hlater event (by simp))
      · exact ih (fun other hother => hlater other (List.mem_append_left _ hother))
          earlier friend payload hbefore

end View

namespace Progress

/-- A step adds one event at most, and a frame only of a call that runs. -/
def Reports (progress after : Progress) : Prop :=
  after.events = progress.events ∨
    ∃ event, after.events = progress.events ++ [event] ∧
      ∀ friend payload, event = .frame friend payload → progress.registry.states.Running friend

variable {progress : Progress}

theorem reports_change (call : Call) : progress.Reports (progress.change call) :=
  Or.inr ⟨.callState call.friend call.state, rfl, by simp⟩

theorem reports_transitioned (friend : Friend) (transition : Transition) :
    progress.Reports (progress.transitioned friend transition) := by
  unfold transitioned
  split
  · exact Or.inl rfl
  split
  · exact reports_change _
  · exact Or.inl rfl

theorem reports_handle (config : Config) (item : Inbound) :
    progress.Reports (progress.handle config item) := by
  cases item with
  | media friend payload =>
      rw [handle, framed]
      split
      · rename_i hadmits
        refine Or.inr ⟨_, rfl, fun other sent hframe => ?_⟩
        cases hframe
        unfold admits at hadmits
        split at hadmits
        · cases hadmits
        · rename_i call hlive
          exact ⟨call.state, Registry.states_of_live? hlive, (Bool.and_eq_true_iff.mp hadmits).1⟩
      · exact Or.inl rfl
  | signal friend signal =>
      cases signal with
      | invite rates =>
          rw [handle, invited]
          split
          · exact Or.inr ⟨_, rfl, by simp⟩
          · exact Or.inl rfl
      | answer rates =>
          rw [handle, answered]
          split
          · exact Or.inl rfl
          split
          · exact reports_change _
          · exact reports_change _
      | control command =>
          cases command with
          | cancel => exact reports_transitioned friend .cancel
          | pause => exact reports_transitioned friend .pause
          | resume => exact reports_transitioned friend .resume
          | _ => exact Or.inl rfl
      | bitRate kind rate =>
          rw [handle, announced]
          split <;> exact Or.inl rfl

theorem reports_checkFriend {σ : Type} (network : Network σ) (state : σ) (friend : Friend) :
    progress.Reports (progress.checkFriend network state friend) := by
  unfold checkFriend
  split
  · exact Or.inl rfl
  split
  · split
    · exact reports_change _
    · exact Or.inl rfl
  split
  · exact reports_change _
  · exact Or.inl rfl

/-- The calls are as they are known, and no frame is of a call that is not known to run. -/
structure Truthful (config : Config) (start : View) (progress : Progress) : Prop
    extends Faithful config start progress where
  framed : start.FramesRun progress.events

theorem Truthful.step {config : Config} {start : View} {friend : Friend}
    {step : Progress → Progress} (h : Truthful config start progress)
    (hminds : Minds friend step) (hreports : progress.Reports (step progress)) :
    Truthful config start (step progress) := by
  refine ⟨h.toFaithful.step hminds, ?_⟩
  rcases hreports with hsame | ⟨event, hone, hframe⟩
  · rw [hsame]
    exact h.framed
  · rw [hone]
    exact h.framed.concat h.told hframe

end Progress

namespace Session

variable {σ : Type} (network : Network σ) (session : Session) (state : σ)

/-- In the order in which the events of a round arose, each frame is of a call that is known to
run. -/
theorem truthful_checked {config : Config}
    (h : ∀ friend, ∀ call ∈ session.call? friend, call.Coherent config) :
    Progress.Truthful config session.callState? (session.checked network state) := by
  have hstart : Progress.Truthful config session.callState? ⟨session.registry, []⟩ :=
    ⟨⟨h, rfl⟩, View.framesRun_nil⟩
  have htaken : Progress.Truthful config session.callState? (session.taken network state).1 :=
    Progress.takeInbound_induction
      (P := fun progress _ => Progress.Truthful config session.callState? progress)
      (fun _ _ _ hbefore _ => hbefore)
      (fun _ _ item _ hbefore _ => hbefore.step (Progress.minds_handle session.config item)
        (Progress.reports_handle session.config item)) _ hstart
  unfold checked
  exact Progress.checkConnectivity_induction
    (fun _ friend hbefore => hbefore.step (Progress.minds_checkFriend friend network _)
      (Progress.reports_checkFriend network _ friend)) htaken

/-- The events of a round, in the order in which they arose. -/
def batch : List Event := (session.checked network state).events ++ session.requests network state

/-- A round that reports something begins to deliver it. -/
theorem deliveries_round :
    (session.round network state).session.deliveries =
      if session.batch network state = [] then session.deliveries
      else ⟨session.listener, Event.deliveryOrder (session.batch network state), true⟩ ::
        session.deliveries := by
  rw [round_eq, dispatch, ← batch]
  split <;> rfl

theorem replay?_batch {config : Config}
    (h : ∀ friend, ∀ call ∈ session.call? friend, call.Coherent config) :
    View.replay? session.callState? (session.batch network state) =
      some (session.checked network state).registry.states := by
  rw [batch, View.replay?_append, (session.truthful_checked network state h).told, Option.bind_some]
  exact View.replay?_of_phase _ (requests_phase network state)

theorem framesRun_batch {config : Config}
    (h : ∀ friend, ∀ call ∈ session.call? friend, call.Coherent config) :
    View.FramesRun session.callState? (session.batch network state) := by
  refine (session.truthful_checked network state h).framed.append fun event hmem => ?_
  obtain ⟨call, -, hrequest⟩ := List.mem_flatMap.mp hmem
  obtain ⟨kind, -, rfl⟩ := List.mem_map.mp hrequest
  simp [Event.phase]

end Session

/-! ## Calls that begin or end -/

/-- The event begins a call with the friend, or ends one. -/
def Event.Renews (friend : Friend) : Event → Prop
  | .call other _ => other = friend
  | .callState other state => other = friend ∧ state.isTerminal = true
  | _ => False

/-- The friend's call is over or rings for us, so that nothing the friend does makes it run. -/
def Registry.AwaitsUs (registry : Registry) (friend : Friend) : Prop :=
  ∀ call, registry.get? friend = some call → call.state.isTerminal = true ∨ call.isAnswerable = true

theorem Registry.awaitsUs_set_iff {registry : Registry} {call : Call} {friend : Friend} :
    (registry.set call).AwaitsUs friend ↔
      if call.friend = friend then call.state.isTerminal = true ∨ call.isAnswerable = true
      else registry.AwaitsUs friend := by
  rw [AwaitsUs, get?_set]
  split
  · simp
  · exact Iff.rfl

theorem Event.phase_of_renews {friend : Friend} {event : Event} (h : event.Renews friend) :
    event.phase = .calls := by
  cases event with
  | call other offered => rfl
  | callState other state => rfl
  | _ => cases h

/-- A call that rings for us ends, or goes on ringing until we do something. -/
theorem Call.isTerminal_of_answerable {call after : Call} {transition : Transition}
    (hcall : call.isAnswerable = true) (theirs : transition.isOurs = false)
    (fits : call.after? transition = some after) : after.state.isTerminal = true := by
  obtain ⟨hringing, hincoming⟩ := isAnswerable_iff.mp hcall
  cases transition with
  | localAnswered rates => cases theirs
  | ratesChanged => cases theirs
  | remoteAnswered rates =>
      rw [(of_remoteAnswered fits).2.1] at hincoming
      cases hincoming
  | pause =>
      have hestablished := (of_pause fits).1
      rw [hringing] at hestablished
      cases hestablished
  | resume =>
      rw [(of_resume fits).1] at hringing
      cases hringing
  | cancel =>
      simp only [after?, Option.ite_none_right_eq_some, Option.some.injEq] at fits
      rw [← fits.2]
      rfl
  | fault =>
      simp only [after?, Option.ite_none_right_eq_some, Option.some.injEq] at fits
      rw [← fits.2]
      rfl

/-- A call that began or ended in the course of the round awaits us. -/
def Progress.Renewed (progress : Progress) : Prop :=
  ∀ friend, ∀ event ∈ progress.events, event.Renews friend → progress.registry.AwaitsUs friend

theorem Progress.Renewed.step {friend : Friend} {step : Progress → Progress} {progress : Progress}
    (h : progress.Renewed) (hminds : Minds friend step) : (step progress).Renewed := by
  intro other event hmem hrenews
  obtain ⟨entered, news, htells, hstep⟩ := hminds progress
  rw [hstep progress rfl] at hmem ⊢
  simp only [enter, List.mem_append] at hmem ⊢
  generalize hfound : progress.registry.live? friend = found at htells
  cases htells with
  | unheard found silent =>
      rcases hmem with hold | hnew
      · exact h other event hold hrenews
      · exact absurd (Event.phase_of_renews hrenews) (silent event hnew)
  | called rates =>
      rw [Option.elim_some, Registry.awaitsUs_set_iff]
      split
      · exact Or.inr rfl
      · rename_i hother
        rcases hmem with hold | hnew
        · exact h other event hold hrenews
        · rw [List.mem_singleton.mp hnew] at hrenews
          exact absurd hrenews hother
  | @moved call after transition theirs fits =>
      rw [Option.elim_some, Registry.awaitsUs_set_iff]
      split
      · rename_i hother
        refine Or.inl ?_
        rcases hmem with hold | hnew
        · -- the call that moves was awaiting us already
          have hfriend : friend = other := by
            rw [← hother, Call.friend_of_after? fits, Registry.friend_of_live? hfound]
          subst hfriend
          rcases h friend event hold hrenews call (Registry.get?_of_live? hfound) with
            hover | hrings
          · have hlive := Registry.isLive_of_live? hfound
            simp [Call.isLive, hover] at hlive
          · exact Call.isTerminal_of_answerable hrings theirs fits
        · rw [List.mem_singleton.mp hnew] at hrenews
          exact hrenews.2
      · rename_i hother
        rcases hmem with hold | hnew
        · exact h other event hold hrenews
        · rw [List.mem_singleton.mp hnew] at hrenews
          exact absurd hrenews.1 hother
  | announced call kind rate =>
      rw [Option.elim_some, Registry.awaitsUs_set_iff]
      have hold := h other event (hmem.resolve_right (by simp)) hrenews
      split
      · rename_i hother
        have hfriend : friend = other := by
          rw [← hother, Call.friend_withPeerRate, Registry.friend_of_live? hfound]
        subst hfriend
        exact hold call (Registry.get?_of_live? hfound)
      · exact hold

theorem Registry.AwaitsUs.not_running {registry : Registry} {friend : Friend}
    (h : registry.AwaitsUs friend) : ¬ registry.states.Running friend := by
  rintro ⟨state, hstate, hrunning⟩
  obtain ⟨call, hcall, rfl⟩ := Option.map_eq_some_iff.mp hstate
  rcases h call hcall with hover | hrings
  · cases hcase : call.state <;>
      simp [hcase, CallState.isTerminal, CallState.isEstablished] at hover hrunning
  · rw [(Call.isAnswerable_iff.mp hrings).1] at hrunning
    cases hrunning

/-- With whom a call began or ended in the course of a round, none runs when the round is done. -/
theorem Session.not_running_of_renews {σ : Type} (network : Network σ) (session : Session)
    (state : σ) {friend : Friend} {event : Event} (hmem : event ∈ session.batch network state)
    (hrenews : event.Renews friend) :
    ¬ (session.checked network state).registry.states.Running friend := by
  have hrenewed : (session.checked network state).Renewed :=
    checked_induction network state (fun _ _ _ hminds h => h.step hminds)
      fun _ _ hnone => absurd hnone List.not_mem_nil
  rcases List.mem_append.mp hmem with htold | hrequest
  · exact (hrenewed friend event htold hrenews).not_running
  · exact absurd (Event.phase_of_renews hrenews) (requests_phase network state event hrequest)

/-! ## The order of delivery -/

namespace View

variable {start view : View} {events earlier later : List Event} {friend : Friend}
  {payload : Payload}

/-- Before a frame everything that the batch tells of calls is delivered. -/
theorem replay?_before_frame
    (h : Event.deliveryOrder events = earlier ++ .frame friend payload :: later) :
    start.replay? earlier = start.replay? events := by
  have hcalls : ∀ event ∈ Event.inPhase .calls events, event.phase = .calls := fun event hmem =>
    by simpa [Event.inPhase] using (List.mem_filter.mp hmem).2
  have hrest : ∀ event ∈ Event.inPhase .frames events ++ Event.inPhase .requests events,
      event.phase ≠ .calls := by
    intro event hmem
    rcases List.mem_append.mp hmem with hframe | hrequest
    · simp [of_decide_eq_true (List.mem_filter.mp hframe).2]
    · simp [of_decide_eq_true (List.mem_filter.mp hrequest).2]
  rw [Event.deliveryOrder, List.append_assoc] at h
  rcases List.append_eq_append_iff.mp h with ⟨before, rfl, hframes⟩ | ⟨after, hafter, hlater⟩
  · rw [hframes] at hrest
    rw [replay?_append, replay?_inPhase]
    cases start.replay? events with
    | none => rfl
    | some view =>
        exact replay?_of_phase view fun event hmem =>
          hrest event (List.mem_append_left _ hmem)
  · -- the frame would have to be among what is told of calls
    cases after with
    | nil =>
        rw [List.append_nil] at hafter
        rw [← hafter, replay?_inPhase]
    | cons event after =>
        obtain ⟨rfl, -⟩ := List.cons.inj hlater
        have hphase := hcalls (.frame friend payload) (by simp [hafter])
        cases hphase

/-- What a view believes of a call stays as long as nothing is told of it. -/
theorem replay?_unheard (h : start.replay? events = some view)
    (hunheard : ∀ event ∈ events, event.friend = friend → event.phase ≠ .calls) :
    view friend = start friend := by
  induction events generalizing start with
  | nil =>
      cases h
      rfl
  | cons event events ih =>
      obtain ⟨hevent, hlater⟩ := List.forall_mem_cons.mp hunheard
      rw [replay?, List.foldlM_cons] at h
      obtain ⟨next, hnext, hrest⟩ := Option.bind_eq_some_iff.mp h
      rw [ih hrest hlater]
      cases event with
      | call other offered =>
          have hother : friend ≠ other := fun heq => hevent heq.symm rfl
          simp only [follow?, Option.ite_none_right_eq_some, Option.some.injEq] at hnext
          rw [← hnext.2, Function.update_of_ne hother]
      | callState other state =>
          have hother : friend ≠ other := fun heq => hevent heq.symm rfl
          simp only [follow?, Option.ite_none_right_eq_some, Option.some.injEq] at hnext
          rw [← hnext.2, Function.update_of_ne hother]
      | _ =>
          cases hnext
          rfl

end View

/-! ## Runs -/

/-- A view that knows a session and the session agree on which calls run. -/
theorem Session.KnownBy.running_iff {session : Session} {view : View} (h : session.KnownBy view)
    (friend : Friend) : view.Running friend ↔ View.Running session.callState? friend := by
  constructor
  · rintro ⟨state, hstate, hrunning⟩
    cases hcall : session.callState? friend with
    | none =>
        have hover := h.gone friend hcall state hstate
        cases state <;> simp [CallState.isTerminal, CallState.isEstablished] at hover hrunning
    | some actual =>
        obtain rfl := Option.some.inj ((h.present friend actual hcall).symm.trans hstate)
        exact ⟨actual, hcall, hrunning⟩
  · rintro ⟨state, hstate, hrunning⟩
    exact ⟨state, h.present friend state hstate, hrunning⟩

/-- A frame after which nothing is told of its call is of a call that runs when the round is
done. -/
theorem Session.running_of_unheard {σ : Type} (network : Network σ) (session : Session) (state : σ)
    {config : Config} (h : ∀ friend, ∀ call ∈ session.call? friend, call.Coherent config)
    {earlier later : List Event} {friend : Friend} {payload : Payload}
    (hbatch : session.batch network state = earlier ++ .frame friend payload :: later)
    (hunheard : ∀ event ∈ later, event.friend = friend → event.phase ≠ .calls) :
    (session.checked network state).registry.states.Running friend := by
  obtain ⟨view, hview, actual, hactual, hrunning⟩ :=
    session.framesRun_batch network state h earlier friend payload ⟨later, by simp [hbatch]⟩
  have hreplay := session.replay?_batch network state h
  rw [hbatch, View.replay?_append, hview, Option.bind_some] at hreplay
  have hsilent : ∀ event ∈ Event.frame friend payload :: later,
      event.friend = friend → event.phase ≠ .calls :=
    List.forall_mem_cons.mpr ⟨by simp [Event.phase], hunheard⟩
  have hsame := View.replay?_unheard hreplay hsilent
  exact ⟨actual, hsame.trans hactual, hrunning⟩

namespace Station

variable {σ : Type}

/-- Whatever was done with a session before, and whatever its network hands to it and answers:
in the order in which the events of an iteration arise, a view that follows them believes a
call to be running whenever a frame of it comes.  In the order in which they are delivered, a
frame finds the view that has followed the whole batch, where its call runs exactly if it runs
once the iteration is done.  It does if nothing more was told of the call after the frame arose,
and it does not if a call with the friend began or ended in the iteration. -/
theorem frames_of_run (network : Network σ) {config : Config} {state opened : σ}
    {session : Session} (h : Session.attach network config state = (.ok session, opened))
    (moves : List (Move σ)) :
    let station := (⟨session, opened⟩ : Station σ).run network moves
    let known : View := station.session.callState?
    let after := (station.session.iterate network station.state).session
    let events := if station.session.closed || station.session.isIterating then []
      else station.session.batch network station.state
    after.deliveries =
        (if Event.deliveryOrder events = [] then station.session.deliveries
        else ⟨station.session.listener, Event.deliveryOrder events, true⟩ ::
          station.session.deliveries) ∧
    (∀ earlier friend payload later, events = earlier ++ .frame friend payload :: later →
      ∃ view, known.replay? earlier = some view ∧ view.Running friend) ∧
    (∀ earlier friend payload later,
      Event.deliveryOrder events = earlier ++ .frame friend payload :: later →
      ∃ view, known.replay? earlier = some view ∧
        (view.Running friend ↔ View.Running after.callState? friend)) ∧
    (∀ earlier friend payload later, events = earlier ++ .frame friend payload :: later →
      (∀ event ∈ later, event.friend = friend → event.phase ≠ .calls) →
      View.Running after.callState? friend) ∧
    ∀ friend, ∀ event ∈ events, event.Renews friend →
      ¬ View.Running after.callState? friend := by
  intro station known after events
  obtain ⟨usable, rfl, -⟩ := Session.attach_eq_ok h
  have hcoherent : ∀ friend, ∀ call ∈ station.session.call? friend, call.Coherent config :=
    coherent_call? network usable opened moves
  by_cases hidle : (station.session.closed || station.session.isIterating) = true
  · have hevents : events = [] := if_pos hidle
    have hafter : after = station.session := by
      simp only [after, Session.iterate, if_pos hidle]
    rw [hevents, hafter]
    exact ⟨rfl, by simp, by simp [Event.deliveryOrder, Event.inPhase], by simp, by simp⟩
  have hbatch : events = station.session.batch network station.state := if_neg hidle
  have hafter : after = (station.session.round network station.state).session := by
    simp only [after, Session.iterate, if_neg hidle]
  have hreplay := station.session.replay?_batch network station.state hcoherent
  have hframed := station.session.framesRun_batch network station.state hcoherent
  have hknown := Session.knownBy_of_reap
    (Session.registry_round network station.session station.state)
  rw [hbatch, hafter]
  refine ⟨Session.deliveries_dispatch _ _ true,
    fun earlier friend payload later hevents => ?_,
    fun earlier friend payload later hdelivered => ?_,
    fun earlier friend payload later hevents hunheard => ?_,
    fun friend event hmem hrenews => ?_⟩
  · exact hframed earlier friend payload ⟨later, by simp [hevents]⟩
  · exact ⟨_, (View.replay?_before_frame hdelivered).trans hreplay, hknown.running_iff friend⟩
  · rw [← hknown.running_iff]
    exact station.session.running_of_unheard network station.state hcoherent hevents hunheard
  · rw [← hknown.running_iff]
    exact station.session.not_running_of_renews network station.state hmem hrenews

/-- A friend answers.  Later it sends a frame and pauses, before the next round. -/
def pausingMoves : List (Move Hub) :=
  [.perform (.listen ⟨7⟩), .perform (.call ⟨1⟩ ⟨48, 0⟩),
    .drift fun hub => ((Hub.node 1).sendSignal ⟨0⟩ (.answer ⟨48, 0⟩) hub).2,
    .perform .iterate, .deliver, .deliver, .deliver,
    .drift fun hub => ((Hub.node 1).sendMedia ⟨0⟩ (.audio .click) hub).2,
    .drift fun hub => ((Hub.node 1).sendSignal ⟨0⟩ (.control .pause) hub).2]

def pausingHub : Hub := (Hub.fresh 2).connect 0 ⟨1⟩ 1 ⟨0⟩

def pausingStart : Station Hub :=
  ⟨.fresh .standard Config.standard_usable, ((Hub.node 0).attach pausingHub).2⟩

def pausingRun : Station Hub := pausingStart.run (Hub.node 0) pausingMoves

theorem attach_pausingHub : Session.attach (Hub.node 0) .standard pausingHub =
    (.ok pausingStart.session, pausingStart.state) :=
  Session.attach_of_usable Config.standard_usable rfl

/-- A view that has been told of the pause does not believe the call to be running. -/
theorem paused_pausingRun {view : View}
    (h : View.replay? pausingRun.session.callState? [.callState ⟨1⟩ .paused] = some view) :
    ¬ view.Running ⟨1⟩ := by
  have hpaused : (View.replay? pausingRun.session.callState? [.callState ⟨1⟩ .paused]).map
      (fun view => view ⟨1⟩) = some (some .paused) := by decide
  rw [h, Option.map_some, Option.some.injEq] at hpaused
  rintro ⟨state, hrunning, hestablished⟩
  obtain rfl := Option.some.inj (hpaused.symm.trans hrunning)
  cases hestablished

/-- The listener is told of the pause first, and then gets a frame of the call that it knows to
be paused. -/
theorem frame_after_pause :
    let after := (pausingRun.session.iterate (Hub.node 0) pausingRun.state).session
    Session.attach (Hub.node 0) .standard pausingHub =
        (.ok pausingStart.session, pausingStart.state) ∧
      ∃ earlier friend payload later view, after.deliveries =
        [⟨some ⟨7⟩, earlier ++ .frame friend payload :: later, true⟩] ∧
      View.replay? pausingRun.session.callState? earlier = some view ∧
      ¬ view.Running friend := by
  have htold : (View.replay? pausingRun.session.callState?
      [.callState ⟨1⟩ .paused]).isSome = true := by decide
  obtain ⟨view, hview⟩ := Option.isSome_iff_exists.mp htold
  exact ⟨attach_pausingHub, [.callState ⟨1⟩ .paused], ⟨1⟩, .audio .click, [], view, by decide,
    hview, paused_pausingRun hview⟩

/-- The frame was of a running call when it arose, and when it is delivered the call is known to
be paused. -/
theorem frames_of_pausingRun :
    let known : View := pausingRun.session.callState?
    pausingRun.session.batch (Hub.node 0) pausingRun.state =
        [.frame ⟨1⟩ (.audio .click), .callState ⟨1⟩ .paused] ∧
      (∃ view, known.replay? [] = some view ∧ view.Running ⟨1⟩) ∧
      ∃ view, known.replay? [.callState ⟨1⟩ .paused] = some view ∧ ¬ view.Running ⟨1⟩ := by
  intro known
  obtain ⟨-, harose, hdelivered, -⟩ := frames_of_run (Hub.node 0) attach_pausingHub pausingMoves
  obtain ⟨view, hview, -⟩ := hdelivered [.callState ⟨1⟩ .paused] ⟨1⟩ (.audio .click) [] (by decide)
  exact ⟨by decide, harose [] ⟨1⟩ (.audio .click) [.callState ⟨1⟩ .paused] (by decide),
    view, hview, paused_pausingRun hview⟩

end Station

end PeerCalls
