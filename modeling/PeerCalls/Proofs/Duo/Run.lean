import PeerCalls.Proofs.Duo.Hearing

/-!
# Runs of two linked sessions

A `Duo` is two sessions over one hub.  Its steps are operations on either side and
steps of deliveries, in any order, so a list of steps is an interleaving of what the
two applications and their callbacks do.  `Duo.good_run` carries a property of the
line between the two sessions along every run: the property has to survive that a
side hears something and that a side says what it is allowed to say.
-/

namespace PeerCalls

/-! ## Faults among the deliveries -/

/-- None of the events on their way tells of a fault. -/
def Session.Faultless (session : Session) : Prop :=
  ∀ delivery ∈ session.deliveries, ∀ event ∈ delivery.pending, event.Faultless

namespace Session

variable {session : Session}

theorem Faultless.dispatch (h : session.Faultless) {events : List Event}
    (hevents : ∀ event ∈ events, event.Faultless) (ofRound : Bool) :
    (session.dispatch events ofRound).Faultless := by
  unfold Session.dispatch
  split
  · exact h
  · intro delivery hdelivery
    rcases List.mem_cons.mp hdelivery with rfl | hbefore
    · intro event hevent
      simp only [Event.deliveryOrder, Event.inPhase, List.mem_append, List.mem_filter] at hevent
      refine hevents event ?_
      rcases hevent with (⟨hmem, -⟩ | ⟨hmem, -⟩) | ⟨hmem, -⟩ <;> exact hmem
    · exact h delivery hbefore

theorem Faultless.advance (h : session.Faultless) {step : DeliveryStep} {after : Session}
    (hadvance : session.advance = some (step, after)) : after.Faultless := by
  unfold Session.advance at hadvance
  unfold Faultless at h
  split at hadvance
  · cases hadvance
  · rename_i delivery outer hdeliveries
    rw [hdeliveries] at h
    split at hadvance
    · cases hadvance
      exact fun other hother => h other (List.mem_cons_of_mem delivery hother)
    · rename_i event later hpending
      cases hadvance
      intro other hother
      rcases List.mem_cons.mp hother with rfl | houter
      · intro told htold
        refine h delivery List.mem_cons_self told ?_
        rw [hpending]
        exact List.mem_cons_of_mem event htold
      · exact h other (List.mem_cons_of_mem delivery houter)

/-- Operations other than a round report rates at most. -/
theorem Faultless.perform {σ : Type} {network : Network σ} {state : σ} (h : session.Faultless)
    {command : Command} (hround : command ≠ .iterate) :
    (session.perform network state command).session.Faultless := by
  cases command with
  | iterate => exact absurd rfl hround
  | call friend rates =>
      rcases call_cases network session state friend rates with
        ⟨_, -, houtcome⟩ | ⟨-, _, _, -, houtcome⟩ | ⟨-, _, -, houtcome⟩ <;>
        · rw [Session.perform, houtcome]
          exact h
  | answer friend rates =>
      rcases answer_cases network session state friend rates with
        ⟨_, houtcome⟩ | ⟨_, -, ⟨_, _, -, houtcome⟩ | ⟨_, -, ⟨_, _, -, houtcome⟩ |
          ⟨_, -, houtcome⟩⟩⟩ <;>
        · rw [Session.perform, houtcome]
          exact h
  | control friend command =>
      rcases control_cases network session state friend command with
        ⟨_, houtcome⟩ | ⟨_, -, ⟨_, _, -, -, houtcome⟩ | ⟨_, _, _, -, -, -, houtcome⟩⟩ <;>
        · rw [Session.perform, houtcome]
          exact h
  | setRate friend kind rate force =>
      have hreport : ∀ report : RateReport, ∀ event ∈ [Event.rateReport report],
          event.Faultless := by
        intro report event hevent
        rw [List.mem_singleton.mp hevent]
        exact Event.faultless_rateReport report
      rcases setRate_cases network session state friend kind rate force with
        ⟨_, houtcome⟩ | ⟨call, -, ⟨_, -, houtcome⟩ | ⟨_, -, ⟨_, _, -, houtcome⟩ |
          ⟨_, -, houtcome⟩⟩⟩
      · rw [Session.perform, houtcome]
        exact h
      · rw [Session.perform, houtcome]
        exact h.dispatch (hreport _) false
      · rw [Session.perform, houtcome]
        exact h
      · rw [Session.perform, houtcome]
        have hset : (session.setCall (call.withRate kind rate)).Faultless := h
        exact hset.dispatch (hreport _) false
  | sendFrame friend payload =>
      have hsession := session_sendFrame network session state friend payload
      simp only [Session.perform, Outcome.map, hsession]
      exact h
  | close =>
      simp only [Session.perform, Outcome.map, Session.close]
      split <;> exact h
  | listen listener => exact h

end Session

/-! ## Rounds -/

namespace Wiring

variable {wiring : Wiring} {P : Line → Prop} {configs : Side → Config}
  {registries : Side → Registry} {hub : Hub} {side : Side}

theorem carries_release (wiring : Wiring) (side : Side) (hub : Hub) (friends : List Friend) :
    wiring.Carries side [] hub (friends.foldl
      (fun hub friend => (wiring.network side).closeMedia friend hub) hub) := by
  induction friends generalizing hub with
  | nil => exact .refl
  | cons friend friends ih => exact (wiring.carries_closeMedia side friend hub).trans (ih _)

/-- A round keeps everything in order, if hearing a signal does. -/
theorem Good.round (h : wiring.Good P configs registries hub)
    (hear : ∀ line side signal later, line.Sound → P line →
      line.waiting side = signal :: later → P (line.hear wiring.number side signal later))
    (fits : ∀ line side, line.Sound → P line → line.Fits side) {session : Session}
    (hregistry : session.registry = registries side) (hconfig : session.config = configs side) :
    wiring.Good P configs
        (Function.update registries side
          (session.round (wiring.network side) hub).session.registry)
        (session.round (wiring.network side) hub).network ∧
      ∀ event ∈ (session.checked (wiring.network side) hub).events ++
        session.requests (wiring.network side) hub, event.Faultless := by
  have htaken : wiring.Good P configs
        (Function.update registries side
          (session.taken (wiring.network side) hub).1.registry)
        (session.taken (wiring.network side) hub).2 ∧
      ∀ event ∈ (session.taken (wiring.network side) hub).1.events,
        event.Faultless := by
    refine Progress.takeInbound_induction
      (P := fun progress hub =>
        wiring.Good P configs (Function.update registries side progress.registry) hub ∧
          ∀ event ∈ progress.events, event.Faultless)
      (fun progress hub after hgood hpoll => ?_)
      (fun progress hub item after hgood hpoll => ?_) _ ⟨?_, by simp⟩
    · rw [hub_of_poll_none hgood.1.joins hpoll]
      exact hgood
    · have hstep := hgood.1.take hear fits (Function.update_self side _ _) hgood.2 hpoll
      rwa [Function.update_idem, ← hconfig] at hstep
    · rw [hregistry, Function.update_eq_self]
      exact h
  obtain ⟨hgood, hfaultless⟩ := htaken
  have hkept : (session.taken (wiring.network side) hub).1.registry.Kept (configs side)
      ((session.taken (wiring.network side) hub).2.get (wiring.place side)) := by
    have hside := hgood.kept side
    rwa [Function.update_self] at hside
  have hchecked : session.checked (wiring.network side) hub =
      (session.taken (wiring.network side) hub).1 :=
    Progress.checkConnectivity_of_kept hkept
  refine ⟨?_, fun event hevent => ?_⟩
  · -- reaping takes out calls that are over, and releasing their codecs touches no inbox
    have hcarries := wiring.carries_release side
      (session.taken (wiring.network side) hub).2
      (session.checked (wiring.network side) hub).registry.finished
    have hreaped : (session.round (wiring.network side) hub).session.registry =
        (session.taken (wiring.network side) hub).1.registry.reap.2 := by
      rw [Session.registry_round, hchecked]
    have hsilent : wiring.Silent side
        { session with
          registry := (session.taken (wiring.network side) hub).1.registry }
        (session.taken (wiring.network side) hub).2
        (session.round (wiring.network side) hub) := by
      refine .of_carries ?_ ?_ hcarries
      · rw [hreaped]
        exact (hconfig ▸ hkept).filter Call.isLive
      · rw [hreaped, Registry.live?_reap]
    have hround := hgood.silent hsilent (by rw [Function.update_self]) hconfig
    rwa [Function.update_idem] at hround
  · rcases List.mem_append.mp hevent with hbefore | hrequest
    · rw [hchecked] at hbefore
      exact hfaultless event hbefore
    · obtain ⟨call, -, hmem⟩ := List.mem_flatMap.mp hrequest
      obtain ⟨kind, -, rfl⟩ := List.mem_map.mp hmem
      exact Event.faultless_frameRequest call.friend kind

end Wiring

/-! ## Two sessions -/

/-- Two sessions and the hub under both. -/
structure Duo where
  sessions : Side → Session
  hub : Hub

namespace Duo

/-- Something that happens on one side. -/
inductive Step where
  /-- The application, or one of its callbacks, uses the session. -/
  | perform (side : Side) (command : Command)
  /-- The innermost delivery takes a step. -/
  | deliver (side : Side)

/-- The side on which the step happens. -/
def Step.side : Step → Side
  | perform side _ => side
  | deliver side => side

variable (wiring : Wiring) (duo : Duo)

def after : Step → Duo
  | .perform side command =>
    let outcome := (duo.sessions side).perform (wiring.network side) duo.hub command
    ⟨Function.update duo.sessions side outcome.session, outcome.network⟩
  | .deliver side =>
    match (duo.sessions side).advance with
    | some (_, session) => { duo with sessions := Function.update duo.sessions side session }
    | none => duo

def run (steps : List Step) : Duo := steps.foldl (after wiring) duo

def configs (side : Side) : Config := (duo.sessions side).config

def registries (side : Side) : Registry := (duo.sessions side).registry

/-- The line between the two sessions. -/
def line : Line := wiring.line duo.registries duo.hub

/-- The signal that the step adds to what waits for the other side, if it adds one. -/
def sent? (step : Step) : Option Signal :=
  let before := (duo.line wiring).waiting step.side.other
  let later := ((duo.after wiring step).line wiring).waiting step.side.other
  later.getLast?.filter fun signal => later = before ++ [signal]

/-- What the steps say, taken in turn, is allowed by the line at that point. -/
def Obeys (wiring : Wiring) (allows : Line → Side → Signal → Prop) (duo : Duo) :
    List Step → Prop
  | [] => True
  | step :: steps =>
    (∀ signal ∈ duo.sent? wiring step, allows (duo.line wiring) step.side signal) ∧
      Obeys wiring allows (duo.after wiring step) steps

/-- The sides are linked, no call has failed, no fault is being reported, and the line between
the sides is as `P` says. -/
structure Good (P : Line → Prop) : Prop where
  good : wiring.Good P duo.configs duo.registries duo.hub
  faultless : ∀ side, (duo.sessions side).Faultless

variable {wiring : Wiring} {duo : Duo} {P : Line → Prop}

/-! ### One step -/

theorem faultless_update (h : ∀ side, (duo.sessions side).Faultless) {side : Side}
    {session : Session} (hsession : session.Faultless) (own : Side) :
    (Function.update duo.sessions side session own).Faultless := by
  rcases own.eq_or_eq_other side with rfl | rfl
  · rwa [Function.update_self]
  · rw [Function.update_of_ne (Side.other_ne side)]
    exact h side.other

theorem registries_update (sessions : Side → Session) (side : Side) (session : Session)
    (hub : Hub) :
    (⟨Function.update sessions side session, hub⟩ : Duo).registries =
      Function.update (fun side => (sessions side).registry) side session.registry := by
  funext own
  rcases own.eq_or_eq_other side with rfl | rfl <;> simp [registries]

theorem configs_update {side : Side} {session : Session}
    (h : session.config = (duo.sessions side).config) (hub : Hub) :
    (⟨Function.update duo.sessions side session, hub⟩ : Duo).configs = duo.configs := by
  funext own
  rcases own.eq_or_eq_other side with rfl | rfl <;> simp [configs, h]

/-- A step of a good duo leaves a good one, if hearing keeps the property of the line and
what the step says keeps it, too. -/
theorem Good.after (h : duo.Good wiring P)
    (hear : ∀ line side signal later, line.Sound → P line →
      line.waiting side = signal :: later → P (line.hear wiring.number side signal later))
    (fits : ∀ line side, line.Sound → P line → line.Fits side) {step : Step}
    (hopen : ∀ side, step ≠ .perform side .close)
    (hsay : ∀ signal after, (duo.line wiring).Sound → signal ∈ duo.sent? wiring step →
      Says (wiring.number step.side) ((duo.line wiring).call step.side) signal after →
      P ((duo.line wiring).say step.side signal after)) :
    (duo.after wiring step).Good wiring P := by
  obtain ⟨hgood, hfaultless⟩ := h
  cases step with
  | deliver side =>
      simp only [Duo.after]
      split
      · rename_i delivered session hadvance
        have hsame := Session.advance_eq hadvance
        refine ⟨?_, faultless_update hfaultless ((hfaultless side).advance hadvance)⟩
        have hregistry : session.registry = (duo.sessions side).registry := by rw [hsame]
        have hconfig : session.config = (duo.sessions side).config := by rw [hsame]
        rw [configs_update hconfig, registries_update, hregistry, Function.update_eq_self]
        exact hgood
      · exact ⟨hgood, hfaultless⟩
  | perform side command =>
      have hclose : command ≠ .close := by
        rintro rfl
        exact hopen side rfl
      have hconfig := Session.config_perform (wiring.network side) (duo.sessions side) duo.hub
        command
      by_cases hround : command = .iterate
      · subst hround
        rcases Session.iterate_cases (wiring.network side) (duo.sessions side) duo.hub with
          houtcome | ⟨-, -, houtcome⟩
        · simp only [Duo.after, Session.perform, Outcome.map, houtcome, Function.update_eq_self]
          exact ⟨hgood, hfaultless⟩
        · have hregistry : (duo.sessions side).registry = duo.registries side := rfl
          have hsame : (duo.sessions side).config = duo.configs side := rfl
          obtain ⟨hafter, hevents⟩ := hgood.round hear fits hregistry hsame
          have hreaped : ({ duo.sessions side with
              registry := ((duo.sessions side).checked (wiring.network side)
                duo.hub).registry.reap.2 } : Session).Faultless := hfaultless side
          simp only [Session.perform, Outcome.map, houtcome] at hconfig
          simp only [Duo.after, Session.perform, Outcome.map, houtcome]
          refine ⟨?_, faultless_update hfaultless (hreaped.dispatch hevents true)⟩
          rw [configs_update hconfig, registries_update]
          exact hafter
      · have hspeaks := Session.speaks_perform hgood.joins (hgood.kept side) hround hclose
        refine ⟨?_, faultless_update hfaultless ((hfaultless side).perform hround)⟩
        rw [Duo.after, configs_update hconfig, registries_update]
        rcases hspeaks with hsilent | ⟨signal, hsaid⟩
        · exact hgood.silent hsilent rfl rfl
        · refine hgood.said hsaid rfl (hsay signal _ hgood.sound ?_ hsaid.speech)
          have hlater : ((duo.after wiring (.perform side command)).line wiring).waiting
              side.other = (duo.line wiring).waiting side.other ++ [signal] := by
            simp only [line, Wiring.line, Duo.after, hsaid.carries.other, List.filterMap_append]
            rfl
          simp [sent?, Step.side, hlater]

/-! ### Runs -/

/-- What holds of the line at the start, and survives hearing and whatever `allows` permits
to be said, holds of the line after every run that says only what is permitted; and no
call fails in such a run. -/
theorem Good.run {allows : Line → Side → Signal → Prop} (h : duo.Good wiring P)
    (hear : ∀ line side signal later, line.Sound → P line →
      line.waiting side = signal :: later → P (line.hear wiring.number side signal later))
    (say : ∀ line side signal after, line.Sound → P line →
      Says (wiring.number side) (line.call side) signal after → allows line side signal →
      P (line.say side signal after))
    (fits : ∀ line side, line.Sound → P line → line.Fits side) {steps : List Step}
    (hopen : ∀ side, Step.perform side .close ∉ steps) (hobeys : duo.Obeys wiring allows steps) :
    (duo.run wiring steps).Good wiring P := by
  induction steps generalizing duo with
  | nil => exact h
  | cons step steps ih =>
      obtain ⟨hallowed, hlater⟩ := hobeys
      have hstep : (duo.after wiring step).Good wiring P := by
        refine h.after hear fits (fun side heq => hopen side (by simp [heq])) ?_
        intro signal after hsound hsent hspeech
        exact say _ _ signal after hsound h.good.holds hspeech (hallowed signal hsent)
      exact ih hstep (fun side hmem => hopen side (by simp [hmem])) hlater

/-- No call has failed, and no fault is on its way to a listener. -/
theorem Good.unfailed (h : duo.Good wiring P) (side : Side) :
    (∀ call ∈ (duo.sessions side).registry.calls, call.state ≠ .failed) ∧
      ∀ delivery ∈ (duo.sessions side).deliveries, ∀ event ∈ delivery.pending,
        ∀ friend, event ≠ .callState friend .failed :=
  ⟨fun call hcall => (h.good.kept side call hcall).unfailed, h.faultless side⟩

/-! ### The beginning -/

/-- Two sessions without calls. -/
def start (configs : Side → Config) (usable : ∀ side, (configs side).Usable) (hub : Hub) : Duo :=
  ⟨fun side => .fresh (configs side) (usable side), hub⟩

/-- Two sessions without calls and with nothing in their inboxes are in good order. -/
theorem good_start {configs : Side → Config} {usable : ∀ side, (configs side).Usable} {hub : Hub}
    (hjoins : wiring.Joins hub)
    (hquiet : ∀ side, (hub.get (wiring.place side)).inbox = [])
    (hP : P ⟨fun _ => none, fun _ => []⟩) : (start configs usable hub).Good wiring P := by
  refine ⟨⟨hjoins, fun side => ?_, fun side call hcall => ?_, ?_⟩,
    fun side delivery hdelivery => ?_⟩
  · rw [show ((start configs usable hub).hub.get (wiring.place side)).inbox = [] from hquiet side]
    simp
  · cases hcall
  · have hline : wiring.line (start configs usable hub).registries hub =
        ⟨fun _ => none, fun _ => []⟩ := by
      refine Line.ext rfl (funext fun side => ?_)
      simp [Wiring.line, hquiet side]
    rw [show (start configs usable hub).hub = hub from rfl, hline]
    exact hP
  · cases hdelivery

end Duo

end PeerCalls
