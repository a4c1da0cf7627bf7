import PeerCalls.Proofs.Call.Coherence
import PeerCalls.Network.Scripted
import PeerCalls.Proofs.Network.Exchanges

/-!
# A request is granted as a whole or not at all

An application may ask to answer a call, to give it a command or to change a rate.  For
each of these a `Request` says what the friend is told (`signal`) and what becomes of the
call (`effect`).  A request that is granted has done both, one that is not has done
neither, and a request never concerns anybody but its friend.  The one exception is a
hang-up, which is granted whether the friend can be told or not.

`Request.Settled` gathers this for one request.  That commands leave a call in the state
that its rates call for needs the call to be coherent, so the last theorem is about the
stations that a run leads to.
-/

namespace PeerCalls

/-- Something that an application may ask for the call with a friend. -/
inductive Request where
  | answer (rates : Rates)
  | control (command : Control)
  | setRate (kind : MediaKind) (rate : UInt32) (force : Bool)
  deriving DecidableEq

/-- Whether the reply tells that something was done. -/
def Reply.grants : Reply → Bool
  | .answered result => result.isOk
  | .controlled result => result.isOk
  | .rateSet (.ok report) => report.stable
  | _ => false

namespace Request

/-- The operation by which the request is made. -/
def command (friend : Friend) : Request → Command
  | answer rates => .answer friend rates
  | control command => .control friend command
  | setRate kind rate force => .setRate friend kind rate force

/-- What the friend is told. -/
def signal : Request → Signal
  | answer rates => .answer rates
  | control command => .control command
  | setRate kind rate _ => .bitRate kind rate

/-- What becomes of the call. -/
def effect (call : Call) : Request → Call
  | answer rates => { call with rates, state := .running rates }
  | control .pause => { call with state := .paused, pausedFrom := some (.running call.rates) }
  | control .resume => { call with state := .running call.rates, pausedFrom := none }
  | control .cancel => { call with state := .ended, pausedFrom := none }
  | control .muteAudio => { call with withheld := { call.withheld with audio := true } }
  | control .unmuteAudio => { call with withheld := { call.withheld with audio := false } }
  | control .hideVideo => { call with withheld := { call.withheld with video := true } }
  | control .showVideo => { call with withheld := { call.withheld with video := false } }
  | setRate kind rate _ =>
    let rates := call.rates.set rate kind
    if call.state = .paused then { call with rates, pausedFrom := some (.running rates) }
    else { call with rates, state := .running rates }

/-- The reply to a request that is granted and leaves the call as given. -/
def granted (friend : Friend) (after : Call) : Request → Reply
  | answer _ => .answered (.ok after.state)
  | control _ => .controlled (.ok after.state)
  | setRate kind rate _ => .rateSet (.ok ⟨friend, kind, true, rate⟩)

/-- How a request for the call with a friend may end, if `made` is what it asked of the
network. -/
structure Settled {σ : Type} (request : Request) (friend : Friend) (session : Session)
    (made : List Exchange) (outcome : Outcome σ Reply) : Prop where
  /-- The network is asked for nothing that concerns anybody else. -/
  confined : ∀ exchange ∈ made, exchange.friend? = some friend
  /-- The calls with everybody else stay as they are. -/
  others : ∀ other, other ≠ friend → outcome.session.call? other = session.call? other
  /-- What is not granted changes no call and tells the friend nothing. -/
  nothing : outcome.answer.grants = false →
    outcome.session.registry = session.registry ∧ made.filterMap Exchange.accepted? = []
  /-- What is granted changes the call as it should, and tells the friend just that; only of
  a hang-up the friend may have been told nothing. -/
  whole : outcome.answer.grants = true → ∃ call, session.registry.live? friend = some call ∧
    outcome.session.call? friend = some (request.effect call) ∧
    outcome.answer = request.granted friend (request.effect call) ∧
    (made.filterMap Exchange.accepted? = [(friend, request.signal)] ∨
      request = .control .cancel ∧ made.filterMap Exchange.accepted? = [])

variable {request : Request} {friend : Friend} {call : Call}

@[simp] theorem friend_effect (call : Call) (request : Request) :
    (request.effect call).friend = call.friend := by
  cases request with
  | answer rates => rfl
  | control command => cases command <;> rfl
  | setRate kind rate force =>
      simp only [effect]
      split <;> rfl

/-! ## What becomes of the call -/

/-- A command that is not refused does to a coherent call what its effect says. -/
theorem effect_of_obey {config : Config} (hcoherent : call.Coherent config)
    {command : Control} {obeyed : Call} (hobey : call.obey? command = some obeyed) :
    obeyed = (control command).effect call := by
  cases command with
  | cancel =>
      simp only [Call.obey?, Control.withholding?, Control.transition?, Option.bind_some,
        Call.after?, Option.ite_none_right_eq_some, Option.some.injEq] at hobey
      exact hobey.2.symm
  | pause =>
      obtain ⟨hestablished, rfl⟩ := Call.of_pause hobey
      rw [(hcoherent.established hestablished).1]
      rfl
  | resume =>
      obtain ⟨hpaused, rfl⟩ := Call.of_resume hobey
      rw [hcoherent.paused hpaused]
      rfl
  | muteAudio => exact (Option.some.inj hobey).symm
  | unmuteAudio => exact (Option.some.inj hobey).symm
  | hideVideo => exact (Option.some.inj hobey).symm
  | showVideo => exact (Option.some.inj hobey).symm

theorem effect_of_rate (hlive : call.isLive = true) (hring : call.state.isRinging = false)
    (kind : MediaKind) (rate : UInt32) (force : Bool) :
    call.withRate kind rate = (setRate kind rate force).effect call := by
  rcases Call.isEstablished_or_isPaused hlive hring with hestablished | hpaused
  · have hrunning : call.state ≠ .paused := by
      intro hpaused
      rw [hpaused] at hestablished
      cases hestablished
    rw [Call.withRate_of_isEstablished hestablished, effect, if_neg hrunning]
  · rw [Call.withRate_of_isPaused hpaused, effect, if_pos hpaused]

/-! ## Two ways to end -/

variable {σ : Type} {session : Session} {made : List Exchange} {outcome : Outcome σ Reply}

/-- A request that is not granted leaves the calls as they are. -/
theorem Settled.of_refused (hgrants : outcome.answer.grants = false)
    (hregistry : outcome.session.registry = session.registry)
    (hconfined : ∀ exchange ∈ made, exchange.friend? = some friend)
    (hunsaid : made.filterMap Exchange.accepted? = []) :
    request.Settled friend session made outcome where
  confined := hconfined
  others other _ := by rw [Session.call?, Session.call?, hregistry]
  nothing _ := ⟨hregistry, hunsaid⟩
  whole hgranted := by
    rw [hgrants] at hgranted
    cases hgranted

/-- A request that is granted puts the changed call into the registry. -/
theorem Settled.of_granted (hlive : session.registry.live? friend = some call)
    (hanswer : outcome.answer = request.granted friend (request.effect call))
    (hregistry : outcome.session.registry = session.registry.set (request.effect call))
    (hconfined : ∀ exchange ∈ made, exchange.friend? = some friend)
    (hsaid : made.filterMap Exchange.accepted? = [(friend, request.signal)] ∨
      request = .control .cancel ∧ made.filterMap Exchange.accepted? = []) :
    request.Settled friend session made outcome := by
  have hfriend : (request.effect call).friend = friend :=
    (friend_effect call request).trans (Registry.friend_of_live? hlive)
  have hgrants : outcome.answer.grants = true := by
    rw [hanswer]
    cases request <;> rfl
  refine ⟨hconfined, fun other hother => ?_, fun hnothing => ?_, fun _ => ?_⟩
  · rw [Session.call?, hregistry, Registry.get?_set_of_ne _ (by rw [hfriend]; exact hother.symm)]
    rfl
  · rw [hgrants] at hnothing
    cases hnothing
  · refine ⟨call, hlive, ?_, hanswer, hsaid⟩
    rw [Session.call?, hregistry, Registry.get?_set, if_pos hfriend]

/-! ## The requests one by one -/

variable {network : Network σ} {state : Recorded σ}

/-- Where a request leads: what it asked of the network, and how it ended. -/
def Ends (request : Request) (friend : Friend) (network : Network σ) (session : Session)
    (state : Recorded σ) : Prop :=
  ∃ made, (session.perform network.recorded state (request.command friend)).network.exchanges =
      state.exchanges ++ made ∧
    request.Settled friend session made
      (session.perform network.recorded state (request.command friend))

theorem ends_answer (network : Network σ) (session : Session) (state : Recorded σ)
    (friend : Friend) (rates : Rates) : (answer rates).Ends friend network session state := by
  unfold Ends
  simp only [command, Session.perform, Outcome.map]
  rcases Session.answer_cases network.recorded session state friend rates with
    ⟨_, houtcome⟩ | ⟨call, hcall, ⟨cause, after, hopen, houtcome⟩ | ⟨opened, hopen,
      ⟨cause, after, hpush, houtcome⟩ | ⟨after, hpush, houtcome⟩⟩⟩
  all_goals rw [houtcome]
  · exact ⟨[], (List.append_nil _).symm, .of_refused rfl rfl (by simp) rfl⟩
  · exact ⟨_, Network.exchanges_of_openMedia hopen,
      .of_refused rfl rfl (by simp [Exchange.friend?]) rfl⟩
  all_goals
    have hopened := Network.exchanges_of_openMedia hopen
    have hpushed := Network.exchanges_of_sendSignal hpush
    rw [hopened, List.append_assoc] at hpushed
  · -- the codecs are released again, which is one more exchange
    have hreleased : (network.recorded.closeMedia friend after).exchanges = state.exchanges ++
        [.openMedia friend rates (.ok ()), .signal friend (.answer rates) (.error cause),
          .closeMedia friend] := by
      rw [Network.exchanges_closeMedia, hpushed, List.append_assoc]
      rfl
    exact ⟨_, hreleased, .of_refused rfl rfl (by simp [Exchange.friend?]) rfl⟩
  · obtain ⟨-, -, hlive, -, -⟩ := Session.answerable_eq_ok hcall
    exact ⟨_, hpushed, .of_granted hlive rfl rfl (by simp [Exchange.friend?]) (Or.inl rfl)⟩

theorem ends_control (coherent : ∀ call ∈ session.registry.live? friend,
      ∃ config, call.Coherent config) (network : Network σ) (state : Recorded σ)
    (command : Control) : (control command).Ends friend network session state := by
  unfold Ends
  simp only [Request.command, Session.perform, Outcome.map]
  rcases Session.control_cases network.recorded session state friend command with
    ⟨_, houtcome⟩ | ⟨call, hcall, ⟨cause, after, -, hpush, houtcome⟩ |
      ⟨result, after, obeyed, hpush, hresult, hobey, houtcome⟩⟩
  all_goals rw [houtcome]
  · exact ⟨[], (List.append_nil _).symm, .of_refused rfl rfl (by simp) rfl⟩
  · exact ⟨_, Network.exchanges_of_sendSignal hpush,
      .of_refused rfl rfl (by simp [Exchange.friend?]) rfl⟩
  · obtain ⟨-, -, hlive, -, -⟩ := Session.controllable_eq_ok hcall
    obtain ⟨config, hcoherent⟩ := coherent call hlive
    obtain rfl := effect_of_obey hcoherent hobey
    refine ⟨_, Network.exchanges_of_sendSignal hpush, .of_granted hlive rfl rfl ?_ ?_⟩
    · simp [Exchange.friend?]
    · cases result with
      | ok _ => exact Or.inl rfl
      | error cause =>
          -- only a hang-up takes effect although it could not be pushed
          have hcancel : command = .cancel := hresult.resolve_left (by simp)
          exact Or.inr ⟨congrArg control hcancel, rfl⟩

theorem exchanges_linkCarries {kind : MediaKind} {rate : UInt32} {force carries : Bool}
    {asked : Recorded σ}
    (h : Session.linkCarries network.recorded state friend kind rate force = (carries, asked)) :
    ∃ made, asked.exchanges = state.exchanges ++ made ∧
      (∀ exchange ∈ made, exchange.friend? = some friend) ∧
      made.filterMap Exchange.accepted? = [] := by
  unfold Session.linkCarries at h
  split at h
  · cases h
    exact ⟨[], (List.append_nil _).symm, by simp, rfl⟩
  · exact ⟨_, Network.exchanges_of_linkStable h, by simp [Exchange.friend?], rfl⟩

theorem ends_setRate (network : Network σ) (session : Session) (state : Recorded σ)
    (friend : Friend) (kind : MediaKind) (rate : UInt32) (force : Bool) :
    (setRate kind rate force).Ends friend network session state := by
  unfold Ends
  simp only [command, Session.perform, Outcome.map]
  rcases Session.setRate_cases network.recorded session state friend kind rate force with
    ⟨_, houtcome⟩ | ⟨call, hcall, ⟨asked, hlink, houtcome⟩ | ⟨asked, hlink,
      ⟨cause, after, hpush, houtcome⟩ | ⟨after, hpush, houtcome⟩⟩⟩
  all_goals rw [houtcome]
  · exact ⟨[], (List.append_nil _).symm, .of_refused rfl rfl (by simp) rfl⟩
  all_goals obtain ⟨made, hmade, hconfined, hunsaid⟩ := exchanges_linkCarries hlink
  · exact ⟨made, hmade, .of_refused rfl (by simp [Session.reporting]) hconfined hunsaid⟩
  all_goals
    have hpushed := Network.exchanges_of_sendSignal hpush
    rw [hmade, List.append_assoc] at hpushed
    have hall : ∀ result, ∀ exchange ∈ made ++ [.signal friend (.bitRate kind rate) result],
        exchange.friend? = some friend := by
      intro result exchange hmem
      rcases List.mem_append.mp hmem with hbefore | hnew
      · exact hconfined exchange hbefore
      · rw [List.mem_singleton.mp hnew]
        rfl
  · refine ⟨_, hpushed, .of_refused rfl rfl (hall _) ?_⟩
    rw [List.filterMap_append, hunsaid]
    rfl
  · obtain ⟨-, -, hlive, hring, -⟩ := Session.rateChangeable_eq_ok hcall
    have hchanged := effect_of_rate (Registry.isLive_of_live? hlive) hring kind rate force
    refine ⟨_, hpushed, .of_granted hlive rfl ?_ (hall _) (Or.inl ?_)⟩
    · simp [Session.reporting, hchanged]
    · rw [List.filterMap_append, hunsaid]
      rfl

/-- A hang-up is granted whenever there is a live call, whatever becomes of the push. -/
theorem answer_cancel (hopen : session.closed = false)
    (hknown : network.recorded.knows state friend = true)
    (hlive : session.registry.live? friend = some call) :
    (session.control network.recorded state friend .cancel).answer = .ok .ended := by
  have hcontrollable : session.controllable network.recorded state friend .cancel = .ok call := by
    simp [Session.controllable, hopen, hknown, hlive, Call.refusal?]
  have hobey : call.obey? .cancel = some (call.finish .ended) :=
    Call.after?_cancel (Registry.isLive_of_live? hlive)
  unfold Session.control
  rw [hcontrollable]
  rcases network.recorded.sendSignal friend (.control .cancel) state with ⟨result, after⟩
  cases result with
  | ok _ => simp [Session.obeying, hobey, Call.finish]
  | error cause => simp [Session.obeying, hobey, Call.finish]

end Request

/-! ## Runs -/

namespace Station

variable {σ : Type}

/-- Whatever was done with a session before, and whatever its network answers: a request is
granted as a whole or not at all, and it concerns nobody but its friend.  In particular no
request fails after the friend was told of it.  A hang-up in a live call is always granted. -/
theorem ends_of_run (network : Network σ) {config : Config} {state opened : Recorded σ}
    {session : Session}
    (h : Session.attach network.recorded config state = (.ok session, opened))
    (moves : List (Move (Recorded σ))) (friend : Friend) :
    let station := (⟨session, opened⟩ : Station (Recorded σ)).run network.recorded moves
    (∀ request : Request, request.Ends friend network station.session station.state) ∧
      (network.recorded.knows station.state friend = true →
        (station.session.registry.live? friend).isSome →
        let outcome := station.session.control network.recorded station.state friend .cancel
        outcome.answer = .ok .ended ∧ outcome.session.callState? friend = some .ended) := by
  intro station
  obtain ⟨usable, rfl, -⟩ := Session.attach_eq_ok h
  have hcoherent : ∀ call ∈ station.session.registry.live? friend,
      ∃ config, call.Coherent config := by
    intro call hlive
    have hentry : station.session.call? friend = some call := Registry.get?_of_live? hlive
    exact ⟨config, coherent_call? network.recorded usable opened moves friend call hentry⟩
  have hcontrol : ∀ command, (Request.control command).Ends friend network station.session
      station.state := fun command => Request.ends_control hcoherent network station.state command
  refine ⟨fun request => ?_, fun hknown hsome => ?_⟩
  · cases request with
    | answer rates => exact Request.ends_answer network station.session station.state friend rates
    | control command => exact hcontrol command
    | setRate kind rate force =>
        exact Request.ends_setRate network station.session station.state friend kind rate force
  · obtain ⟨call, hlive⟩ := Option.isSome_iff_exists.mp hsome
    have hopen : station.session.closed = false := by
      -- a closed session has no calls left
      refine Bool.eq_false_iff.mpr fun hclosed => ?_
      have hempty : station.session.registry = .empty := registry_of_closed rfl moves hclosed
      rw [hempty] at hlive
      cases hlive
    have hanswer := Request.answer_cancel hopen hknown hlive
    refine ⟨hanswer, ?_⟩
    obtain ⟨made, -, hsettled⟩ := hcontrol .cancel
    have hgrants : (station.session.perform network.recorded station.state
        (.control friend .cancel)).answer.grants = true := by
      simp only [Session.perform, Outcome.map, hanswer]
      rfl
    obtain ⟨ended, -, hafter, -⟩ := hsettled.whole hgrants
    exact congrArg (Option.map Call.state) hafter

/-- The first of two linked nodes, recording, with no failure planned yet. -/
def recordedPair : Recorded (Scripted Hub) :=
  ⟨⟨(Hub.fresh 2).connect 0 ⟨1⟩ 1 ⟨0⟩, .none⟩, []⟩

/-- A call is answered, and the next push is going to fail. -/
def falteringMoves : List (Move (Recorded (Scripted Hub))) :=
  let heardAnswer (hub : Hub) : Hub := ((Hub.node 1).sendSignal ⟨0⟩ (.answer ⟨48, 0⟩) hub).2
  [.perform (.call ⟨1⟩ ⟨64, 500⟩),
    .drift fun state => { state with network.network := heardAnswer state.network.network },
    .perform .iterate, .deliver,
    .drift fun state => { state with network.planned.signal := [.queueFull] }]

def falteringRun : Station (Recorded (Scripted Hub)) :=
  let network := (Hub.node 0).scripted.recorded
  let start : Station (Recorded (Scripted Hub)) :=
    ⟨.fresh .standard Config.standard_usable, (network.attach recordedPair).2⟩
  start.run network falteringMoves

/-- The rate cannot be changed, and so it stays; the call can be hung up all the same. -/
theorem ends_of_falteringRun :
    let network := (Hub.node 0).scripted.recorded
    let rated := falteringRun.session.perform network falteringRun.state
      (.setRate ⟨1⟩ .video 250 true)
    rated.answer = .rateSet (.error (.signaling .queueFull)) ∧
      rated.session.registry = falteringRun.session.registry ∧
      (falteringRun.session.control network falteringRun.state ⟨1⟩ .cancel).answer =
        .ok .ended := by
  intro network rated
  have hattach : Session.attach network .standard recordedPair =
      (.ok (.fresh .standard Config.standard_usable), _) :=
    Session.attach_of_usable Config.standard_usable rfl
  have hends := ends_of_run (Hub.node 0).scripted hattach falteringMoves ⟨1⟩
  have hfails : rated.answer = .rateSet (.error (.signaling .queueFull)) := rfl
  obtain ⟨made, -, hsettled⟩ := hends.1 (.setRate .video 250 true)
  have hkept : rated.session.registry = falteringRun.session.registry :=
    (hsettled.nothing rfl).1
  have hhangUp := hends.2 rfl (by decide)
  exact ⟨hfails, hkept, hhangUp.1⟩

end Station

end PeerCalls
