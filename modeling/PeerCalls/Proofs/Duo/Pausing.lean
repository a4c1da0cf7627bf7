import PeerCalls.Proofs.Duo.Agreement
import PeerCalls.Proofs.Duo.Answered
import PeerCalls.Proofs.Duo.Placing

/-!
# When both sides are paused alike

Either side of an answered call may pause it and resume it.  What one side says makes the call
as it says on both sides, but not at the same time: on its own side at once, and on the other
side when it is heard.  If a pause and a resumption cross each other on the way, each side
ends up as the other one said.

So it can be foretold on which sides the call will be paused once everything that waits has
been heard: on each side the last one of the pauses and resumptions that wait for it decides,
and if there is none the call stays as it is there.  Hearing makes nothing come out otherwise.
Saying something makes the other side come to what is said; the speaker comes to the same,
unless the newest of what waits for it is the opposite.  Hence the sides come to the same just
when the last pause or resumption of the run did not cross an opposite one.
-/

namespace PeerCalls

/-- Whether a call that is paused or not will be paused once the signals have been heard. -/
def settled (paused : Bool) (signals : List Signal) : Bool :=
  (signals.filterMap Signal.pauses?).getLast?.getD paused

@[simp] theorem settled_nil (paused : Bool) : settled paused [] = paused := rfl

theorem settled_cons (paused : Bool) (signal : Signal) (later : List Signal) :
    settled paused (signal :: later) = settled (signal.pauses?.getD paused) later := by
  cases hsignal : signal.pauses? with
  | none => simp [settled, hsignal]
  | some asked => simp [settled, hsignal, List.getLast?_cons]

theorem settled_append (paused : Bool) (signals : List Signal) (said : Option Signal) :
    settled paused (signals ++ said.toList) =
      (said.bind Signal.pauses?).getD (settled paused signals) := by
  cases said with
  | none => simp [settled]
  | some signal => cases hsignal : signal.pauses? <;> simp [settled, hsignal]

/-- The newest pause or resumption that waits for the side. -/
def Line.newest? (line : Line) (side : Side) : Option Bool :=
  ((line.waiting side).filterMap Signal.pauses?).getLast?

/-! ## Hearing -/

/-- In a round of the side, which has not sent anything: the call that the side holds will be
paused or not once it has heard the rest of its inbox. -/
structure Wiring.InRound (wiring : Wiring) (side : Side) (sent : List Inbound) (final : Bool)
    (registry : Registry) (hub : Hub) : Prop where
  joins : wiring.Joins hub
  goes : ∀ item ∈ (hub.get (wiring.place side)).inbox, wiring.Goes side item
  other : (hub.get (wiring.place side.other)).inbox = sent
  holds : ∃ paused, registry.Holds (wiring.number side) paused ∧
    settled paused ((hub.get (wiring.place side)).inbox.filterMap Inbound.signal?) = final

namespace Wiring.InRound

variable {wiring : Wiring} {side : Side} {sent : List Inbound} {final : Bool}
  {registry : Registry} {hub later : Hub}

/-- What waits for a side can be heard without a change of what it comes to. -/
theorem take {progress : Progress} (h : wiring.InRound side sent final progress.registry hub)
    (config : Config) {item : Inbound}
    (hpoll : (wiring.network side).poll hub = (some item, later)) :
    wiring.InRound side sent final (progress.handle config item).registry later := by
  rcases poll_cases h.joins side with ⟨-, hnone⟩ | ⟨first, rest, after, hinbox, hsome, hlinks, hown,
    hother⟩
  · cases hnone.symm.trans hpoll
  obtain ⟨hitem, rfl⟩ := Prod.mk.inj (hsome.symm.trans hpoll)
  obtain rfl : first = item := Option.some.inj hitem
  obtain ⟨paused, hholds, hsettled⟩ := h.holds
  have hgoes := h.goes
  rw [hinbox] at hgoes hsettled
  obtain ⟨hfirst, hrest⟩ := List.forall_mem_cons.mp hgoes
  refine ⟨h.joins.of_links hlinks, by rwa [hown], hother.trans h.other, ?_⟩
  rw [hown]
  cases first with
  | media friend payload =>
      refine ⟨paused, ?_, hsettled⟩
      simp only [Progress.handle, Progress.framed]
      split <;> exact hholds
  | signal friend signal =>
      obtain rfl : friend = wiring.number side := hfirst.friend
      refine ⟨_, Progress.holds_handle_signal hholds (hfirst.unmarked signal rfl) config, ?_⟩
      rwa [← settled_cons]

theorem checked {progress : Progress} (h : wiring.InRound side sent final progress.registry hub) :
    wiring.InRound side sent final
      (progress.checkConnectivity (wiring.network side) hub).registry hub := by
  obtain ⟨paused, hholds, hsettled⟩ := h.holds
  obtain ⟨hknown, hconnected⟩ := h.joins.reaches side
  refine ⟨h.joins, h.goes, h.other, paused, ?_, hsettled⟩
  exact Progress.checkConnectivity_induction
    (P := fun progress => progress.registry.Holds (wiring.number side) paused)
    (fun _ friend hprogress => Progress.holds_checkFriend hknown hconnected hprogress friend) hholds

theorem reap (h : wiring.InRound side sent final registry hub)
    (hcarries : wiring.Carries side [] hub later) :
    wiring.InRound side sent final registry.reap.2 later := by
  obtain ⟨paused, hholds, hsettled⟩ := h.holds
  refine ⟨h.joins.of_links hcarries.links, ?_, ?_, paused, hholds.reap, ?_⟩
  · rw [hcarries.own]
    exact h.goes
  · rw [hcarries.other, List.append_nil, h.other]
  · rwa [hcarries.own]

/-- A round hears something, and nothing comes out otherwise. -/
theorem round {session : Session} (h : wiring.InRound side sent final session.registry hub) :
    wiring.InRound side sent final (session.round (wiring.network side) hub).session.registry
      (session.round (wiring.network side) hub).network := by
  have htaken : wiring.InRound side sent final (session.taken (wiring.network side) hub).1.registry
      (session.taken (wiring.network side) hub).2 := by
    refine Progress.takeInbound_induction
      (P := fun progress hub => wiring.InRound side sent final progress.registry hub)
      (fun progress hub after hprogress hpoll => ?_)
      (fun progress hub item after hprogress hpoll => hprogress.take session.config hpoll) _ h
    rwa [hub_of_poll_none hprogress.joins hpoll]
  rw [Session.registry_round]
  exact htaken.checked.reap (wiring.carries_release side _ _)

end Wiring.InRound

/-! ## What both sides come to -/

namespace Duo

/-- The two sides are in an answered call, and once they have heard everything it will be
paused on each side or not. -/
structure InCall (wiring : Wiring) (duo : Duo) (final : Side → Bool) : Prop where
  joins : wiring.Joins duo.hub
  goes : ∀ side, ∀ item ∈ (duo.hub.get (wiring.place side)).inbox, wiring.Goes side item
  holds : ∀ side, ∃ paused, (duo.sessions side).registry.Holds (wiring.number side) paused ∧
    settled paused ((duo.line wiring).waiting side) = final side

/-- What both sides come to once the side has said something: the other side comes to what was
said, and so does the speaker, unless it has yet to hear something else. -/
def foretold (wiring : Wiring) (duo : Duo) (final : Side → Bool) (speaker : Side) :
    Option Bool → Side → Bool
  | none => final
  | some said =>
    Function.update (fun _ => said) speaker (((duo.line wiring).newest? speaker).getD said)

/-- The step neither begins nor ends a call. -/
def Step.goesOn : Step → Bool
  | .deliver _ => true
  | .perform _ (.control _ command) => command ≠ .cancel
  | .perform _ (.setRate _ _ _ _) => true
  | .perform _ (.sendFrame _ _) => true
  | .perform _ .iterate => true
  | .perform _ (.listen _) => true
  | .perform _ _ => false

/-- The pause or resumption that the step says crosses an opposite one: the newest one that
waits for the speaker. -/
def crosses? (wiring : Wiring) (duo : Duo) (step : Step) : Option Bool :=
  ((duo.sent? wiring step).bind Signal.pauses?).map fun said =>
    (duo.line wiring).newest? step.side = some !said

/-- Whether the last pause or resumption that the steps say crosses an opposite one; if they
say none, this is as given. -/
def lastCrosses (wiring : Wiring) (given : Bool) : Duo → List Step → Bool
  | _, [] => given
  | duo, step :: steps =>
    lastCrosses wiring ((duo.crosses? wiring step).getD given) (duo.after wiring step) steps

variable {wiring : Wiring} {duo : Duo} {final : Side → Bool} {side : Side}

theorem sent?_of_waiting {step : Step} {said : Option Signal}
    (h : ((duo.after wiring step).line wiring).waiting step.side.other =
      (duo.line wiring).waiting step.side.other ++ said.toList) :
    duo.sent? wiring step = said := by
  cases said with
  | some signal => simp [sent?, h]
  | none =>
      refine Option.filter_eq_none_iff.mpr fun signal _ hgrown => ?_
      rw [h] at hgrown
      simp at hgrown

/-- Both sides come to the same after something was said, unless it crosses an opposite pause
or resumption. -/
theorem foretold_alike_iff {given : Bool} (h : final .left = final .right ↔ given = false)
    (step : Step) :
    let said := (duo.sent? wiring step).bind Signal.pauses?
    duo.foretold wiring final step.side said .left =
        duo.foretold wiring final step.side said .right ↔
      (duo.crosses? wiring step).getD given = false := by
  intro said
  unfold crosses?
  change _ ↔ (said.map _).getD given = false
  cases said with
  | none => exact h
  | some said =>
      -- whichever side speaks, the newest of what waits for it is compared with what it says
      simp only [foretold, Option.map_some, Option.getD_some]
      cases step.side <;> cases said <;> cases (duo.line wiring).newest? _ with
      | none => simp [Function.update]
      | some newest => cases newest <;> simp [Function.update]

/-- An operation that says something, at most, leaves the call as was foretold. -/
theorem InCall.utter (h : duo.InCall wiring final) {session : Session} {hub : Hub}
    {items : List Inbound} {said : Option Signal}
    (hutters : wiring.Utterance side (duo.sessions side).registry session.registry duo.hub hub
      items said) :
    let later : Duo := ⟨Function.update duo.sessions side session, hub⟩
    later.InCall wiring (duo.foretold wiring final side (said.bind Signal.pauses?)) ∧
      (later.line wiring).waiting side.other =
        (duo.line wiring).waiting side.other ++ said.toList := by
  intro later
  have hown : (later.line wiring).waiting side = (duo.line wiring).waiting side := by
    simp [later, line, Wiring.line, hutters.carries.own]
  have hother : (later.line wiring).waiting side.other =
      (duo.line wiring).waiting side.other ++ said.toList := by
    simp [later, line, Wiring.line, hutters.carries.other, hutters.signals]
  refine ⟨⟨h.joins.of_links hutters.carries.links, fun own => ?_, fun own => ?_⟩, hother⟩
  all_goals rcases own.eq_or_eq_other side with rfl | rfl
  · rw [show later.hub = hub from rfl, hutters.carries.own]
    exact h.goes own
  · rw [show later.hub = hub from rfl, hutters.carries.other]
    exact List.forall_mem_append.mpr ⟨h.goes side.other, hutters.goes⟩
  · -- the speaker does what it says, and hears the same as before
    obtain ⟨paused, hholds, hsettled⟩ := h.holds own
    refine ⟨_, by simpa [later] using hutters.follows paused hholds, ?_⟩
    rw [hown]
    cases hsaid : said.bind Signal.pauses? with
    | none => simpa [foretold] using hsettled
    | some asked =>
        simp only [foretold, Function.update_self, Option.getD_some]
        rfl
  · obtain ⟨paused, hholds, hsettled⟩ := h.holds side.other
    refine ⟨paused, by simpa [later] using hholds, ?_⟩
    rw [hother, settled_append, hsettled]
    cases said.bind Signal.pauses? with
    | none => rfl
    | some asked => simp [foretold]

/-- A round leaves the call as was foretold, and says nothing. -/
theorem InCall.round (h : duo.InCall wiring final) (side : Side) :
    (duo.after wiring (.perform side .iterate)).InCall wiring final ∧
      ((duo.after wiring (.perform side .iterate)).line wiring).waiting side.other =
        (duo.line wiring).waiting side.other := by
  rcases Session.iterate_cases (wiring.network side) (duo.sessions side) duo.hub with
    houtcome | ⟨-, -, houtcome⟩
  · have hsame : duo.after wiring (.perform side .iterate) = duo := by
      simp only [Duo.after, Session.perform, Outcome.map, houtcome, Function.update_eq_self]
    rw [hsame]
    exact ⟨h, rfl⟩
  · have hround : wiring.InRound side (duo.hub.get (wiring.place side.other)).inbox (final side)
        (duo.sessions side).registry duo.hub :=
      ⟨h.joins, h.goes side, rfl, h.holds side⟩
    have hlater := hround.round
    simp only [Duo.after, Session.perform, Outcome.map, houtcome]
    refine ⟨⟨hlater.joins, fun own => ?_, fun own => ?_⟩, ?_⟩
    · rcases own.eq_or_eq_other side with rfl | rfl
      · exact hlater.goes
      · rw [hlater.other]
        exact h.goes side.other
    · rcases own.eq_or_eq_other side with rfl | rfl
      · simpa [line, Wiring.line] using hlater.holds
      · simpa [line, Wiring.line, hlater.other] using h.holds side.other
    · simp [line, Wiring.line, hlater.other]

/-- So does every operation that says one signal, at most. -/
theorem InCall.perform (h : duo.InCall wiring final) {command : Command}
    (hutters : wiring.Utters side (duo.sessions side).registry
      ((duo.sessions side).perform (wiring.network side) duo.hub command).session.registry duo.hub
      ((duo.sessions side).perform (wiring.network side) duo.hub command).network) :
    (duo.after wiring (.perform side command)).InCall wiring
      (duo.foretold wiring final side
        ((duo.sent? wiring (.perform side command)).bind Signal.pauses?)) := by
  obtain ⟨items, said, hutterance⟩ := hutters
  obtain ⟨hafter, hwaiting⟩ := h.utter hutterance
  have hsent : duo.sent? wiring (.perform side command) = said := sent?_of_waiting hwaiting
  rw [hsent]
  exact hafter

/-- So does a step of a delivery, which says nothing. -/
theorem InCall.deliver (h : duo.InCall wiring final) (side : Side) :
    (duo.after wiring (.deliver side)).InCall wiring final := by
  simp only [Duo.after]
  split
  · rename_i delivered session hadvance
    have hregistry : session.registry = (duo.sessions side).registry := by
      rw [Session.advance_eq hadvance]
    refine ⟨h.joins, h.goes, fun own => ?_⟩
    rcases own.eq_or_eq_other side with rfl | rfl
    · simpa [line, Wiring.line, registries, hregistry] using h.holds own
    · simpa [line, Wiring.line, registries] using h.holds side.other
  · exact h

/-- Every step that neither begins nor ends a call leaves it as was foretold. -/
theorem InCall.after (h : duo.InCall wiring final) {step : Step} (hstep : step.goesOn = true) :
    (duo.after wiring step).InCall wiring
      (duo.foretold wiring final step.side ((duo.sent? wiring step).bind Signal.pauses?)) := by
  cases step with
  | deliver side =>
      have hline : (duo.after wiring (.deliver side)).line wiring = duo.line wiring :=
        line_after_deliver duo side
      have hsent : duo.sent? wiring (.deliver side) = none := by
        refine sent?_of_waiting ?_
        rw [hline]
        exact (List.append_nil _).symm
      rw [hsent]
      exact h.deliver side
  | perform side command =>
      cases command with
      | call friend rates => cases hstep
      | answer friend rates => cases hstep
      | close => cases hstep
      | control friend command =>
          have hcommand : command ≠ .cancel := of_decide_eq_true hstep
          exact h.perform (Session.utters_control h.joins friend hcommand)
      | setRate friend kind rate force =>
          exact h.perform (Session.utters_setRate h.joins friend kind rate force)
      | sendFrame friend payload =>
          exact h.perform (Session.utters_sendFrame h.joins friend payload)
      | listen listener => exact h.perform (.nothing .refl fun _ hholds => hholds)
      | iterate =>
          obtain ⟨hafter, hwaiting⟩ := h.round side
          have hsent : duo.sent? wiring (.perform side .iterate) = none :=
            sent?_of_waiting (hwaiting.trans (List.append_nil _).symm)
          rw [hsent]
          exact hafter

/-- Along steps that neither begin nor end a call the two sides stay in it, and they come to the
same just when the last pause or resumption did not cross an opposite one. -/
theorem InCall.run (h : duo.InCall wiring final) {given : Bool}
    (hfinal : final .left = final .right ↔ given = false) {steps : List Step}
    (hsteps : ∀ step ∈ steps, step.goesOn = true) :
    ∃ final, (duo.run wiring steps).InCall wiring final ∧
      (final .left = final .right ↔ duo.lastCrosses wiring given steps = false) := by
  induction steps generalizing duo final given with
  | nil => exact ⟨final, h, hfinal⟩
  | cons step steps ih =>
      obtain ⟨hstep, hlater⟩ := List.forall_mem_cons.mp hsteps
      exact ih (h.after hstep) (foretold_alike_iff hfinal step) hlater

/-! ## Runs of an answered call -/

/-- Two linked sessions in an answered call that is paused on neither side, with empty inboxes:
as long as nobody begins or ends a call, they stay in it, and whenever both inboxes are empty,
they are both paused or both not, unless the last pause or resumption that was said crossed an
opposite one, and only then they are not.  Each side may have other friends, but no other number
for one of the two nodes (`Wiring.Joins.elsewhere`). -/
theorem paused_alike_iff (hjoins : wiring.Joins duo.hub)
    (hempty : ∀ side, (duo.hub.get (wiring.place side)).inbox = [])
    (hanswered : ∀ side, ∃ state, (duo.sessions side).callState? (wiring.number side) =
      some state ∧ state.isEstablished = true)
    {steps : List Step} (hsteps : ∀ step ∈ steps, step.goesOn = true)
    (hquiet : ∀ side, ((duo.run wiring steps).hub.get (wiring.place side)).inbox = []) :
    (∀ side, ∃ state, ((duo.run wiring steps).sessions side).callState? (wiring.number side) =
      some state ∧ (state.isEstablished = true ∨ state = .paused)) ∧
    ((((duo.run wiring steps).sessions .left).callState? (wiring.number .left) = some .paused ↔
        ((duo.run wiring steps).sessions .right).callState? (wiring.number .right) =
          some .paused) ↔
      duo.lastCrosses wiring false steps = false) := by
  have hstart : duo.InCall wiring fun _ => false := by
    refine ⟨hjoins, fun side => by simp [hempty side], fun side => ⟨false, ?_, ?_⟩⟩
    · obtain ⟨state, hstate, hestablished⟩ := hanswered side
      obtain ⟨call, hcall, rfl⟩ := Option.map_eq_some_iff.mp hstate
      have hrunning : call.Answered false := .running hestablished
      exact ⟨call, Registry.live?_eq_some_iff.mpr ⟨hcall, hrunning.isLive⟩, hrunning⟩
    · simp [line, Wiring.line, hempty side]
  obtain ⟨final, hend, halike⟩ : ∃ final, (duo.run wiring steps).InCall wiring final ∧
      (final .left = final .right ↔ duo.lastCrosses wiring false steps = false) :=
    hstart.run (iff_of_true rfl rfl) hsteps
  have hholds : ∀ side, ((duo.run wiring steps).sessions side).registry.Holds
      (wiring.number side) (final side) := by
    intro side
    obtain ⟨paused, hholds, hsettled⟩ := hend.holds side
    have hfinal : paused = final side := by
      simpa [line, Wiring.line, hquiet side] using hsettled
    rwa [hfinal] at hholds
  refine ⟨fun side => ?_, ?_⟩
  · obtain ⟨call, hlive, hanswered⟩ := hholds side
    refine ⟨call.state, ?_, hanswered.isEstablished_or_eq_paused⟩
    rw [Session.callState?, Session.call?, Registry.get?_of_live? hlive, Option.map_some]
  · rw [(hholds .left).callState_eq_paused_iff, (hholds .right).callState_eq_paused_iff, ← halike]
    exact Bool.eq_iff_iff.symm

namespace Step

def pause (side : Side) : Step := .perform side (.control (pairWiring.number side) .pause)

def resume (side : Side) : Step := .perform side (.control (pairWiring.number side) .resume)

end Step

/-- A call of the left side is answered. -/
def answeredCall : List Step :=
  .invite .left :: Step.settle .right ++ .answer .right :: Step.settle .left

/-- Two sessions in an answered call. -/
def pairInCall : Duo := pair.run pairWiring answeredCall

theorem joins_pairInCall : pairWiring.Joins pairInCall.hub := by
  have hopen : ∀ side, Step.perform side .close ∉ answeredCall := by
    simp [answeredCall, Step.settle, Step.invite, Step.answer]
  have hfree : pair.CrossingFree pairWiring answeredCall := by decide
  have hgood := inStep_of_crossingFree joins_pair (fun side => by cases side <;> rfl)
    (fun _ => Config.standard_usable) hopen hfree
  exact hgood.good.joins

theorem answered_pairInCall (side : Side) :
    (pairInCall.sessions side).callState? (pairWiring.number side) =
      some (.established ⟨true, false⟩) := by
  cases side <;> decide

theorem empty_pairInCall (side : Side) :
    (pairInCall.hub.get (pairWiring.place side)).inbox = [] := by
  cases side <;> decide

/-- Both sides pause at once, and the left side resumes when it has heard of the other pause. -/
def pausedTogether : List Step :=
  [.pause .left, .pause .right] ++ Step.settle .left ++ [.resume .left] ++ Step.settle .right

/-- The two pauses cross each other, but not the resumption. -/
theorem alike_after_pausedTogether :
    ((pairInCall.run pairWiring pausedTogether).sessions .left).callState? ⟨1⟩ =
        some (.established ⟨true, false⟩) ∧
      ((pairInCall.run pairWiring pausedTogether).sessions .right).callState? ⟨0⟩ ≠
        some .paused := by
  obtain ⟨-, halike⟩ := paused_alike_iff joins_pairInCall empty_pairInCall
    (fun side => ⟨_, answered_pairInCall side, rfl⟩) (by decide : ∀ step ∈ pausedTogether, _)
    (fun side => by cases side <;> decide)
  have hleft : ((pairInCall.run pairWiring pausedTogether).sessions .left).callState? ⟨1⟩ =
      some (.established ⟨true, false⟩) := by
    decide
  have huncrossed : pairInCall.lastCrosses pairWiring false pausedTogether = false := by decide
  refine ⟨hleft, fun hright => ?_⟩
  have hpaused := (halike.mpr huncrossed).mpr hright
  exact absurd (hleft.symm.trans hpaused) (by decide)

/-- The left side pauses and resumes, and the right side pauses before it hears of that. -/
def crossedPauses : List Step :=
  [.pause .left, .resume .left, .pause .right] ++ Step.settle .left ++ Step.settle .right

/-- The left side ends up paused by the right one, and the right side running by the left one. -/
theorem disagree_after_crossedPauses :
    pairWiring.Joins pairInCall.hub ∧
      (∀ side, (pairInCall.hub.get (pairWiring.place side)).inbox = []) ∧
      (∀ side, (pairInCall.sessions side).callState? (pairWiring.number side) =
        some (.established ⟨true, false⟩)) ∧
      (∀ step ∈ crossedPauses, step.goesOn = true) ∧
      (∀ side, ((pairInCall.run pairWiring crossedPauses).hub.get
        (pairWiring.place side)).inbox = []) ∧
      ((pairInCall.run pairWiring crossedPauses).sessions .left).callState? ⟨1⟩ =
        some .paused ∧
      ((pairInCall.run pairWiring crossedPauses).sessions .right).callState? ⟨0⟩ =
        some (.established ⟨true, false⟩) := by
  refine ⟨joins_pairInCall, empty_pairInCall, answered_pairInCall, by decide, fun side => ?_,
    by decide, by decide⟩
  cases side <;> decide

end Duo

end PeerCalls
