import PeerCalls.Proofs.Duo.Agreement
import PeerCalls.Proofs.Duo.Rates

/-!
# Runs in which one call is placed

In a run of two linked sessions an invitation is said only where an operation places a call:
a round hears and does not speak, and no other operation brings about a live call with the
other side.  So in a run that places one call, at most, the line between the two sides never
leaves the stages of `Line.CalledOnce`, and once everything has been heard each side knows the
rates at which the other one sends.
-/

namespace PeerCalls

/-! ## Where a call comes from -/

theorem Registry.friend_of_live?_set {registry : Registry} {friend : Friend} {changed call : Call}
    (hnone : registry.live? friend = none)
    (hsome : (registry.set changed).live? friend = some call) : changed.friend = friend := by
  by_contra hne
  rw [live?_set_of_ne _ hne, hnone] at hsome
  cases hsome

/-- As long as nothing is heard, only placing a call brings about a live call. -/
theorem Session.placed_of_live? {σ : Type} {network : Network σ} {session : Session} {state : σ}
    {friend : Friend} {command : Command} {call : Call} (hround : command ≠ .iterate)
    (hnone : session.registry.live? friend = none)
    (hsome : (session.perform network state command).session.registry.live? friend = some call) :
    ∃ rates, command = .call friend rates ∧
      (session.call network state friend rates).answer = .ok () := by
  have halters := alters_perform network session state hround
  generalize hlater : (session.perform network state command).session.registry = later
    at halters hsome
  cases halters with
  | keeps =>
      rw [hnone] at hsome
      cases hsome
  | @places other rates free supported =>
      obtain rfl : other = friend := Registry.friend_of_live?_set hnone hsome
      refine ⟨rates, rfl, ?_⟩
      rcases call_cases network session state other rates with
        ⟨_, -, houtcome⟩ | ⟨-, _, _, -, houtcome⟩ | ⟨-, _, -, houtcome⟩
      · rw [← hlater, perform, Outcome.map, houtcome, hnone] at hsome
        cases hsome
      · rw [← hlater, perform, Outcome.map, houtcome, Registry.live?_remove, if_pos rfl] at hsome
        cases hsome
      · rw [houtcome]
  | retracts free =>
      rw [Registry.live?_remove, hnone, ite_self] at hsome
      cases hsome
  | changes command live same evolves =>
      -- a live call that changes was there before
      have hfriend := Registry.friend_of_live?_set hnone hsome
      rw [← hfriend, same, Registry.friend_of_live? live, live] at hnone
      cases hnone
  | empties => cases hsome

/-- Who says an invitation had no call, and has one then. -/
theorem Says.of_invite {friend : Friend} {entry after : Option Call} {signal : Signal}
    (h : Says friend entry signal after) (hmark : signal.mark? = some .invite) :
    entry = none ∧ ∃ rates, after = some (.outgoing friend rates) := by
  cases h with
  | invite rates => exact ⟨rfl, rates, rfl⟩
  | answer _ rates => cases hmark
  | hangUp call => cases hmark
  | @command _ _ command _ hother _ _ =>
      cases command <;> first | exact absurd rfl hother | cases hmark
  | rate _ kind rate => cases hmark

namespace Duo

/-- Whether the step places a call with the other side. -/
def Step.places (wiring : Wiring) (duo : Duo) : Step → Bool
  | .perform side (.call friend rates) =>
    friend = wiring.number side &&
      ((duo.sessions side).call (wiring.network side) duo.hub friend rates).answer.isOk
  | _ => false

/-- How many calls with each other the two sides place. -/
def placed (wiring : Wiring) (duo : Duo) : List Step → Nat
  | [] => 0
  | step :: steps => (step.places wiring duo).toNat + (duo.after wiring step).placed wiring steps

variable {wiring : Wiring} {duo : Duo} {P : Line → Prop} {step : Step} {signal : Signal}

/-! ## Where an invitation comes from -/

theorem waiting_of_sent (h : signal ∈ duo.sent? wiring step) :
    ((duo.after wiring step).line wiring).waiting step.side.other =
      (duo.line wiring).waiting step.side.other ++ [signal] := by
  obtain ⟨-, hlater⟩ := Option.filter_eq_some_iff.mp h
  exact of_decide_eq_true hlater

theorem line_after_perform (duo : Duo) (side : Side) (command : Command) :
    (duo.after wiring (.perform side command)).line wiring =
      wiring.line (Function.update duo.registries side
        ((duo.sessions side).perform (wiring.network side) duo.hub command).session.registry)
        ((duo.sessions side).perform (wiring.network side) duo.hub command).network := by
  rw [line, after, registries_update]
  rfl

theorem line_after_deliver (duo : Duo) (side : Side) :
    (duo.after wiring (.deliver side)).line wiring = duo.line wiring := by
  simp only [after]
  split
  · rename_i delivered session hadvance
    have hregistry : session.registry = (duo.sessions side).registry := by
      rw [Session.advance_eq hadvance]
    rw [line, registries_update, hregistry, Function.update_eq_self]
    rfl
  · rfl

/-- A round adds nothing to what waits for the other side. -/
theorem Good.length_waiting_round (h : duo.Good wiring P)
    (hear : ∀ line side signal later, line.Sound → P line →
      line.waiting side = signal :: later → P (line.hear wiring.number side signal later))
    (fits : ∀ line side, line.Sound → P line → line.Fits side) (side : Side) :
    (((duo.after wiring (.perform side .iterate)).line wiring).waiting side.other).length ≤
      ((duo.line wiring).waiting side.other).length := by
  rw [line_after_perform]
  rcases Session.iterate_cases (wiring.network side) (duo.sessions side) duo.hub with
    houtcome | ⟨-, -, houtcome⟩
  · simp only [Session.perform, Outcome.map, houtcome]
    have hsame : Function.update duo.registries side (duo.sessions side).registry =
        duo.registries := Function.update_eq_self side duo.registries
    rw [hsame]
    rfl
  · simp only [Session.perform, Outcome.map, houtcome]
    -- hearing shortens what waits for the listener, whoever that is
    have hbounded : wiring.Good
        (fun line => P line ∧
          (line.waiting side.other).length ≤ ((duo.line wiring).waiting side.other).length)
        duo.configs duo.registries duo.hub :=
      ⟨h.good.joins, h.good.addressed, h.good.kept, h.good.holds, Nat.le_refl _⟩
    refine (hbounded.round ?_ ?_ rfl rfl).1.holds.2
    · rintro line listener signal later hsound ⟨hP, hlength⟩ hwaiting
      refine ⟨hear line listener signal later hsound hP hwaiting, ?_⟩
      rcases side.other.eq_or_eq_other listener with hlistener | hlistener
      · rw [hlistener] at hlength ⊢
        rw [hwaiting] at hlength
        rw [Line.waiting_hear_self]
        exact Nat.le_of_succ_le hlength
      · rw [hlistener] at hlength ⊢
        rwa [Line.waiting_hear_other]
    · exact fun line listener hsound hP => fits line listener hsound hP.1

/-- An invitation is said only by a step that places a call. -/
theorem Good.places_of_sent (h : duo.Good wiring P)
    (hear : ∀ line side signal later, line.Sound → P line →
      line.waiting side = signal :: later → P (line.hear wiring.number side signal later))
    (fits : ∀ line side, line.Sound → P line → line.Fits side)
    (hopen : ∀ side, step ≠ .perform side .close) (hsent : signal ∈ duo.sent? wiring step)
    (hmark : signal.mark? = some .invite) : step.places wiring duo = true := by
  have hwaiting := waiting_of_sent hsent
  cases step with
  | deliver side =>
      rw [line_after_deliver] at hwaiting
      simp at hwaiting
  | perform side command =>
      by_cases hround : command = .iterate
      · subst hround
        have hlength := h.length_waiting_round hear fits side
        simp only [Step.side] at hwaiting
        rw [hwaiting, List.length_append, List.length_singleton] at hlength
        omega
      · have hclose : command ≠ .close := by
          rintro rfl
          exact hopen side rfl
        rw [line_after_perform] at hwaiting
        rcases Session.speaks_perform h.good.joins (h.good.kept side) hround hclose with
          hsilent | ⟨said, hsaid⟩
        · obtain ⟨items, hcarries, hitems⟩ := hsilent.carries
          rw [Wiring.line_of_carries hsilent.same hcarries hitems] at hwaiting
          simp [line, Step.side] at hwaiting
        · rw [Wiring.line_of_said hsaid.carries] at hwaiting
          obtain rfl : said = signal := by
            simpa [line, Step.side] using hwaiting
          obtain ⟨hnone, rates, hentered⟩ := hsaid.speech.of_invite hmark
          obtain ⟨rates, rfl, hanswer⟩ := Session.placed_of_live? hround hnone hentered
          simp [Step.places, hanswer, Except.isOk, Except.toBool]

/-! ## Runs -/

theorem Good.imp {Q : Line → Prop} (h : duo.Good wiring P) (himp : ∀ line, P line → Q line) :
    duo.Good wiring Q :=
  ⟨⟨h.good.joins, h.good.addressed, h.good.kept, himp _ h.good.holds⟩, h.faultless⟩

/-- After the one call that a run places, no side says an invitation any more. -/
theorem Good.run_unplaced (h : duo.Good wiring (Line.CalledOnce wiring.number)) {steps : List Step}
    (hopen : ∀ side, Step.perform side .close ∉ steps) (hplaced : duo.placed wiring steps = 0) :
    (duo.run wiring steps).Good wiring (Line.CalledOnce wiring.number) := by
  induction steps generalizing duo with
  | nil => exact h
  | cons step steps ih =>
      obtain ⟨hstep, hlater⟩ := Nat.add_eq_zero_iff.mp hplaced
      have hclose : ∀ side, step ≠ .perform side .close := fun side heq =>
        hopen side (by simp [heq])
      have hafter : (duo.after wiring step).Good wiring (Line.CalledOnce wiring.number) := by
        refine h.after (fun _ _ _ _ => Line.CalledOnce.hear)
          (fun _ side _ hline => hline.fits side) hclose fun signal after hsound hsent hspeech => ?_
        refine h.good.holds.say hsound hspeech fun hmark => ?_
        have hplaces := h.places_of_sent (fun _ _ _ _ => Line.CalledOnce.hear)
          (fun _ side _ hline => hline.fits side) hclose hsent hmark
        rw [hplaces] at hstep
        cases hstep
      exact ih hafter (fun side hmem => hopen side (by simp [hmem])) hlater

/-- A run that places one call, at most, keeps the line within the stages of one call. -/
theorem Good.run_placed_once (h : duo.Good wiring Line.Unused) {steps : List Step}
    (hopen : ∀ side, Step.perform side .close ∉ steps) (hplaced : duo.placed wiring steps ≤ 1) :
    (duo.run wiring steps).Good wiring (Line.CalledOnce wiring.number) := by
  have hear : ∀ line side signal later, line.Sound → Line.Unused line →
      line.waiting side = signal :: later → (line.hear wiring.number side signal later).Unused := by
    intro line side signal later _ hunused hwaiting
    rw [hunused.silent] at hwaiting
    cases hwaiting
  have fits : ∀ line side, line.Sound → Line.Unused line → line.Fits side :=
    fun _ side _ hunused => Line.fits_of_inStep hunused.inStep side
  induction steps generalizing duo with
  | nil => exact h.imp fun _ hunused => hunused.calledOnce
  | cons step steps ih =>
      have hclose : ∀ side, step ≠ .perform side .close := fun side heq =>
        hopen side (by simp [heq])
      have hopen' : ∀ side, Step.perform side .close ∉ steps := fun side hmem =>
        hopen side (by simp [hmem])
      have hunused : (duo.line wiring).Unused := h.good.holds
      cases hplaces : step.places wiring duo with
      | true =>
          have hlater : (duo.after wiring step).placed wiring steps = 0 := by
            rw [placed, hplaces, Bool.toNat_true] at hplaced
            omega
          have hcalled : duo.Good wiring (Line.CalledOnce wiring.number) :=
            h.imp fun _ hunused => hunused.calledOnce
          have hafter : (duo.after wiring step).Good wiring (Line.CalledOnce wiring.number) :=
            hcalled.after (fun _ _ _ _ => Line.CalledOnce.hear)
              (fun _ side _ hline => hline.fits side) hclose
              fun signal after hsound _ hspeech => hunused.say_calledOnce hsound hspeech
          exact hafter.run_unplaced hopen' hlater
      | false =>
          have hlater : (duo.after wiring step).placed wiring steps ≤ 1 := by
            rw [placed, hplaces, Bool.toNat_false, Nat.zero_add] at hplaced
            exact hplaced
          have hafter : (duo.after wiring step).Good wiring Line.Unused := by
            refine h.after hear fits hclose fun signal after _ hsent hspeech => ?_
            -- without a call nothing can be said but an invitation
            obtain ⟨⟨rates, rfl⟩, -⟩ := hunused.say hspeech
            rw [h.places_of_sent hear fits hclose hsent rfl] at hplaces
            cases hplaces
          exact ih hafter hopen' hlater

variable {hub : Hub} {configs : Side → Config}

/-- After a run in which one call with each other is placed, at most, once both sides have heard
everything, each side of a live call knows the rates at which the other one sends.  The sides may
have other friends and calls with them, but no other number for one of the two nodes
(`Wiring.Joins.elsewhere`). -/
theorem peerRates_eq_of_placed (hjoins : wiring.Joins hub)
    (hempty : ∀ side, (hub.get (wiring.place side)).inbox = [])
    (usable : ∀ side, (configs side).Usable) {steps : List Step}
    (hopen : ∀ side, Step.perform side .close ∉ steps)
    (honce : (start configs usable hub).placed wiring steps ≤ 1)
    (hquiet : ∀ side, (((start configs usable hub).run wiring steps).hub.get
      (wiring.place side)).inbox = []) (side : Side) {own theirs : Call}
    (hown : (((start configs usable hub).run wiring steps).sessions side).registry.live?
      (wiring.number side) = some own)
    (htheirs : (((start configs usable hub).run wiring steps).sessions side.other).registry.live?
      (wiring.number side.other) = some theirs) :
    theirs.peerRates = own.rates ∧ own.peerRates = theirs.rates := by
  have hstart : (start configs usable hub).Good wiring Line.Unused :=
    good_start hjoins hempty ⟨fun _ => rfl, fun _ => rfl⟩
  have hgood := hstart.run_placed_once hopen honce
  have hsilent : ∀ side, (((start configs usable hub).run wiring steps).line wiring).waiting side =
      [] := by
    intro side
    simp [line, Wiring.line, hquiet side]
  have hcalled := hgood.good.holds
  have hown' : (((start configs usable hub).run wiring steps).line wiring).call side.other.other =
      some own := by
    rw [Side.other_other]
    exact hown
  exact ⟨hcalled.peerRates_eq hsilent hown htheirs, hcalled.peerRates_eq hsilent htheirs hown'⟩

/-- A call is answered, and both sides change a rate before they hear of each other; the caller
pauses as well. -/
def renegotiation : List Step :=
  .perform .left (.call ⟨1⟩ ⟨64, 500⟩) :: Step.settle .right ++
    [.perform .right (.answer ⟨0⟩ ⟨48, 0⟩), .perform .right (.setRate ⟨0⟩ .video 250 true)] ++
    Step.settle .left ++
    [.perform .left (.setRate ⟨1⟩ .video 0 true), .perform .right (.setRate ⟨0⟩ .audio 64 true),
      .perform .left (.control ⟨1⟩ .pause)] ++
    Step.settle .right ++ Step.settle .left

theorem peerRates_after_renegotiation :
    ∃ own theirs, ((pair.run pairWiring renegotiation).sessions .left).registry.live? ⟨1⟩ =
        some own ∧
      ((pair.run pairWiring renegotiation).sessions .right).registry.live? ⟨0⟩ = some theirs ∧
      own.rates = ⟨64, 0⟩ ∧ theirs.rates = ⟨64, 250⟩ ∧
      theirs.peerRates = own.rates ∧ own.peerRates = theirs.rates := by
  obtain ⟨own, hown, hownRates⟩ :
      ∃ own ∈ ((pair.run pairWiring renegotiation).sessions .left).registry.live? ⟨1⟩,
        own.rates = ⟨64, 0⟩ := by
    decide
  obtain ⟨theirs, htheirs, htheirRates⟩ :
      ∃ theirs ∈ ((pair.run pairWiring renegotiation).sessions .right).registry.live? ⟨0⟩,
        theirs.rates = ⟨64, 250⟩ := by
    decide
  have hclose : ∀ side, Step.perform side .close ∉ renegotiation := by
    simp [renegotiation, Step.settle]
  have hknown := peerRates_eq_of_placed joins_pair (fun side => by cases side <;> rfl)
    (fun _ => Config.standard_usable) hclose (by decide) (fun side => by cases side <;> decide)
    .left hown htheirs
  exact ⟨own, theirs, hown, htheirs, hownRates, htheirRates, hknown⟩

end Duo

end PeerCalls
