import PeerCalls.Proofs.Duo.Run

/-!
# Two sides that keep track of each other

Signals carry no name of the call that they belong to, so an invitation and a signal
of another call that cross on the way may be heard as parts of one call.  When nothing
that is said crosses what waits for the speaker (`Signal.crosses`), the two sides keep
track of each other: once both have heard everything there is a live call on both
sides or on none, and neither side ever takes what the other says for a fault.  Two
invitations may meet on the way, and so may an answer and a hang-up.

Each kind of crossing has to be left out for this.  The first one makes the two sides
lose track of each other (`Line.inStep_say_iff`), and `crossing_disagrees` and
`crossing_faults` give, for every kind, a run in which nothing else crosses and which
goes wrong.
-/

namespace PeerCalls.Duo

/-- Nothing that the steps say crosses a signal that waits for the speaker. -/
def CrossingFree (wiring : Wiring) (duo : Duo) (steps : List Step) : Prop :=
  duo.Obeys wiring
    (fun line side said => ∀ waiting ∈ line.waiting side, said.crosses waiting = false) steps

instance {wiring : Wiring} {allows : Line → Side → Signal → Prop}
    [∀ line side said, Decidable (allows line side said)] :
    (duo : Duo) → (steps : List Step) → Decidable (duo.Obeys wiring allows steps)
  | _, [] => inferInstanceAs (Decidable True)
  | duo, step :: steps =>
    have : Decidable ((duo.after wiring step).Obeys wiring allows steps) := instDecidableObeys _ _
    inferInstanceAs (Decidable (_ ∧ _))

instance (wiring : Wiring) (duo : Duo) (steps : List Step) :
    Decidable (duo.CrossingFree wiring steps) :=
  inferInstanceAs (Decidable (Obeys _ _ _ _))

/-! ## A pair of sessions to run -/

/-- Two linked nodes. -/
def pairWiring : Wiring where
  place side := if side = .left then 0 else 1
  number side := if side = .left then ⟨1⟩ else ⟨0⟩
  apart := by decide

/-- Two sessions with the usual configuration on two linked nodes. -/
def pair : Duo :=
  start (fun _ => .standard) (fun _ => Config.standard_usable)
    ((Hub.fresh 2).connect 0 ⟨1⟩ 1 ⟨0⟩)

theorem joins_pair : pairWiring.Joins pair.hub := by
  refine pairWiring.joins_connect (fun side => ?_) fun side friend link remote asSeen _ hlink => ?_
  · cases side <;> decide
  · cases side <;> cases hlink

namespace Step

/-- Calls the other side. -/
def invite (side : Side) : Step := .perform side (.call (pairWiring.number side) ⟨48, 0⟩)

def answer (side : Side) : Step := .perform side (.answer (pairWiring.number side) ⟨48, 0⟩)

def hangUp (side : Side) : Step := .perform side (.control (pairWiring.number side) .cancel)

/-- Does a round and hands out what it reports. -/
def settle (side : Side) : List Step :=
  .perform side .iterate :: List.replicate 4 (.deliver side)

end Step

/-! ## Runs without crossings -/

variable {wiring : Wiring} {hub : Hub} {configs : Side → Config}

/-- Along a run without crossings the two sides keep track of each other. -/
theorem inStep_of_crossingFree (hjoins : wiring.Joins hub)
    (hempty : ∀ side, (hub.get (wiring.place side)).inbox = [])
    (usable : ∀ side, (configs side).Usable) {steps : List Step}
    (hopen : ∀ side, Step.perform side .close ∉ steps)
    (hfree : (start configs usable hub).CrossingFree wiring steps) :
    ((start configs usable hub).run wiring steps).Good wiring fun line => line.talk.InStep := by
  have hstart : (⟨fun _ => none, fun _ => []⟩ : Line).talk.InStep :=
    Or.inl ⟨.left, ⟨.idle, Or.inl rfl⟩⟩
  refine (good_start hjoins hempty hstart).run ?_ ?_ ?_ hopen hfree
  · intro line side signal later hsound h hwaiting
    exact Line.inStep_hear hsound h hwaiting
  · intro line side signal after hsound h hspeech hclear
    exact (Line.inStep_say_iff hsound h hspeech).mpr hclear
  · intro line side _ h
    exact Line.fits_of_inStep h side

/-- After a run without crossings, once both sides have heard everything, there is a live
call on both sides or on none. -/
theorem isInCall_eq_of_crossingFree (hjoins : wiring.Joins hub)
    (hempty : ∀ side, (hub.get (wiring.place side)).inbox = [])
    (usable : ∀ side, (configs side).Usable) {steps : List Step}
    (hopen : ∀ side, Step.perform side .close ∉ steps)
    (hfree : (start configs usable hub).CrossingFree wiring steps)
    (hquiet : ∀ side, (((start configs usable hub).run wiring steps).hub.get
      (wiring.place side)).inbox = []) :
    (((start configs usable hub).run wiring steps).sessions .left).registry.isInCall
        (wiring.number .left) =
      (((start configs usable hub).run wiring steps).sessions .right).registry.isInCall
        (wiring.number .right) := by
  have hgood := inStep_of_crossingFree hjoins hempty usable hopen hfree
  have hsilent : ∀ side, (((start configs usable hub).run wiring steps).line wiring).waiting side =
      [] := by
    intro side
    simp [line, Wiring.line, hquiet side]
  have hiff := Line.isSome_iff_of_inStep hgood.good.holds hsilent
  exact Bool.eq_iff_iff.mpr hiff

/-- A call that is answered as it is hung up, and one that is placed back and answered. -/
def callAndCallBack : List Step :=
  .invite .left :: Step.settle .right ++ [.hangUp .left, .answer .right] ++ Step.settle .left ++
    Step.settle .right ++ .invite .right :: Step.settle .left ++ .answer .left :: Step.settle .right

theorem close_not_mem_callAndCallBack (side : Side) :
    Step.perform side .close ∉ callAndCallBack := by
  simp [callAndCallBack, Step.settle, Step.invite, Step.answer, Step.hangUp]

theorem crossingFree_callAndCallBack : pair.CrossingFree pairWiring callAndCallBack := by
  decide

theorem isInCall_after_callBack :
    ((pair.run pairWiring callAndCallBack).sessions .left).registry.isInCall ⟨1⟩ = true ∧
      ((pair.run pairWiring callAndCallBack).sessions .right).registry.isInCall ⟨0⟩ = true := by
  have hleft : ((pair.run pairWiring callAndCallBack).sessions .left).registry.isInCall ⟨1⟩ =
      true := by
    decide
  have hequal := isInCall_eq_of_crossingFree joins_pair (fun side => by cases side <;> rfl)
    (fun _ => Config.standard_usable) close_not_mem_callAndCallBack crossingFree_callAndCallBack
    (fun side => by cases side <;> decide)
  exact ⟨hleft, hequal ▸ hleft⟩

/-- The left side calls and hangs up, and the right side calls before it hears of that. -/
def missedCall : List Step :=
  [.invite .left, .hangUp .left, .invite .right] ++ Step.settle .left ++ Step.settle .right

/-- The hang-up ends the call that the right side placed, in which the left side goes on
ringing. -/
theorem disagree_after_missedCall :
    pairWiring.Joins pair.hub ∧
      (∀ side, ((pair.run pairWiring missedCall).hub.get (pairWiring.place side)).inbox = []) ∧
      ((pair.run pairWiring missedCall).sessions .left).callState? ⟨1⟩ = some .ringing ∧
      ((pair.run pairWiring missedCall).sessions .right).callState? ⟨0⟩ = none := by
  refine ⟨joins_pair, fun side => ?_, by decide, by decide⟩
  cases side <;> decide

/-- Along a run without crossings no call fails and no fault is ever reported. -/
theorem unfailed_of_crossingFree (hjoins : wiring.Joins hub)
    (hempty : ∀ side, (hub.get (wiring.place side)).inbox = [])
    (usable : ∀ side, (configs side).Usable) {steps : List Step}
    (hopen : ∀ side, Step.perform side .close ∉ steps)
    (hfree : (start configs usable hub).CrossingFree wiring steps) (side : Side) :
    (∀ call ∈ (((start configs usable hub).run wiring steps).sessions side).registry.calls,
      call.state ≠ .failed) ∧
    ∀ delivery ∈ (((start configs usable hub).run wiring steps).sessions side).deliveries,
      ∀ event ∈ delivery.pending, ∀ friend, event ≠ .callState friend .failed :=
  (inStep_of_crossingFree hjoins hempty usable hopen hfree).unfailed side

theorem unfailed_after_callBack :
    ∃ call ∈ ((pair.run pairWiring callAndCallBack).sessions .left).registry.calls,
      call.direction = .incoming ∧ call.state ≠ .failed := by
  have hfound : ∃ call ∈ ((pair.run pairWiring callAndCallBack).sessions .left).registry.calls,
      call.direction = .incoming := by
    decide
  obtain ⟨call, hmem, hincoming⟩ := hfound
  have hunfailed := unfailed_of_crossingFree joins_pair (fun side => by cases side <;> rfl)
    (fun _ => Config.standard_usable) close_not_mem_callAndCallBack crossingFree_callAndCallBack
    .left
  exact ⟨call, hmem, hincoming, hunfailed.1 call hmem⟩

/-- A call is hung up as it is answered, and placed again before the answer is heard. -/
def redial : List Step :=
  .invite .left :: Step.settle .right ++ [.answer .right, .hangUp .left, .invite .left] ++
    Step.settle .right ++ [.answer .right, .perform .left .iterate]

/-- The second answer is taken for a fault: the first one was heard as the answer to the
second call. -/
theorem fault_after_redial :
    pairWiring.Joins pair.hub ∧
      ∃ delivery ∈ ((pair.run pairWiring redial).sessions .left).deliveries,
        .callState ⟨1⟩ .failed ∈ delivery.pending :=
  ⟨joins_pair, by decide⟩

/-! ## Every crossing matters -/

/-- Nothing is said that crosses a waiting signal, except that the first mark crosses the
second one. -/
def OnlyCrosses (first second : Mark) (line : Line) (side : Side) (said : Signal) : Prop :=
  ∀ waiting ∈ line.waiting side, said.crosses waiting = true →
    said.mark? = some first ∧ waiting.mark? = some second

instance (first second : Mark) (line : Line) (side : Side) (said : Signal) :
    Decidable (OnlyCrosses first second line side said) :=
  inferInstanceAs (Decidable (∀ waiting ∈ _, _ → _))

/-- A run in which the first mark crosses the second one, and the two sides disagree at
the end. -/
def disagreeing : Mark → Mark → List Step
  | .hangUp, _ =>
    [.invite .left, .invite .right, .hangUp .left] ++ Step.settle .left ++ Step.settle .right
  | .invite, .hangUp => missedCall
  | .invite, _ => redial
  | .answer, _ =>
    .invite .left :: Step.settle .right ++ [.hangUp .left, .invite .left, .answer .right] ++
      Step.settle .right ++ [.answer .right, .perform .left .iterate]

/-- Whichever kind of crossing happens, even if it is the only one in the run, there may be a
call on one side only when nothing is left to be heard. -/
theorem crossing_disagrees {first second : Mark} (h : first.crosses second = true) :
    pair.Obeys pairWiring (OnlyCrosses first second) (disagreeing first second) ∧
      (∀ side, ((pair.run pairWiring (disagreeing first second)).hub.get
        (pairWiring.place side)).inbox = []) ∧
      ((pair.run pairWiring (disagreeing first second)).sessions .left).registry.isInCall ⟨1⟩ ≠
        ((pair.run pairWiring (disagreeing first second)).sessions .right).registry.isInCall
          ⟨0⟩ := by
  have hsides : ∀ property : Side → Prop, property .left → property .right →
      ∀ side, property side := fun property hleft hright side => by cases side <;> assumption
  cases first <;> cases second <;> first
    | exact ⟨by decide, hsides _ (by decide) (by decide), by decide⟩
    | cases h

/-- A run in which the first mark crosses the second one, and the side that the last round is
on takes an answer for a fault. -/
def faulting : Mark → Mark → List Step
  | .hangUp, _ =>
    [.invite .left, .invite .right, .hangUp .left, .invite .left] ++ Step.settle .right ++
      [.answer .right, .hangUp .left, .perform .left .iterate]
  | .invite, .hangUp =>
    .invite .left :: Step.settle .right ++
      [.hangUp .left, .hangUp .right, .invite .left, .invite .right] ++ Step.settle .left ++
      [.answer .left, .perform .right .iterate]
  | .invite, _ => redial
  | .answer, _ => disagreeing .answer .invite

/-- Whichever kind of crossing happens, even if it is the only one in the run, an honest side
may be taken to be at fault. -/
theorem crossing_faults {first second : Mark} (h : first.crosses second = true) :
    pair.Obeys pairWiring (OnlyCrosses first second) (faulting first second) ∧
      ∃ side, ∃ delivery ∈
        ((pair.run pairWiring (faulting first second)).sessions side).deliveries,
        .callState (pairWiring.number side) .failed ∈ delivery.pending := by
  cases first <;> cases second <;> first
    | exact ⟨by decide, .left, by decide⟩
    | exact ⟨by decide, .right, by decide⟩
    | cases h

end PeerCalls.Duo
