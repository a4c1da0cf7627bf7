import Mathlib.Logic.Relation
import PeerCalls.Proofs.Session.Station
import PeerCalls.Proofs.Session.Steps

/-!
# How an entry of the registry evolves

`Evolves` lists every change that a single step of a session makes to what its
registry holds for one friend: a call is entered in a vacant place, a live call
changes, or an entry is dropped.  A step of a round does so to one entry, at most,
and so does an operation other than a round; `Alters` lists what such an operation
makes of the whole registry.  Reaping and closing drop any number of entries, each
of them once, and a round changes an entry any number of times.
-/

namespace PeerCalls

/-- There is no call, or one that is over. -/
def Vacant (entry : Option Call) : Prop := ∀ call ∈ entry, ¬ call.isLive

/-- One change of what a registry holds for a friend. -/
inductive Evolves (config : Config) (friend : Friend) : Option Call → Option Call → Prop where
  /-- We call the friend. -/
  | placed {entry : Option Call} {rates : Rates} (vacant : Vacant entry)
      (supported : config.unsupportedRate? rates = none) :
      Evolves config friend entry (some (.outgoing friend rates))
  /-- The friend calls us. -/
  | invited {entry : Option Call} (vacant : Vacant entry) (rates : Rates) :
      Evolves config friend entry (some (.incoming friend rates))
  /-- We answer. -/
  | answered {call : Call} {rates : Rates} (answerable : call.isAnswerable = true)
      (supported : config.unsupportedRate? rates = none) :
      Evolves config friend (some call) (some (call.answered rates))
  /-- Any other transition, on our side, the friend's or the network's. -/
  | moved {call after : Call} {transition : Transition} (live : call.isLive = true)
      (foreign : ∀ rates, transition ≠ .localAnswered rates)
      (fits : call.after? transition = some after) :
      Evolves config friend (some call) (some after)
  /-- We withhold a stream or send it again. -/
  | withheld {call : Call} (live : call.isLive = true) (answered : call.state.isRinging = false)
      (kind : MediaKind) (value : Bool) :
      Evolves config friend (some call) (some (call.withholding kind value))
  /-- We change a rate. -/
  | rated {call : Call} (live : call.isLive = true) (answered : call.state.isRinging = false)
      (kind : MediaKind) {rate : UInt32} (supported : config.supportsBitRate kind rate = true) :
      Evolves config friend (some call) (some (call.withRate kind rate))
  /-- The friend announces a rate. -/
  | announced {call : Call} (live : call.isLive = true) (kind : MediaKind) (rate : UInt32) :
      Evolves config friend (some call) (some (call.withPeerRate kind rate))
  /-- The entry is taken out. -/
  | dropped {call : Call} : Evolves config friend (some call) none

/-- An entry stays as it is or changes once. -/
abbrev EvolvesOnce (config : Config) (friend : Friend) : Option Call → Option Call → Prop :=
  Relation.ReflGen (Evolves config friend)

/-- An entry goes through any number of changes. -/
abbrev EvolvesOften (config : Config) (friend : Friend) : Option Call → Option Call → Prop :=
  Relation.ReflTransGen (Evolves config friend)

namespace Registry

variable {config : Config}

theorem vacant_of_live? {registry : Registry} {friend : Friend}
    (h : registry.live? friend = none) : Vacant (registry.get? friend) :=
  live?_eq_none_iff.mp h

/-- Putting a call in changes the entry of its friend and no other. -/
theorem evolves_set {registry : Registry} {call : Call} {friend : Friend}
    (hfriend : call.friend = friend)
    (h : Evolves config friend (registry.get? friend) (some call)) (other : Friend) :
    EvolvesOnce config other (registry.get? other) ((registry.set call).get? other) := by
  subst hfriend
  by_cases hother : call.friend = other
  · subst hother
    rw [get?_set_self]
    exact .single h
  · rw [get?_set_of_ne registry hother]

theorem evolves_reap (registry : Registry) (friend : Friend) :
    EvolvesOnce config friend (registry.get? friend) (registry.reap.2.get? friend) := by
  rw [get?_reap]
  unfold live?
  cases registry.get? friend with
  | none => exact .refl
  | some call =>
      cases hlive : call.isLive with
      | true => rw [Option.filter_some_pos hlive]
      | false =>
          rw [Option.filter_some_neg hlive]
          exact .single .dropped

end Registry

/-! ## Steps of a round -/

namespace Progress

variable {config : Config} {progress : Progress} {friend : Friend}

/-- The call that a step of a round puts in evolves from what it finds. -/
theorem evolves_of_tells {entered : Call} {news : List Event}
    (htells : Tells friend (progress.registry.live? friend) (some entered) news) :
    Evolves config friend (progress.registry.get? friend) (some entered) := by
  generalize hfound : progress.registry.live? friend = found at htells
  cases htells with
  | called rates => exact .invited (Registry.vacant_of_live? hfound) rates
  | moved theirs fits =>
      rw [Registry.get?_of_live? hfound]
      exact .moved (Registry.isLive_of_live? hfound) (Transition.ne_localAnswered theirs) fits
  | announced call kind rate =>
      rw [Registry.get?_of_live? hfound]
      exact .announced (Registry.isLive_of_live? hfound) kind rate

/-- A step of a round changes each entry at most once. -/
theorem evolves_of_minds {step : Progress → Progress} (hminds : Minds friend step)
    (progress : Progress) (other : Friend) :
    EvolvesOnce config other (progress.registry.get? other)
      ((step progress).registry.get? other) := by
  obtain ⟨entered, news, htells, hstep⟩ := hminds progress
  rw [hstep progress rfl]
  cases entered with
  | none => exact .refl
  | some call =>
      have hfriend : call.friend = friend :=
        htells.friend_entered (fun _ => Registry.friend_of_live?) rfl
      exact Registry.evolves_set hfriend (evolves_of_tells htells) other

end Progress

/-! ## Operations -/

/-- What an operation other than a round may make of a registry. -/
inductive Alters (config : Config) (registry : Registry) : Command → Registry → Prop where
  | keeps (command : Command) : Alters config registry command registry
  | places {friend : Friend} {rates : Rates} (free : registry.live? friend = none)
      (supported : config.unsupportedRate? rates = none) :
      Alters config registry (.call friend rates) (registry.set (.outgoing friend rates))
  /-- A call is entered and taken out again, and so is what it replaced. -/
  | retracts {friend : Friend} {rates : Rates} (free : registry.live? friend = none) :
      Alters config registry (.call friend rates) (registry.remove friend)
  /-- A live call changes. -/
  | changes {friend : Friend} {call after : Call} (command : Command)
      (live : registry.live? friend = some call) (same : after.friend = call.friend)
      (evolves : Evolves config friend (some call) (some after)) :
      Alters config registry command (registry.set after)
  | empties : Alters config registry .close .empty

/-- An alteration changes each entry at most once. -/
theorem Alters.evolves {config : Config} {registry later : Registry} {command : Command}
    (h : Alters config registry command later) (other : Friend) :
    EvolvesOnce config other (registry.get? other) (later.get? other) := by
  have hdropped : ∀ entry, EvolvesOnce config other entry none := by
    intro entry
    cases entry with
    | none => exact .refl
    | some call => exact .single .dropped
  cases h with
  | keeps => exact .refl
  | places free supported =>
      exact Registry.evolves_set rfl (.placed (Registry.vacant_of_live? free) supported) other
  | retracts free =>
      rw [Registry.get?_remove]
      split
      · exact hdropped _
      · exact .refl
  | changes command live same evolves =>
      refine Registry.evolves_set (same.trans (Registry.friend_of_live? live)) ?_ other
      rwa [Registry.get?_of_live? live]
  | empties => exact hdropped _

namespace Session

variable {σ : Type} (network : Network σ) (session : Session) (state : σ) (other : Friend)

/-- An operation other than a round is one of these alterations. -/
theorem alters_perform {command : Command} (h : command ≠ .iterate) :
    Alters session.config session.registry command
      (session.perform network state command).session.registry := by
  cases command with
  | iterate => exact absurd rfl h
  | call friend rates =>
      rcases call_cases network session state friend rates with
        ⟨_, -, houtcome⟩ | ⟨hnone, _, _, -, houtcome⟩ | ⟨hnone, _, -, houtcome⟩
      all_goals rw [perform, Outcome.map, houtcome]
      · exact .keeps _
      all_goals obtain ⟨-, -, hfree, -, hrates⟩ := callRefusal?_eq_none_iff.mp hnone
      · have hundone : (session.registry.set (.outgoing friend rates)).remove friend =
            session.registry.remove friend := Registry.remove_set session.registry rfl
        simp only [hundone]
        exact .retracts hfree
      · exact .places hfree hrates
  | answer friend rates =>
      rcases answer_cases network session state friend rates with
        ⟨_, houtcome⟩ | ⟨call, hcall, ⟨_, _, -, houtcome⟩ | ⟨_, -, ⟨_, _, -, houtcome⟩ |
          ⟨_, -, houtcome⟩⟩⟩
      all_goals rw [perform, Outcome.map, houtcome]
      · exact .keeps _
      · exact .keeps _
      · exact .keeps _
      · obtain ⟨-, -, hlive, hanswerable, hrates⟩ := answerable_eq_ok hcall
        exact .changes _ hlive (Call.friend_answered call rates) (.answered hanswerable hrates)
  | control friend command =>
      rcases control_cases network session state friend command with
        ⟨_, houtcome⟩ | ⟨call, hcall, ⟨_, _, -, -, houtcome⟩ |
          ⟨_, _, obeyed, -, -, hobeyed, houtcome⟩⟩
      all_goals rw [perform, Outcome.map, houtcome]
      · exact .keeps _
      · exact .keeps _
      · obtain ⟨-, -, hlive, hring, hrefusal⟩ := controllable_eq_ok hcall
        have hcalllive : call.isLive = true := Registry.isLive_of_live? hlive
        refine .changes _ hlive (Call.friend_of_obey? hobeyed) ?_
        rcases Call.obey?_of_not_refused hcalllive hring hrefusal with
          ⟨kind, withheld, hwithholding, hobey⟩ | ⟨transition, after, htransition, hfits, hobey⟩
        · obtain rfl : obeyed = call.withholding kind withheld :=
            Option.some.inj (hobeyed.symm.trans hobey)
          refine .withheld hcalllive (Bool.eq_false_iff.mpr fun hringing => ?_) kind withheld
          cases hring hringing
          cases hwithholding
        · obtain rfl : obeyed = after := Option.some.inj (hobeyed.symm.trans hobey)
          refine .moved hcalllive (fun rates heq => ?_) hfits
          subst heq
          cases command <;> cases htransition
  | setRate friend kind rate force =>
      rcases setRate_cases network session state friend kind rate force with
        ⟨_, houtcome⟩ | ⟨call, hcall, ⟨_, -, houtcome⟩ | ⟨_, -, ⟨_, _, -, houtcome⟩ |
          ⟨_, -, houtcome⟩⟩⟩
      all_goals rw [perform, Outcome.map, houtcome]
      · exact .keeps _
      · simp only [reporting, registry_dispatch]
        exact .keeps _
      · exact .keeps _
      · obtain ⟨-, -, hlive, hring, hrate⟩ := rateChangeable_eq_ok hcall
        simp only [reporting, registry_dispatch, registry_setCall]
        exact .changes _ hlive (Call.friend_withRate call kind rate)
          (.rated (Registry.isLive_of_live? hlive) hring kind hrate)
  | sendFrame friend payload =>
      rw [perform, Outcome.map, session_sendFrame]
      exact .keeps _
  | close =>
      simp only [perform, Outcome.map, close]
      split
      · exact .keeps _
      · exact .empties
  | listen listener => exact .keeps _

/-- A round takes each entry through a sequence of changes. -/
theorem evolves_round :
    EvolvesOften session.config other (session.call? other)
      ((session.round network state).session.call? other) := by
  have hchecked : EvolvesOften session.config other (session.call? other)
      ((session.checked network state).registry.get? other) :=
    checked_induction network state
      (P := fun progress =>
        EvolvesOften session.config other (session.call? other) (progress.registry.get? other))
      (fun _ _ progress hminds h =>
        h.trans (Progress.evolves_of_minds hminds progress other).to_reflTransGen)
      .refl
  simp only [call?, registry_round]
  exact hchecked.trans (Registry.evolves_reap _ other).to_reflTransGen

/-- Every operation takes each entry through a sequence of changes. -/
theorem evolvesOften_perform (command : Command) :
    EvolvesOften session.config other (session.call? other)
      ((session.perform network state command).session.call? other) := by
  by_cases h : command = .iterate
  · subst h
    rcases iterate_cases network session state with h | ⟨-, -, h⟩
    · rw [perform, Outcome.map, h]
    · rw [perform, Outcome.map, h]
      exact evolves_round network session state other
  · exact ((alters_perform network session state h).evolves other).to_reflTransGen

end Session

namespace Station

variable {σ : Type} {network : Network σ} {P : Option Call → Prop}

/-- What holds without a call and survives each change of an entry, holds of every
entry in every run. -/
theorem call?_induction {config : Config} {friend : Friend}
    (step : ∀ entry later, P entry → Evolves config friend entry later → P later)
    {station : Station σ} (hconfig : station.session.config = config)
    (h : P (station.session.call? friend)) (moves : List (Move σ)) :
    P ((station.run network moves).session.call? friend) := by
  -- a round changes an entry many times, one step after the other
  have hsurvives : ∀ {entry later}, EvolvesOften config friend entry later → P entry → P later := by
    intro entry later hevolves hentry
    induction hevolves with
    | refl => exact hentry
    | tail _ hstep ih => exact step _ _ ih hstep
  refine (run_induction
    (P := fun current : Station σ =>
      current.session.config = config ∧ P (current.session.call? friend))
    (fun current move h => ⟨by rw [config_after, h.1], ?_⟩) ⟨hconfig, h⟩ moves).2
  obtain ⟨hcurrent, hentry⟩ := h
  cases move with
  | perform command =>
      have hevolves := Session.evolvesOften_perform network current.session current.state friend
        command
      rw [hcurrent] at hevolves
      exact hsurvives hevolves hentry
  | deliver =>
      simp only [after]
      split
      · rename_i step session hadvance
        rw [Session.advance_eq hadvance]
        exact hentry
      · exact hentry
  | drift change => exact hentry

end Station

end PeerCalls
