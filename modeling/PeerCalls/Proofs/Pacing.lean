import Mathlib.Data.List.Chain
import PeerCalls.Pacing

/-!
# What a pacer can be relied on for

A list of happenings is an order in which the wait of a pacer ends, its rounds run and somebody
speaks to it.  Words may come at any time, also in the middle of a round.

Two things hold of a pacer at all times (`Pacer.Sound`).  It has stopped only if it was told to,
or if nobody could tell it any more; and it waits for the moment that its last round asked for.
While it waits, a request to stop is one that it has yet to notice (`Shutdown.Pending`), because
whatever was requested before the wait began has kept it from waiting.  So nobody who asks a pacer
to stop has to wait for the end of an interval (`Pacer.sound_run`), and no round begins in between
(`Pacer.rounds_of_requested`) or later (`Pacer.rounds_of_stopped`).  A pacer that nobody speaks to
never stops, and keeps the pace that its rounds ask for (`Pacer.paced_of_unspoken`).
-/

namespace PeerCalls

/-- A stop that is requested is one that the pacer has yet to notice. -/
def Shutdown.Pending (shutdown : Shutdown) : Prop :=
  shutdown.requested = true → shutdown.unseen = true

namespace Pacer

/-- What may be said to a pacer. -/
inductive Word where
  | request (value : Bool)
  /-- Nobody can make a request any more. -/
  | farewell
  deriving DecidableEq

/-- A round that has run. -/
structure Round where
  began : Nat
  ended : Nat
  /-- The wait that it asked for. -/
  interval : Nat
  deriving DecidableEq

/-- When the next round should begin. -/
def Round.due (round : Round) : Nat := round.ended + round.interval

/-- Something that happens to a pacer. -/
inductive Happening where
  | said (word : Word)
  /-- A waiting pacer looks at the switch. -/
  | noticed
  /-- The clock shows `now`, which ends a wait that is not for later. -/
  | passed (now : Nat)
  /-- A pacer about to run a round looks at the switch, and runs the round unless it stops. -/
  | turned (meanwhile : List Word) (round : Round)

/-- What is said in a happening. -/
def Happening.words : Happening → List Word
  | said word => [word]
  | turned meanwhile _ => meanwhile
  | _ => []

def hear (pacer : Pacer) : Word → Pacer
  | .request value => (pacer.request value).2
  | .farewell => pacer.abandon

def after (pacer : Pacer) : Happening → Pacer
  | .said word => pacer.hear word
  | .noticed => pacer.notice
  | .passed now => if pacer.wakeTime?.any (· ≤ now) then pacer.wake else pacer
  | .turned meanwhile round =>
    if pacer.look.stage = .looking then
      (meanwhile.foldl hear pacer.look).afterRound round.ended round.interval
    else pacer.look

/-- The round that runs in a happening, if one does. -/
def ran? (pacer : Pacer) : Happening → Option Round
  | .turned _ round => if pacer.look.stage = .looking then some round else none
  | _ => none

def run (pacer : Pacer) (happenings : List Happening) : Pacer := happenings.foldl after pacer

/-- The rounds that run, in order. -/
def rounds : Pacer → List Happening → List Round
  | _, [] => []
  | pacer, happening :: later =>
    (pacer.ran? happening).toList ++ rounds (pacer.after happening) later

/-- What the clock shows when a happening begins and when it ends, if it showed `since` before. -/
def Happening.clock (since : Nat) : Happening → Nat × Nat
  | passed now => (now, now)
  | turned _ round => (round.began, round.ended)
  | _ => (since, since)

/-- The clock never goes back. -/
def InOrder : Nat → List Happening → Prop
  | _, [] => True
  | since, happening :: later =>
    since ≤ (happening.clock since).1 ∧
      (happening.clock since).1 ≤ (happening.clock since).2 ∧
      InOrder (happening.clock since).2 later

variable {pacer : Pacer} {moment : Nat}

/-! ## Looking and hearing -/

/-- What a look at the switch leads to. -/
theorem look_cases (pacer : Pacer) :
    (pacer.stage = .looking ∧ pacer.shutdown.requested = true ∧
      pacer.look = { pacer with stage := .stopped }) ∨
    (pacer.look = pacer ∧ (pacer.stage = .looking → pacer.shutdown.requested = false)) := by
  unfold look
  cases hstage : pacer.stage with
  | looking =>
      cases hrequested : pacer.shutdown.requested with
      | true => exact Or.inl ⟨rfl, rfl, rfl⟩
      | false => exact Or.inr ⟨rfl, fun _ => rfl⟩
  | waiting _ => exact Or.inr ⟨rfl, fun h => by cases h⟩
  | stopped => exact Or.inr ⟨rfl, fun h => by cases h⟩

/-- A word changes the switch alone, and that only unless the pacer has stopped or nobody can make
a request. -/
theorem hear_cases (pacer : Pacer) (word : Word) :
    pacer.hear word = pacer ∨
      (∃ value, pacer.hear word = { pacer with shutdown := ⟨value, true, false⟩ }) ∨
      pacer.hear word = { pacer with shutdown := { pacer.shutdown with abandoned := true } } := by
  cases word with
  | farewell => exact Or.inr (Or.inr rfl)
  | request value =>
      simp only [hear, request]
      split
      · exact Or.inl rfl
      · split
        · exact Or.inl rfl
        · exact Or.inr (Or.inl ⟨value, rfl⟩)

@[simp] theorem stage_hear (pacer : Pacer) (word : Word) :
    (pacer.hear word).stage = pacer.stage := by
  rcases pacer.hear_cases word with h | ⟨value, h⟩ | h <;> rw [h]

theorem pending_hear (h : pacer.shutdown.Pending) (word : Word) :
    (pacer.hear word).shutdown.Pending := by
  rcases pacer.hear_cases word with heq | ⟨value, heq⟩ | heq <;> rw [heq]
  · exact h
  · exact fun _ => rfl
  · exact h

theorem pending_foldl_hear (h : pacer.shutdown.Pending) (words : List Word) :
    (words.foldl hear pacer).shutdown.Pending := by
  induction words generalizing pacer with
  | nil => exact h
  | cons word words ih => exact ih (pending_hear h word)

/-- Only a waiting pacer has a moment to wake at. -/
theorem wakeTime?_eq_some_iff : pacer.wakeTime? = some moment ↔ pacer.stage = .waiting moment := by
  cases hstage : pacer.stage <;> simp [wakeTime?, hstage]

theorem stage_wake (h : pacer.wakeTime? = some moment) : pacer.wake.stage = .looking := by
  simp only [wake, wakeTime?_eq_some_iff.mp h]

/-! ## What holds at all times -/

/-- A pacer after the rounds `done`. -/
structure Sound (pacer : Pacer) (done : List Round) : Prop where
  called : pacer.stage = .stopped →
    pacer.shutdown.requested = true ∨ pacer.shutdown.abandoned = true
  pending : ∀ moment, pacer.stage = .waiting moment → pacer.shutdown.Pending
  timed : ∀ moment, pacer.stage = .waiting moment → ∃ last ∈ done.getLast?, moment = last.due

theorem sound_of_looking {done : List Round} (h : pacer.stage = .looking) :
    pacer.Sound done where
  called hstage := by cases h.symm.trans hstage
  pending _ hstage := by cases h.symm.trans hstage
  timed _ hstage := by cases h.symm.trans hstage

theorem sound_of_stopped {done : List Round} (h : pacer.stage = .stopped)
    (hcalled : pacer.shutdown.requested = true ∨ pacer.shutdown.abandoned = true) :
    pacer.Sound done where
  called _ := hcalled
  pending _ hstage := by cases h.symm.trans hstage
  timed _ hstage := by cases h.symm.trans hstage

/-- Beginning to wait for what the last round asked for, or going on with that. -/
theorem sound_rest {done : List Round} (hpending : pacer.shutdown.Pending)
    (htimed : ∃ last ∈ done.getLast?, moment = last.due) : (pacer.rest moment).Sound done := by
  unfold rest
  split
  · exact sound_of_looking rfl
  · split
    · rename_i habandoned
      exact sound_of_stopped rfl (Or.inr habandoned)
    · refine ⟨fun hstage => ?_, fun _ _ => hpending, fun _ hstage => ?_⟩
      · cases hstage
      · cases hstage
        exact htimed

variable {done : List Round}

theorem Sound.hear (h : pacer.Sound done) (word : Word) : (pacer.hear word).Sound done := by
  cases hstage : pacer.stage with
  | looking => exact sound_of_looking ((stage_hear pacer word).trans hstage)
  | waiting moment =>
      refine ⟨fun hafter => ?_, fun _ _ => pending_hear (h.pending moment hstage) word,
        fun other hafter => ?_⟩
      · rw [stage_hear, hstage] at hafter
        cases hafter
      · rw [stage_hear] at hafter
        exact h.timed other hafter
  | stopped =>
      -- a pacer that has stopped hears no request
      refine sound_of_stopped ((stage_hear pacer word).trans hstage) ?_
      cases word with
      | request value =>
          have hdeaf : pacer.hear (.request value) = pacer := by
            simp only [Pacer.hear, request, hstage]
          rw [hdeaf]
          exact h.called hstage
      | farewell => exact Or.inr rfl

/-- Whatever happens. -/
theorem Sound.after (h : pacer.Sound done) (happening : Happening) :
    (pacer.after happening).Sound (done ++ (pacer.ran? happening).toList) := by
  cases happening with
  | said word =>
      simp only [ran?, Option.toList_none, List.append_nil]
      exact h.hear word
  | noticed =>
      simp only [ran?, Option.toList_none, List.append_nil, Pacer.after, notice]
      split
      · rename_i moment hstage
        exact sound_rest (h.pending moment hstage) (h.timed moment hstage)
      · exact h
  | passed now =>
      simp only [ran?, Option.toList_none, List.append_nil, Pacer.after]
      split
      · rename_i hdue
        obtain ⟨moment, hmoment, -⟩ := (Option.any_eq_true _ _).mp hdue
        exact sound_of_looking (stage_wake hmoment)
      · exact h
  | turned meanwhile round =>
      simp only [ran?, Pacer.after]
      rcases pacer.look_cases with ⟨-, hrequested, hlook⟩ | ⟨hlook, hunrequested⟩
      · rw [hlook]
        exact sound_of_stopped rfl (Or.inl hrequested)
      · rw [hlook]
        by_cases hstage : pacer.stage = .looking
        · -- when the round began no stop was requested
          have hpending : pacer.shutdown.Pending := fun hrequested => by
            rw [hunrequested hstage] at hrequested
            cases hrequested
          simp only [if_pos hstage, Option.toList_some]
          exact sound_rest (pending_foldl_hear hpending meanwhile) ⟨round, by simp, rfl⟩
        · simpa [hstage] using h

theorem Sound.run (h : pacer.Sound done) (happenings : List Happening) :
    (pacer.run happenings).Sound (done ++ pacer.rounds happenings) := by
  induction happenings generalizing pacer done with
  | nil =>
      rw [rounds, List.append_nil]
      exact h
  | cons happening later ih =>
      have hlater := ih (h.after happening)
      rwa [List.append_assoc] at hlater

/-- Once a stop is requested, a pacer that gets to look at the switch stops, however long it
meant to wait. -/
theorem Sound.stops (h : pacer.Sound done) (hrequested : pacer.shutdown.requested = true)
    (meanwhile : List Word) (round : Round) :
    ((pacer.after .noticed).after (.turned meanwhile round)).isStopped = true := by
  have hturned : ∀ looking : Pacer, looking.stage = .looking →
      looking.shutdown.requested = true →
        (looking.after (.turned meanwhile round)).isStopped = true := by
    intro looking hstage hrequested
    rcases looking.look_cases with ⟨-, -, hlook⟩ | ⟨-, hunrequested⟩
    · simp [Pacer.after, hlook, isStopped]
    · rw [hunrequested hstage] at hrequested
      cases hrequested
  cases hstage : pacer.stage with
  | looking =>
      have hsame : pacer.after .noticed = pacer := by simp only [Pacer.after, notice, hstage]
      rw [hsame]
      exact hturned pacer hstage hrequested
  | waiting moment =>
      have hunseen := h.pending moment hstage hrequested
      refine hturned _ ?_ ?_ <;> simp [Pacer.after, notice, hstage, rest, hunseen, hrequested]
  | stopped => simp [Pacer.after, notice, hstage, look, isStopped]

/-- A pacer has stopped only if a stop is requested or nobody can request anything any more; it
waits for nothing but what its last round asked for; and if a stop is requested, it stops as soon
as it gets to look at the switch. -/
theorem sound_run (requested : Bool) (happenings : List Happening) :
    let pacer := (start requested).run happenings
    (pacer.isStopped = true →
      pacer.shutdown.requested = true ∨ pacer.shutdown.abandoned = true) ∧
    (∀ moment ∈ pacer.wakeTime?,
      ∃ last ∈ ((start requested).rounds happenings).getLast?, moment = last.due) ∧
    (pacer.shutdown.requested = true → ∀ meanwhile round,
      ((pacer.after .noticed).after (.turned meanwhile round)).isStopped = true) := by
  intro pacer
  have hsound : pacer.Sound ((start requested).rounds happenings) :=
    (sound_of_looking rfl : (start requested).Sound []).run happenings
  exact ⟨fun hstopped => hsound.called (of_decide_eq_true hstopped),
    fun moment hmoment => hsound.timed moment (wakeTime?_eq_some_iff.mp hmoment),
    fun hrequested meanwhile round => hsound.stops hrequested meanwhile round⟩

/-! ## After a stop was requested -/

theorem after_of_stopped (h : pacer.stage = .stopped) (happening : Happening) :
    (pacer.after happening).stage = .stopped ∧ pacer.ran? happening = none := by
  cases happening with
  | said word => exact ⟨(stage_hear pacer word).trans h, rfl⟩
  | noticed => simp [Pacer.after, notice, ran?, h]
  | passed now => simp [Pacer.after, wakeTime?, ran?, h]
  | turned meanwhile round => simp [Pacer.after, look, ran?, h]

/-- A pacer that has stopped runs no round any more. -/
theorem rounds_of_stopped (h : pacer.isStopped = true) (happenings : List Happening) :
    pacer.rounds happenings = [] ∧ (pacer.run happenings).isStopped = true := by
  induction happenings generalizing pacer with
  | nil => exact ⟨rfl, h⟩
  | cons happening later ih =>
      obtain ⟨hstopped, hnone⟩ := after_of_stopped (of_decide_eq_true h) happening
      obtain ⟨hrounds, hrun⟩ := ih (decide_eq_true hstopped)
      refine ⟨?_, hrun⟩
      rw [rounds, hnone, hrounds]
      rfl

theorem requested_rest (pacer : Pacer) (moment : Nat) :
    (pacer.rest moment).shutdown.requested = pacer.shutdown.requested := by
  unfold rest
  split
  · rfl
  · split <;> rfl

theorem requested_hear {word : Word} (h : pacer.shutdown.requested = true)
    (hword : word ≠ .request false) : (pacer.hear word).shutdown.requested = true := by
  cases word with
  | farewell => exact h
  | request value =>
      obtain rfl : value = true := by
        cases value with
        | true => rfl
        | false => exact absurd rfl hword
      simp only [hear, request]
      split
      · exact h
      · split
        · exact h
        · rfl

theorem after_of_requested (h : pacer.shutdown.requested = true) {happening : Happening}
    (hwords : .request false ∉ happening.words) :
    (pacer.after happening).shutdown.requested = true ∧ pacer.ran? happening = none := by
  cases happening with
  | said word =>
      refine ⟨requested_hear h ?_, rfl⟩
      rintro rfl
      exact hwords List.mem_cons_self
  | noticed =>
      refine ⟨?_, rfl⟩
      simp only [Pacer.after, notice]
      split
      · rw [requested_rest]
        exact h
      · exact h
  | passed now =>
      refine ⟨?_, rfl⟩
      simp only [Pacer.after, wake]
      repeat' split
      all_goals exact h
  | turned meanwhile round =>
      have hidle : pacer.look.stage ≠ .looking ∧ pacer.look.shutdown.requested = true := by
        rcases pacer.look_cases with ⟨-, -, hlook⟩ | ⟨hlook, hunrequested⟩
        · simp [hlook, h]
        · rw [hlook]
          refine ⟨fun hstage => ?_, h⟩
          rw [hunrequested hstage] at h
          cases h
      simp only [Pacer.after, ran?, if_neg hidle.1]
      exact ⟨hidle.2, trivial⟩

/-- Once a stop is requested no round begins, unless somebody takes that back. -/
theorem rounds_of_requested (h : pacer.shutdown.requested = true) {happenings : List Happening}
    (hwords : ∀ happening ∈ happenings, .request false ∉ happening.words) :
    pacer.rounds happenings = [] := by
  induction happenings generalizing pacer with
  | nil => rfl
  | cons happening later ih =>
      obtain ⟨hword, hlater⟩ := List.forall_mem_cons.mp hwords
      obtain ⟨hrequested, hnone⟩ := after_of_requested h hword
      rw [rounds, hnone, ih hrequested hlater]
      rfl

/-! ## Left to itself -/

/-- A pacer that nobody has spoken to, at the moment `since`. -/
structure Paced (pacer : Pacer) (since : Nat) (done : List Round) : Prop where
  sound : pacer.Sound done
  unspoken : pacer.shutdown = ⟨false, false, false⟩
  /-- What is about to begin is not early. -/
  due : pacer.stage = .looking → ∀ last ∈ done.getLast?, last.due ≤ since
  paced : done.IsChain fun round next => round.due ≤ next.began

theorem rest_of_unspoken (h : pacer.shutdown = ⟨false, false, false⟩) (moment : Nat) :
    pacer.rest moment = { pacer with stage := .waiting moment } := by
  simp [rest, h]

theorem Paced.isStopped_eq_false {since : Nat} (h : pacer.Paced since done) :
    pacer.isStopped = false := by
  refine decide_eq_false fun hstage => ?_
  have hcalled := h.sound.called hstage
  simp [h.unspoken] at hcalled

/-- The clock may go on. -/
theorem Paced.mono {since now : Nat} (h : pacer.Paced since done) (hle : since ≤ now) :
    pacer.Paced now done :=
  ⟨h.sound, h.unspoken, fun hstage last hlast => (h.due hstage last hlast).trans hle, h.paced⟩

theorem Paced.after {since : Nat} (h : pacer.Paced since done) {happening : Happening}
    (hwords : happening.words = []) (hbegin : since ≤ (happening.clock since).1)
    (hend : (happening.clock since).1 ≤ (happening.clock since).2) :
    (pacer.after happening).Paced (happening.clock since).2
      (done ++ (pacer.ran? happening).toList) := by
  have hsound := h.sound.after happening
  cases happening with
  | said word => cases hwords
  | noticed =>
      have hsame : pacer.after .noticed = pacer := by
        simp only [Pacer.after, notice]
        split
        · rename_i moment hstage
          rw [rest_of_unspoken h.unspoken, ← hstage]
        · rfl
      simp only [ran?, Option.toList_none, List.append_nil, hsame]
      exact h
  | passed now =>
      simp only [ran?, Option.toList_none, List.append_nil, Pacer.after] at hsound ⊢
      split at hsound
      · rename_i hdue
        obtain ⟨moment, hmoment, hle⟩ := (Option.any_eq_true _ _).mp hdue
        have hstage := wakeTime?_eq_some_iff.mp hmoment
        rw [if_pos hdue]
        refine ⟨hsound, ?_, fun _ last hlast => ?_, h.paced⟩
        · simp only [wake, hstage]
          exact h.unspoken
        · obtain ⟨other, hother, rfl⟩ := h.sound.timed moment hstage
          obtain rfl := Option.some.inj (Option.mem_def.mp hother |>.symm.trans hlast)
          exact of_decide_eq_true hle
      · rename_i hearly
        rw [if_neg hearly]
        exact h.mono hbegin
  | turned meanwhile round =>
      obtain rfl : meanwhile = [] := hwords
      have hlook : pacer.look = pacer := by
        rcases pacer.look_cases with ⟨-, hrequested, -⟩ | ⟨hlook, -⟩
        · rw [h.unspoken] at hrequested
          cases hrequested
        · exact hlook
      simp only [Pacer.after, ran?, hlook] at hsound ⊢
      by_cases hstage : pacer.stage = .looking
      · simp only [if_pos hstage, Option.toList_some, List.foldl_nil] at hsound ⊢
        have hwaits : pacer.afterRound round.ended round.interval =
            { pacer with stage := .waiting round.due } := rest_of_unspoken h.unspoken round.due
        rw [hwaits] at hsound ⊢
        refine ⟨hsound, h.unspoken, fun hlooking => (by cases hlooking), ?_⟩
        refine List.isChain_append.mpr ⟨h.paced, .singleton round, fun last hlast next hnext => ?_⟩
        obtain rfl : round = next := Option.some.inj hnext
        exact (h.due hstage last hlast).trans hbegin
      · simp only [if_neg hstage, Option.toList_none, List.append_nil] at hsound ⊢
        exact h.mono (hbegin.trans hend)

theorem Paced.run {since : Nat} (h : pacer.Paced since done) {happenings : List Happening}
    (hwords : ∀ happening ∈ happenings, happening.words = [])
    (horder : InOrder since happenings) :
    ∃ now, (pacer.run happenings).Paced now (done ++ pacer.rounds happenings) := by
  induction happenings generalizing pacer since done with
  | nil => exact ⟨since, by rwa [rounds, List.append_nil]⟩
  | cons happening later ih =>
      obtain ⟨hword, hlater⟩ := List.forall_mem_cons.mp hwords
      obtain ⟨now, hnow⟩ := ih (h.after hword horder.1 horder.2.1) hlater horder.2.2
      rw [List.append_assoc] at hnow
      exact ⟨now, hnow⟩

/-- A pacer that nobody speaks to never stops, and no round begins before the wait is over that
the round before it asked for. -/
theorem paced_of_unspoken {since : Nat} {happenings : List Happening}
    (hwords : ∀ happening ∈ happenings, happening.words = [])
    (horder : InOrder since happenings) :
    ((start false).run happenings).isStopped = false ∧
      ((start false).rounds happenings).IsChain fun round next => round.due ≤ next.began := by
  have hstart : (start false).Paced since [] :=
    ⟨sound_of_looking rfl, rfl, fun _ last hlast => (by cases hlast), .nil⟩
  obtain ⟨now, hpaced⟩ := hstart.run hwords horder
  exact ⟨hpaced.isStopped_eq_false, hpaced.paced⟩

end Pacer

end PeerCalls
