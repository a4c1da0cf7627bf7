import PeerCalls.Proofs.Session.LifeStep

/-!
# The life of a call

The `history` of a run lists the small steps in which the calls of a session change: the
operations of the application, and the items, the checks and the reaping of its rounds.  Each
step comes with its cause and with the registry before and after it, and they follow one
another from the start of the run to its end, so nothing happens to a call outside of them.

Every step of the history is a `LifeStep` of every call.  This needs coherent calls, and each
step leaves them coherent, so coherence is carried along the history.
-/

namespace PeerCalls

/-! ## Histories -/

/-- One step, with the calls before and after it. -/
structure Change where
  cause : Cause
  before : Registry
  after : Registry

namespace Change

/-- The changes follow one another, from the first registry to the last. -/
def Chained : Registry → List Change → Registry → Prop
  | first, [], last => first = last
  | first, change :: later, last => change.before = first ∧ Chained change.after later last

theorem Chained.append {first middle last : Registry} {earlier later : List Change}
    (h : Chained first earlier middle) (h' : Chained middle later last) :
    Chained first (earlier ++ later) last := by
  induction earlier generalizing first with
  | nil =>
      obtain rfl : first = middle := h
      exact h'
  | cons change earlier ih => exact ⟨h.1, ih h.2⟩

/-- From coherent calls, the change is a step in the life of each call, and each entry changes
in one of the known ways, at most. -/
def Lawful (config : Config) (change : Change) : Prop :=
  (∀ friend, ∀ call ∈ change.before.get? friend, call.Coherent config) →
    ∀ friend,
      LifeStep friend change.cause (change.before.get? friend) (change.after.get? friend) ∧
      EvolvesOnce config friend (change.before.get? friend) (change.after.get? friend)

/-- Along lawful changes coherent calls stay coherent, so every change is a step of a life. -/
theorem Chained.lifeStep {config : Config} {first last : Registry} {changes : List Change}
    (h : Chained first changes last) (hlawful : ∀ change ∈ changes, change.Lawful config)
    (hcoherent : ∀ friend, ∀ call ∈ first.get? friend, call.Coherent config) :
    ∀ change ∈ changes, ∀ friend,
      LifeStep friend change.cause (change.before.get? friend) (change.after.get? friend) := by
  induction changes generalizing first with
  | nil => simp
  | cons change later ih =>
      obtain ⟨rfl, hlater⟩ := h
      obtain ⟨hchange, hrest⟩ := List.forall_mem_cons.mp hlawful
      have hsteps := hchange hcoherent
      refine List.forall_mem_cons.mpr ⟨fun friend => (hsteps friend).1, ih hlater hrest ?_⟩
      exact fun friend => Call.Coherent.evolvesOnce (hcoherent friend) (hsteps friend).2

end Change

namespace Progress

variable {σ : Type} (network : Network σ) (config : Config)

/-- The changes by the inbound items that a round takes, at most `limit`. -/
def itemHistory : Nat → Progress → σ → List Change
  | 0, _, _ => []
  | limit + 1, progress, state =>
    match network.poll state with
    | (none, _) => []
    | (some item, after) =>
      ⟨.item item, progress.registry, (progress.handle config item).registry⟩ ::
        itemHistory limit (progress.handle config item) after

theorem chained_itemHistory (limit : Nat) (progress : Progress) (state : σ) :
    Change.Chained progress.registry (itemHistory network config limit progress state)
      (takeInbound network config limit progress state).1.registry := by
  induction limit generalizing progress state with
  | zero => exact rfl
  | succ limit ih =>
      unfold itemHistory takeInbound
      obtain ⟨received, after⟩ := network.poll state
      cases received with
      | none => exact rfl
      | some item => exact ⟨rfl, ih (progress.handle config item) after⟩

theorem lawful_itemHistory (limit : Nat) (progress : Progress) (state : σ) :
    ∀ change ∈ itemHistory network config limit progress state, change.Lawful config := by
  induction limit generalizing progress state with
  | zero => simp [itemHistory]
  | succ limit ih =>
      unfold itemHistory
      obtain ⟨received, after⟩ := network.poll state
      cases received with
      | none => simp
      | some item =>
          refine List.forall_mem_cons.mpr ⟨fun hcoherent friend => ⟨?_, ?_⟩, ih _ _⟩
          · exact lifeStep_handle hcoherent item friend
          · exact evolves_of_minds (minds_handle config item) progress friend

variable (state : σ)

/-- The changes by the checks of friends. -/
def checkHistory : List Friend → Progress → List Change
  | [], _ => []
  | friend :: later, progress =>
    ⟨.check friend, progress.registry, (checkFriend network state progress friend).registry⟩ ::
      checkHistory later (checkFriend network state progress friend)

theorem chained_checkHistory (friends : List Friend) (progress : Progress) :
    Change.Chained progress.registry (checkHistory network state friends progress)
      (friends.foldl (checkFriend network state) progress).registry := by
  induction friends generalizing progress with
  | nil => exact rfl
  | cons friend later ih => exact ⟨rfl, ih (checkFriend network state progress friend)⟩

theorem lawful_checkHistory (friends : List Friend) (progress : Progress) :
    ∀ change ∈ checkHistory network state friends progress, change.Lawful config := by
  induction friends generalizing progress with
  | nil => simp [checkHistory]
  | cons friend later ih =>
      refine List.forall_mem_cons.mpr ⟨fun _ other => ⟨?_, ?_⟩, ih _⟩
      · exact lifeStep_checkFriend network state progress friend other
      · exact evolves_of_minds (minds_checkFriend friend network state) progress other

end Progress

namespace Session

variable {σ : Type} (network : Network σ) (session : Session) (state : σ)

/-- The changes of a round: by its inbound items, by its checks, and by its reaping. -/
def roundHistory : List Change :=
  Progress.itemHistory network session.config session.config.inboundLimit.toNat
      ⟨session.registry, []⟩ state ++
    (Progress.checkHistory network (session.taken network state).2
        (session.taken network state).1.registry.friends (session.taken network state).1 ++
      [⟨.reap, (session.checked network state).registry,
        (session.checked network state).registry.reap.2⟩])

theorem chained_roundHistory :
    Change.Chained session.registry (session.roundHistory network state)
      (session.round network state).session.registry := by
  have hitems := Progress.chained_itemHistory network session.config
    session.config.inboundLimit.toNat ⟨session.registry, []⟩ state
  have hchecks := Progress.chained_checkHistory network (session.taken network state).2
    (session.taken network state).1.registry.friends (session.taken network state).1
  rw [registry_round]
  exact hitems.append (hchecks.append ⟨rfl, rfl⟩)

theorem lawful_roundHistory :
    ∀ change ∈ session.roundHistory network state, change.Lawful session.config := by
  have hreap : Change.Lawful session.config ⟨.reap, (session.checked network state).registry,
      (session.checked network state).registry.reap.2⟩ := fun _ friend =>
    ⟨Registry.lifeStep_reap _ friend, Registry.evolves_reap _ friend⟩
  intro change hmem
  rcases List.mem_append.mp hmem with hitem | hmem
  · exact Progress.lawful_itemHistory network session.config _ _ _ change hitem
  rcases List.mem_append.mp hmem with hcheck | hlast
  · exact Progress.lawful_checkHistory network session.config _ _ _ change hcheck
  · obtain rfl := List.mem_singleton.mp hlast
    exact hreap

end Session

namespace Station

variable {σ : Type} (network : Network σ)

/-- The changes of one move.  A round that is refused changes nothing. -/
def changes (station : Station σ) : Move σ → List Change
  | .perform .iterate =>
    if station.session.closed || station.session.isIterating then []
    else station.session.roundHistory network station.state
  | .perform command =>
    [⟨.operation command, station.session.registry,
      (station.after network (.perform command)).session.registry⟩]
  | .deliver => []
  | .drift _ => []

/-- The changes of a run, in order. -/
def history : Station σ → List (Move σ) → List Change
  | _, [] => []
  | station, move :: moves =>
    station.changes network move ++ history (station.after network move) moves

theorem chained_changes (station : Station σ) (move : Move σ) :
    Change.Chained station.session.registry (station.changes network move)
        (station.after network move).session.registry ∧
      ∀ change ∈ station.changes network move, change.Lawful station.session.config := by
  cases move with
  | drift change => exact ⟨rfl, by simp [changes]⟩
  | deliver =>
      refine ⟨?_, by simp [changes]⟩
      simp only [changes, after]
      split
      · rename_i step session hadvance
        rw [Session.advance_eq hadvance]
        exact rfl
      · exact rfl
  | perform command =>
      by_cases hround : command = .iterate
      · subst hround
        simp only [changes, after, Session.perform, Outcome.map, Session.iterate]
        split
        · exact ⟨rfl, by simp⟩
        · exact ⟨Session.chained_roundHistory network station.session station.state,
            Session.lawful_roundHistory network station.session station.state⟩
      · have hchanges : station.changes network (.perform command) =
            [⟨.operation command, station.session.registry,
              (station.after network (.perform command)).session.registry⟩] := by
          cases command with
          | iterate => exact absurd rfl hround
          | _ => rfl
        rw [hchanges]
        refine ⟨⟨rfl, rfl⟩, fun change hmem hcoherent friend => ?_⟩
        obtain rfl := List.mem_singleton.mp hmem
        exact ⟨Session.lifeStep_perform network station.session station.state hcoherent hround
            friend,
          (Session.alters_perform network station.session station.state hround).evolves friend⟩

/-- The history of a run leads from the calls at its start to those at its end. -/
theorem chained_history (station : Station σ) (moves : List (Move σ)) :
    Change.Chained station.session.registry (station.history network moves)
        (station.run network moves).session.registry ∧
      ∀ change ∈ station.history network moves, change.Lawful station.session.config := by
  induction moves generalizing station with
  | nil => exact ⟨rfl, by simp [history]⟩
  | cons move moves ih =>
      obtain ⟨hfirst, hlawful⟩ := chained_changes network station move
      obtain ⟨hlater, hlawful'⟩ := ih (station.after network move)
      rw [config_after] at hlawful'
      refine ⟨hfirst.append hlater, fun change hmem => ?_⟩
      exact (List.mem_append.mp hmem).elim (hlawful change) (hlawful' change)

/-- Whatever is done with a session and whatever its network answers, every step of its history
is a step in the life of each call.  The parties of a live call stay the same, an answered call
does not ring again, and a call that is over stays as it is until it is taken away or a new
call takes its place. -/
theorem lifeStep_of_run {network : Network σ} {config : Config} {state opened : σ}
    {session : Session} (h : Session.attach network config state = (.ok session, opened))
    (moves : List (Move σ)) :
    let start : Station σ := ⟨session, opened⟩
    Change.Chained .empty (start.history network moves)
        (start.run network moves).session.registry ∧
      ∀ change ∈ start.history network moves, ∀ friend,
        LifeStep friend change.cause (change.before.get? friend) (change.after.get? friend) ∧
        ∀ call ∈ change.before.get? friend,
          (call.isLive = true → ∀ later ∈ change.after.get? friend,
            later.friend = call.friend ∧ later.direction = call.direction ∧
              (call.state ≠ .ringing → later.state ≠ .ringing)) ∧
          (call.isLive = false →
            change.after.get? friend = some call ∨ change.after.get? friend = none ∨
              ∃ rates, change.after.get? friend = some (.outgoing friend rates) ∨
                change.after.get? friend = some (.incoming friend rates)) := by
  intro start
  obtain ⟨usable, rfl, -⟩ := Session.attach_eq_ok h
  obtain ⟨hchained, hlawful⟩ := chained_history network start moves
  refine ⟨hchained, fun change hmem friend => ?_⟩
  have hstep := hchained.lifeStep hlawful (by simp [start, Session.fresh]) change hmem friend
  refine ⟨hstep, fun call hcall => ⟨fun hlive later hlater => ?_, fun hover => ?_⟩⟩
  · rw [hcall, hlater] at hstep
    obtain ⟨hfriend, hdirection⟩ := hstep.parties hlive
    exact ⟨hfriend, hdirection, hstep.not_ringing hlive⟩
  · rw [hcall] at hstep
    exact hstep.of_over hover

/-- We call, are answered and pause; the friend resumes; we hang up. -/
def fullLife : List (Move Hub) :=
  let hears (signal : Signal) : Move Hub :=
    .drift fun hub => ((Hub.node 1).sendSignal ⟨0⟩ signal hub).2
  let round := .perform .iterate :: List.replicate 4 .deliver
  [.perform (.call ⟨1⟩ ⟨64, 0⟩), hears (.answer ⟨48, 0⟩)] ++ round ++
    [.perform (.control ⟨1⟩ .pause), hears (.control .resume)] ++ round ++
    [.perform (.control ⟨1⟩ .cancel)] ++ round

/-- A session on one of two linked nodes. -/
def newborn : Station Hub :=
  ⟨.fresh .standard Config.standard_usable,
    ((Hub.node 0).attach ((Hub.fresh 2).connect 0 ⟨1⟩ 1 ⟨0⟩)).2⟩

/-- The call rings, runs, pauses, runs again, is over and is gone; that it begins to run is a
step of its life, and so it is by the friend's answer. -/
theorem lifeStep_of_fullLife :
    ((newborn.history (Hub.node 0) fullLife).map fun change =>
        (change.after.get? ⟨1⟩).map Call.state) =
      some .ringing :: List.replicate 3 (some (.established ⟨true, false⟩)) ++
        some .paused :: List.replicate 3 (some (.established ⟨true, false⟩)) ++
        [some .ended, some .ended, none] ∧
    ∃ change ∈ newborn.history (Hub.node 0) fullLife, ∃ call after,
      call.state = .ringing ∧ after.state.isEstablished = true ∧
      LifeStep ⟨1⟩ change.cause (some call) (some after) ∧ after.direction = call.direction := by
  have hattach : Session.attach (Hub.node 0) .standard ((Hub.fresh 2).connect 0 ⟨1⟩ 1 ⟨0⟩) =
      (.ok newborn.session, newborn.state) :=
    Session.attach_of_usable Config.standard_usable rfl
  obtain ⟨-, hsteps⟩ := lifeStep_of_run hattach fullLife
  refine ⟨by decide, ?_⟩
  have hfound : ∃ change ∈ newborn.history (Hub.node 0) fullLife,
      ∃ call ∈ change.before.get? ⟨1⟩, ∃ after ∈ change.after.get? ⟨1⟩,
        call.state = .ringing ∧ after.state.isEstablished = true := by
    decide
  obtain ⟨change, hmem, call, hcall, after, hafter, hringing, hestablished⟩ := hfound
  obtain ⟨hstep, hbefore⟩ := hsteps change hmem ⟨1⟩
  have hlive : call.isLive = true := by simp [Call.isLive, hringing, CallState.isTerminal]
  obtain ⟨-, hdirection, -⟩ := (hbefore call hcall).1 hlive after hafter
  rw [hcall, hafter] at hstep
  exact ⟨change, hmem, call, after, hringing, hestablished, hstep, hdirection⟩

end Station

end PeerCalls
