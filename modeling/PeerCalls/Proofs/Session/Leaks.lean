import PeerCalls.Proofs.Call.Evolution
import PeerCalls.Proofs.Session.Codecs

/-!
# When codecs leak

A station is registered when every friend with prepared codecs has an entry in
the registry.  One move of a registered station leaves a registered station
unless it leaks, and a move that leaks does not.  The run theorem follows by
induction on the prefixes of the run.
-/

namespace PeerCalls.Station

variable {σ : Type} {network : Network σ} {prepared : σ → Friend → Prop}

/-- Every friend with prepared codecs has an entry. -/
def Registered (prepared : σ → Friend → Prop) (station : Station σ) : Prop :=
  station.session.registry.Covers (prepared station.state)

/-- The move calls a friend whose codecs are still prepared, and the invitation cannot be
pushed. -/
def Leaks (network : Network σ) (prepared : σ → Friend → Prop) (station : Station σ)
    (move : Move σ) : Prop :=
  ∃ friend rates cause, move = .perform (.call friend rates) ∧ prepared station.state friend ∧
    (station.session.call network station.state friend rates).answer = .error (.signaling cause)

/-! ## One move -/

theorem registered_perform (tracks : network.TracksCodecs prepared) {station : Station σ}
    (h : station.Registered prepared) {command : Command}
    (hcommand : ∀ friend rates, command ≠ .call friend rates) :
    (station.after network (.perform command)).Registered prepared := by
  have hcovers : station.session.registry.Covers (prepared station.state) := h
  cases command with
  | call friend rates => exact absurd rfl (hcommand friend rates)
  | answer friend rates => exact Session.covers_answer tracks hcovers friend rates
  | control friend command => exact Session.covers_control tracks hcovers friend command
  | setRate friend kind rate force =>
      exact Session.covers_setRate tracks hcovers friend kind rate force
  | sendFrame friend payload => exact Session.covers_sendFrame tracks hcovers friend payload
  | iterate =>
      rcases Session.iterate_cases network station.session station.state with
        houtcome | ⟨-, -, houtcome⟩
      · simp only [Registered, after, Session.perform, houtcome]
        exact hcovers
      · simp only [Registered, after, Session.perform, houtcome]
        exact Session.covers_round tracks hcovers
  | close =>
      cases hclosed : station.session.closed with
      | true =>
          obtain ⟨reply, listener, hperform⟩ :=
            Session.perform_of_closed network hclosed station.state .close
          simpa only [Registered, after, hperform] using hcovers
      | false =>
          -- whatever was covered is released, so nothing is left to be covered
          intro friend hprepared
          have hleft := (Session.prepared_close tracks hclosed friend).mp hprepared
          have hentry := hcovers friend hleft.1
          rw [show station.session.registry.get? friend = none from hleft.2] at hentry
          cases hentry
  | listen listener => exact hcovers

/-- A move of a registered station leaves it registered unless the move leaks. -/
theorem registered_after_iff (tracks : network.TracksCodecs prepared) {station : Station σ}
    (h : station.Registered prepared) {move : Move σ}
    (drifts : ∀ change, move = .drift change →
      ∀ state friend, prepared (change state) friend ↔ prepared state friend) :
    (station.after network move).Registered prepared ↔ ¬ station.Leaks network prepared move := by
  by_cases hcall : ∃ friend rates, move = .perform (.call friend rates)
  · obtain ⟨friend, rates, rfl⟩ := hcall
    have hplaced := Session.covers_call_iff tracks h friend rates
    constructor
    · rintro hafter ⟨_, _, cause, ⟨⟩, hprepared, hanswer⟩
      exact hplaced.mp hafter ⟨hprepared, cause, hanswer⟩
    · intro hsafe
      refine hplaced.mpr fun hleak => ?_
      obtain ⟨hprepared, cause, hanswer⟩ := hleak
      exact hsafe ⟨friend, rates, cause, rfl, hprepared, hanswer⟩
  · have hsafe : ¬ station.Leaks network prepared move := by
      rintro ⟨friend, rates, -, hmove, -⟩
      exact hcall ⟨friend, rates, hmove⟩
    refine iff_of_true ?_ hsafe
    cases move with
    | perform command =>
        refine registered_perform tracks h fun friend rates heq => hcall ⟨friend, rates, ?_⟩
        rw [heq]
    | deliver =>
        simp only [after]
        split
        · rename_i step session hadvance
          rw [Registered, Session.advance_eq hadvance]
          exact h
        · exact h
    | drift change =>
        exact h.mono fun friend => (drifts change rfl station.state friend).mp

/-- Closing leaves no codecs prepared exactly if the station was registered. -/
theorem registered_iff_released_by_close (tracks : network.TracksCodecs prepared)
    {station : Station σ}
    (hclosed : station.session.closed = true → station.session.registry = .empty) :
    station.Registered prepared ↔
      ∀ friend, ¬ prepared (station.after network (.perform .close)).state friend := by
  cases hcase : station.session.closed with
  | true =>
      obtain ⟨reply, listener, hperform⟩ :=
        Session.perform_of_closed network hcase station.state .close
      simp [Registered, Registry.Covers, after, hperform, hclosed hcase]
  | false =>
      have hleft : ∀ friend, prepared (station.after network (.perform .close)).state friend ↔
          prepared station.state friend ∧ station.session.call? friend = none :=
        Session.prepared_close tracks hcase
      constructor
      · intro h friend hprepared
        obtain ⟨hbefore, hnone⟩ := (hleft friend).mp hprepared
        have hentry := h friend hbefore
        rw [show station.session.registry.get? friend = none from hnone] at hentry
        cases hentry
      · intro h friend hprepared
        by_contra hentry
        exact h friend ((hleft friend).mpr ⟨hprepared, Option.not_isSome_iff_eq_none.mp hentry⟩)

/-! ## Runs -/

/-- Every friend with prepared codecs has an entry all along a run if and only if no
call of the run leaks; and closing after the run leaves no codecs prepared if and
only if every friend with prepared codecs has an entry by then. -/
theorem registered_iff_no_leak (tracks : network.TracksCodecs prepared) {config : Config}
    {state opened : σ} {session : Session}
    (hattach : Session.attach network config state = (.ok session, opened))
    (hnothing : ∀ friend, ¬ prepared state friend) {moves : List (Move σ)}
    (drifts : ∀ change, .drift change ∈ moves →
      ∀ state friend, prepared (change state) friend ↔ prepared state friend) :
    ((∀ before, before <+: moves →
        ((⟨session, opened⟩ : Station σ).run network before).Registered prepared) ↔
      ∀ before move, before ++ [move] <+: moves →
        ¬ ((⟨session, opened⟩ : Station σ).run network before).Leaks network prepared move) ∧
    (((⟨session, opened⟩ : Station σ).run network moves).Registered prepared ↔
      ∀ friend, ¬ prepared (((⟨session, opened⟩ : Station σ).run network moves).after network
        (.perform .close)).state friend) := by
  obtain ⟨usable, rfl, hopened⟩ := Session.attach_eq_ok hattach
  have hstart : ∀ friend, ¬ prepared opened friend := by
    intro friend hprepared
    have hkept := tracks.attach state friend
    rw [hopened] at hkept
    exact hnothing friend (hkept.mp hprepared)
  have hdrift : ∀ before move, before ++ [move] <+: moves → ∀ change, move = .drift change →
      ∀ state friend, prepared (change state) friend ↔ prepared state friend := by
    rintro before move hwithin change rfl
    exact drifts change (hwithin.subset (by simp))
  refine ⟨⟨fun h before move hwithin => ?_, fun h before => ?_⟩, ?_⟩
  · have hbefore := h before ((List.prefix_append before [move]).trans hwithin)
    have hafter := h (before ++ [move]) hwithin
    rw [run_concat] at hafter
    exact (registered_after_iff tracks hbefore (hdrift before move hwithin)).mp hafter
  · induction before using List.reverseRecOn with
    | nil => exact fun _ friend hprepared => absurd hprepared (hstart friend)
    | append_singleton before move ih =>
        intro hwithin
        have hbefore := ih ((List.prefix_append before [move]).trans hwithin)
        rw [run_concat]
        exact (registered_after_iff tracks hbefore (hdrift before move hwithin)).mpr
          (h before move hwithin)
  · exact registered_iff_released_by_close tracks (registry_of_closed rfl moves)

/-- A call is answered, hung up and placed again before the next round; the new
invitation cannot be pushed. -/
def leakingMoves : List (Move (Scripted Hub)) :=
  let friend : Friend := ⟨1⟩
  [.drift fun state =>
      { state with network := ((Hub.node 1).sendSignal ⟨0⟩ (.invite ⟨48, 0⟩) state.network).2 },
    .perform .iterate, .deliver, .deliver, .perform (.answer friend ⟨48, 0⟩),
    .perform (.control friend .cancel),
    .drift fun state => { state with planned := { state.planned with signal := [.queueFull] } },
    .perform (.call friend ⟨48, 0⟩)]

/-- The first of two linked nodes, with no failure planned yet. -/
def linkedPair : Scripted Hub := ⟨(Hub.fresh 2).connect 0 ⟨1⟩ 1 ⟨0⟩, .none⟩

def leakingStart : Station (Scripted Hub) :=
  ⟨.fresh .standard Config.standard_usable, ((Hub.node 0).scripted.attach linkedPair).2⟩

def leakingRun : Station (Scripted Hub) := leakingStart.run (Hub.node 0).scripted leakingMoves

/-- Whether the first node has codecs prepared. -/
def firstPrepared (state : Scripted Hub) (friend : Friend) : Prop :=
  (state.network.get 0).hasOpenMedia friend = true

theorem unregistered_leakingRun :
    firstPrepared leakingRun.state ⟨1⟩ ∧ leakingRun.session.call? ⟨1⟩ = none ∧
      firstPrepared (leakingRun.after (Hub.node 0).scripted (.perform .close)).state ⟨1⟩ := by
  unfold firstPrepared
  decide

theorem leakingMoves_keep_codecs : ∀ change, Move.drift change ∈ leakingMoves →
    ∀ state friend, firstPrepared (change state) friend ↔ firstPrepared state friend := by
  intro change hmem state friend
  simp only [leakingMoves, List.mem_cons, Move.drift.injEq, reduceCtorEq, List.not_mem_nil,
    false_or, or_false] at hmem
  rcases hmem with rfl | rfl
  · have hkept := state.network.field_push (fun node => node.hasOpenMedia friend)
      (fun _ _ => rfl) 1 ⟨0⟩ (fun asSeen => .signal asSeen (.invite ⟨48, 0⟩)) 0
    exact iff_of_eq (congrArg (· = true) hkept)
  · exact Iff.rfl

/-- The codecs stay prepared without an entry, also after the session is closed. -/
theorem not_registered_leakingRun :
    Session.attach (Hub.node 0).scripted .standard linkedPair =
        (.ok leakingStart.session, leakingStart.state) ∧
      ¬ leakingRun.Registered firstPrepared ∧
      ∃ friend, firstPrepared
        (leakingRun.after (Hub.node 0).scripted (.perform .close)).state friend := by
  obtain ⟨hprepared, hnone, hclosed⟩ := unregistered_leakingRun
  refine ⟨Session.attach_of_usable Config.standard_usable rfl, fun h => ?_, ⟨1⟩, hclosed⟩
  have hentry : (leakingRun.session.call? ⟨1⟩).isSome := h ⟨1⟩ hprepared
  rw [hnone] at hentry
  cases hentry

/-- A call of the run leaks. -/
theorem leak_in_leakingMoves :
    ∃ before move, before ++ [move] <+: leakingMoves ∧
      (leakingStart.run (Hub.node 0).scripted before).Leaks (Hub.node 0).scripted firstPrepared
        move := by
  have hattach : Session.attach (Hub.node 0).scripted .standard linkedPair =
      (.ok leakingStart.session, leakingStart.state) :=
    Session.attach_of_usable Config.standard_usable rfl
  have htracks : (Hub.node 0).scripted.TracksCodecs firstPrepared :=
    (Hub.tracksCodecs_node 0).scripted
  have hruns := registered_iff_no_leak htracks hattach (fun friend => Bool.false_ne_true)
    leakingMoves_keep_codecs
  by_contra hnone
  have hsafe : ∀ before move, before ++ [move] <+: leakingMoves →
      ¬ (leakingStart.run (Hub.node 0).scripted before).Leaks (Hub.node 0).scripted
        firstPrepared move :=
    fun before move hwithin hleak => hnone ⟨before, move, hwithin, hleak⟩
  obtain ⟨hprepared, hentry, -⟩ := unregistered_leakingRun
  have hregistered : leakingRun.Registered firstPrepared :=
    hruns.1.mpr hsafe leakingMoves List.prefix_rfl
  have hsome : (leakingRun.session.call? ⟨1⟩).isSome := hregistered ⟨1⟩ hprepared
  rw [hentry] at hsome
  cases hsome

end PeerCalls.Station
