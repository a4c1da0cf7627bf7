import PeerCalls.Loopback
import PeerCalls.Network.Scripted
import PeerCalls.Proofs.Session.Station
import PeerCalls.Proofs.Session.Steps

/-!
# What a failed call takes away

A call that is refused leaves the session as it was.  A call whose invitation cannot be
pushed has been entered already, and is taken out again.  If it had taken the place of an
old call with the friend, that one does not come back.

This is all the harm there is.  The old call was over, and what is over plays no part in a
round, so the next round does the same with the old call and without it; only the friend
is not reaped if nothing else happens to the friend until then.
-/

namespace PeerCalls.Session

variable {σ : Type} {network : Network σ} {session : Session} {state : σ} {friend : Friend}
  {rates : Rates} {error : CallError}

/-- The friends whose codecs a round releases. -/
def reaped (network : Network σ) (session : Session) (state : σ) : List Friend :=
  (session.checked network state).registry.finished

/-- The invitation could not be pushed, and there was an old call with the friend. -/
def Loses (session : Session) (friend : Friend) (error : CallError) : Prop :=
  (∃ cause, error = .signaling cause) ∧ (session.call? friend).isSome

/-- The session without the entry of a friend. -/
def without (session : Session) (friend : Friend) : Session :=
  { session with registry := session.registry.remove friend }

@[simp] theorem closed_without (session : Session) (friend : Friend) :
    (session.without friend).closed = session.closed := rfl

@[simp] theorem isIterating_without (session : Session) (friend : Friend) :
    (session.without friend).isIterating = session.isIterating := rfl

@[simp] theorem call?_without (session : Session) (friend : Friend) :
    (session.without friend).call? friend = none := by
  rw [call?, without, Registry.get?_remove, if_pos rfl]

/-! ## The session after a failed call -/

theorem without_of_call?_eq_none (h : session.call? friend = none) :
    session.without friend = session := by
  have hregistry : session.registry.remove friend = session.registry := by
    refine Registry.ext_get? fun other => ?_
    rw [Registry.get?_remove]
    split
    · rename_i hother
      rw [hother]
      exact h.symm
    · rfl
  rw [without, hregistry]

/-- A failed call either leaves the session as it was, or takes an old call with the friend
out of an open session. -/
theorem failed_call_cases
    (hfails : (session.call network state friend rates).answer = .error error) :
    ((session.call network state friend rates).session = session ∧ ¬ session.Loses friend error) ∨
    ((session.call network state friend rates).session = session.without friend ∧
      session.Loses friend error ∧ session.registry.live? friend = none) := by
  rcases call_cases network session state friend rates with
    ⟨refusal, hrefusal, houtcome⟩ | ⟨hnone, cause, after, -, houtcome⟩ | ⟨-, after, -, houtcome⟩
  all_goals
    rw [houtcome] at hfails ⊢
    cases hfails
  · refine Or.inl ⟨rfl, fun hloses => ?_⟩
    obtain ⟨⟨cause, rfl⟩, -⟩ := hloses
    exact callRefusal?_ne_signaling cause hrefusal
  · obtain ⟨-, -, hlive, -, -⟩ := callRefusal?_eq_none_iff.mp hnone
    have hundone : (session.registry.set (.outgoing friend rates)).remove friend =
        session.registry.remove friend := Registry.remove_set session.registry rfl
    simp only [hundone]
    cases hentry : session.call? friend with
    | none =>
        refine Or.inl ⟨without_of_call?_eq_none hentry, fun hloses => ?_⟩
        have hsome := hloses.2
        rw [hentry] at hsome
        cases hsome
    | some old => exact Or.inr ⟨rfl, ⟨⟨cause, rfl⟩, by rw [hentry]; rfl⟩, hlive⟩

/-! ## The next round -/

section Without

variable (h : session.registry.live? friend = none)

include h

/-- To lose what is over makes no difference to the stages of a round. -/
theorem alike_without :
    Alike friend ⟨session.registry, []⟩ ⟨(session.without friend).registry, []⟩ where
  events := rfl
  live someone := by
    simp only [without, Registry.live?_remove]
    split
    · rename_i hsame
      rw [hsame, h]
    · rfl
  others someone hne := by rw [without, Registry.get?_remove, if_neg hne]

theorem taken_without (network : Network σ) (state : σ) :
    Alike friend (session.taken network state).1 ((session.without friend).taken network state).1 ∧
      ((session.without friend).taken network state).2 = (session.taken network state).2 :=
  (alike_without h).takeInbound network session.config _ state

theorem checked_without (network : Network σ) (state : σ) :
    Alike friend (session.checked network state)
      ((session.without friend).checked network state) := by
  obtain ⟨htaken, hpolled⟩ := taken_without h network state
  rw [checked, checked, hpolled]
  exact htaken.checkConnectivity network _

/-- A round gives the same wait and leaves the same session with the same events to deliver,
whether or not an old call was lost before. -/
theorem round_without (network : Network σ) (state : σ) :
    ((session.without friend).round network state).answer = (session.round network state).answer ∧
      ((session.without friend).round network state).session =
        (session.round network state).session := by
  have halike := checked_without h network state
  have hkept := halike.reap
  constructor
  · simp only [round_eq, hkept]
    rfl
  · simp only [round_eq, requests, hkept, halike.events]
    rfl

theorem mem_reaped_without (network : Network σ) (state : σ) {other : Friend}
    (hother : other ≠ friend) :
    other ∈ (session.without friend).reaped network state ↔
      other ∈ session.reaped network state := by
  have hentry := (checked_without h network state).others other hother
  rw [reaped, reaped, Registry.mem_finished_iff, Registry.mem_finished_iff, hentry]

/-- While nothing is heard, a round leaves what is over as it is until it reaps. -/
theorem get?_checked_of_quiet {state : σ} (hquiet : (network.poll state).1 = none) :
    (session.checked network state).registry.get? friend = session.call? friend := by
  have htaken : (session.taken network state).1 = ⟨session.registry, []⟩ := by
    have hpoll : network.poll state = (none, (network.poll state).2) := Prod.ext hquiet rfl
    unfold taken
    cases session.config.inboundLimit.toNat with
    | zero => rfl
    | succ limit =>
        unfold Progress.takeInbound
        rw [hpoll]
  refine (Progress.checkConnectivity_induction
    (P := fun progress => progress.registry.live? friend = none ∧
      progress.registry.get? friend = session.call? friend)
    (fun progress someone hbefore => ?_) ?_).2
  · have hkept := Progress.get?_checkFriend_of_none network (session.taken network state).2
      hbefore.1 someone
    rw [Registry.live?, hkept]
    exact hbefore
  · rw [htaken]
    exact ⟨h, rfl⟩

/-- While nothing is heard, an old call is reaped. -/
theorem mem_reaped_iff_of_quiet {state : σ} (hquiet : (network.poll state).1 = none) :
    friend ∈ session.reaped network state ↔ (session.call? friend).isSome := by
  rw [reaped, Registry.mem_finished_iff, get?_checked_of_quiet h hquiet, Option.isSome_iff_exists]
  refine exists_congr fun call => and_iff_left_of_imp fun hcall => ?_
  exact Registry.live?_eq_none_iff.mp h call hcall

end Without

/-! ## What is lost -/

/-- Rounds of two sessions do the same, but for whether the friend is reaped. -/
structure SameRound (network : Network σ) (friend : Friend) (session left : Session) (state : σ) :
    Prop where
  wait : (left.iterate network state).answer = (session.iterate network state).answer
  after : (left.iterate network state).session = (session.iterate network state).session
  /-- Each round releases the codecs of the friends that it reaps. -/
  releases : ∃ polled,
    (session.iterate network state).network = (session.reaped network state).foldl
      (fun state friend => network.closeMedia friend state) polled ∧
    (left.iterate network state).network = (left.reaped network state).foldl
      (fun state friend => network.closeMedia friend state) polled
  reaps : ∀ other, other ≠ friend →
    (other ∈ left.reaped network state ↔ other ∈ session.reaped network state)

theorem SameRound.refl (friend : Friend) (hopen : session.closed = false)
    (hidle : session.isIterating = false) (state : σ) :
    SameRound network friend session session state where
  wait := rfl
  after := rfl
  releases := by
    rw [iterate_of_open network state hopen hidle]
    exact ⟨_, rfl, rfl⟩
  reaps _ _ := Iff.rfl

theorem sameRound_without (h : session.registry.live? friend = none)
    (hopen : session.closed = false) (hidle : session.isIterating = false) (state : σ) :
    SameRound network friend session (session.without friend) state := by
  have hround := round_without h network state
  have hiterate : (session.without friend).iterate network state =
      (session.without friend).round network state :=
    iterate_of_open network state (by rw [closed_without, hopen])
      (by rw [isIterating_without, hidle])
  rw [← iterate_of_open network state hopen hidle, ← hiterate] at hround
  refine ⟨hround.1, hround.2, ⟨(session.taken network state).2, ?_, ?_⟩,
    fun other => mem_reaped_without h network state⟩
  · rw [iterate_of_open network state hopen hidle]
    rfl
  · rw [hiterate, ← (taken_without h network state).2]
    rfl

/-- A failed call leaves the session as it was unless it loses an old call.  Then the next
round still does the same, but the friend whose old call was lost is not reaped, unless
something more is heard. -/
theorem unchanged_iff_of_failed_call (network : Network σ) {session : Session} {state : σ}
    {friend : Friend} {rates : Rates} {error : CallError}
    (hfails : (session.call network state friend rates).answer = .error error) :
    let left := (session.call network state friend rates).session
    (left = session ↔ ¬ session.Loses friend error) ∧
    (∀ other, other ≠ friend → left.call? other = session.call? other) ∧
    (∀ other, left.registry.live? other = session.registry.live? other) ∧
    ∀ later, session.closed = false → session.isIterating = false →
      SameRound network friend session left later ∧
      (session.Loses friend error → (network.poll later).1 = none →
        friend ∈ session.reaped network later ∧ friend ∉ left.reaped network later) := by
  intro left
  rcases failed_call_cases hfails with ⟨hsame, hkept⟩ | ⟨hlost, hloses, hlive⟩
  · have hleft : left = session := hsame
    rw [hleft]
    exact ⟨iff_of_true rfl hkept, fun _ _ => rfl, fun _ => rfl, fun later hopen hidle =>
      ⟨.refl friend hopen hidle later, fun hloses => absurd hloses hkept⟩⟩
  · have hleft : left = session.without friend := hlost
    have halike := alike_without hlive
    rw [hleft]
    refine ⟨iff_of_false (fun hsame => ?_) (not_not_intro hloses), halike.others, halike.live,
      fun later hopen hidle => ⟨sameRound_without hlive hopen hidle later,
        fun _ hquiet => ⟨?_, fun hmem => ?_⟩⟩⟩
    · have hentry := hloses.2
      rw [← hsame, call?_without] at hentry
      cases hentry
    · exact (mem_reaped_iff_of_quiet hlive hquiet).mpr hloses.2
    · have hlive' := (halike.live friend).trans hlive
      have hentry := (mem_reaped_iff_of_quiet hlive' hquiet).mp hmem
      rw [call?_without] at hentry
      cases hentry

/-! ## A call placed again too early -/

/-- A call is placed and hung up, and the next push is going to fail. -/
def hungUpMoves : List (Move (Scripted Hub)) :=
  [.perform (.call ⟨1⟩ ⟨48, 0⟩), .perform (.control ⟨1⟩ .cancel),
    .drift fun state => { state with planned := { state.planned with signal := [.queueFull] } }]

/-- The first of two linked nodes, with no failure planned yet. -/
def hungUpPair : Scripted Hub := ⟨(Hub.fresh 2).connect 0 ⟨1⟩ 1 ⟨0⟩, .none⟩

def hungUpStart : Station (Scripted Hub) :=
  ⟨.fresh .standard Config.standard_usable, ((Hub.node 0).scripted.attach hungUpPair).2⟩

def hungUpRun : Station (Scripted Hub) := hungUpStart.run (Hub.node 0).scripted hungUpMoves

/-- Where placing the call again leads. -/
def redialled : Outcome (Scripted Hub) (Except CallError Unit) :=
  hungUpRun.session.call (Hub.node 0).scripted hungUpRun.state ⟨1⟩ ⟨48, 0⟩

/-- The call that was hung up waits to be reaped; the call that fails takes it away, and the
next round reaps nobody. -/
theorem lost_by_redialling :
    Session.attach (Hub.node 0).scripted .standard hungUpPair =
        (.ok hungUpStart.session, hungUpStart.state) ∧
      redialled.answer = .error (.signaling .queueFull) ∧
      hungUpRun.session.callState? ⟨1⟩ = some .ended ∧
      redialled.session.callState? ⟨1⟩ = none ∧
      hungUpRun.session.reaped (Hub.node 0).scripted hungUpRun.state = [⟨1⟩] ∧
      redialled.session.reaped (Hub.node 0).scripted redialled.network = [] :=
  ⟨attach_of_usable Config.standard_usable rfl, by decide⟩

/-- The session is not what it was, but for the one friend the next round is. -/
theorem sameRound_after_redialling :
    redialled.session ≠ hungUpRun.session ∧
      SameRound (Hub.node 0).scripted ⟨1⟩ hungUpRun.session redialled.session redialled.network ∧
      (⟨1⟩ : Friend) ∉ redialled.session.reaped (Hub.node 0).scripted redialled.network := by
  have hfails : redialled.answer = .error (.signaling .queueFull) := rfl
  have hloses : hungUpRun.session.Loses ⟨1⟩ (.signaling .queueFull) :=
    ⟨⟨_, rfl⟩, by decide⟩
  obtain ⟨hsame, -, -, hrounds⟩ := unchanged_iff_of_failed_call (Hub.node 0).scripted hfails
  obtain ⟨hround, hmissing⟩ := hrounds redialled.network (by decide) (by decide)
  exact ⟨fun heq => hsame.mp heq hloses, hround, (hmissing hloses (by decide)).2⟩

end PeerCalls.Session
