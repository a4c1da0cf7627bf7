import Mathlib.Data.List.Induction
import PeerCalls.Proofs.Network.Codecs
import PeerCalls.Proofs.Session.Station
import PeerCalls.Proofs.Session.Steps

/-!
# Prepared codecs belong to a call

Codecs are released when the call they belong to leaves the registry, so they
must not be prepared for a friend without an entry.  `Registry.Covers` says that
every friend with prepared codecs has an entry, over or not.

Every operation keeps this, with one exception.  Placing a call replaces an entry
that is over, and takes the new entry out again if the invitation cannot be
pushed.  If the codecs of the replaced call were not released yet, nothing will
release them any more.  `Station.Leaks` describes exactly these calls, and
`registered_iff_no_leak` says that a run is without them if and only if every
friend with prepared codecs has an entry all along the run.
-/

namespace PeerCalls

namespace Registry

/-- Every friend with prepared codecs has an entry. -/
def Covers (registry : Registry) (prepared : Friend → Prop) : Prop :=
  ∀ friend, prepared friend → (registry.get? friend).isSome

variable {registry : Registry} {prepared later : Friend → Prop}

theorem Covers.mono (h : registry.Covers prepared)
    (hle : ∀ friend, later friend → prepared friend) :
    registry.Covers later :=
  fun friend hlater => h friend (hle friend hlater)

theorem Covers.set (h : registry.Covers prepared) (call : Call) :
    (registry.set call).Covers prepared :=
  fun friend hprepared => isSome_get?_set call (h friend hprepared)

end Registry

/-- The calls that an operation leaves cover the codecs that it leaves prepared. -/
def Outcome.Covers {σ α : Type} (prepared : σ → Friend → Prop) (outcome : Outcome σ α) : Prop :=
  outcome.session.registry.Covers (prepared outcome.network)

namespace Session

variable {σ : Type} {network : Network σ} {prepared : σ → Friend → Prop}
variable (tracks : network.TracksCodecs prepared) {session : Session} {state : σ}
include tracks

/-! ## Operations other than placing a call -/

theorem covers_answer (h : session.registry.Covers (prepared state)) (friend : Friend)
    (rates : Rates) :
    (session.answer network state friend rates).Covers prepared := by
  rcases answer_cases network session state friend rates with
    ⟨_, houtcome⟩ | ⟨call, hcall, ⟨cause, after, hopen, houtcome⟩ | ⟨opened, hopen,
      ⟨cause, after, hpush, houtcome⟩ | ⟨after, hpush, houtcome⟩⟩⟩
  · rw [houtcome]
    exact h
  · rw [houtcome]
    refine h.mono fun other hprepared => ?_
    rcases tracks.of_openMedia hopen hprepared with hbefore | ⟨hok, -⟩
    · exact hbefore
    · cases hok
  · -- the codecs that were prepared for the friend are released again
    rw [houtcome]
    refine h.mono fun other hprepared => ?_
    obtain ⟨hafter, hother⟩ := (tracks.closeMedia friend after other).mp hprepared
    have hopened : prepared opened other := (tracks.of_sendSignal hpush other).mp hafter
    rcases tracks.of_openMedia hopen hopened with hbefore | ⟨-, hfriend⟩
    · exact hbefore
    · exact absurd hfriend hother
  · have hfriend : (call.answered rates).friend = friend :=
      (Call.friend_answered call rates).trans
        (Registry.friend_of_live? (answerable_eq_ok hcall).2.2.1)
    rw [houtcome]
    intro other hprepared
    change ((session.setCall (call.answered rates)).registry.get? other).isSome
    have hopened : prepared opened other := (tracks.of_sendSignal hpush other).mp hprepared
    rcases tracks.of_openMedia hopen hopened with hbefore | ⟨-, rfl⟩
    · exact h.set _ other hbefore
    · rw [registry_setCall, Registry.get?_set, if_pos hfriend]
      rfl

theorem covers_control (h : session.registry.Covers (prepared state)) (friend : Friend)
    (command : Control) :
    (session.control network state friend command).Covers prepared := by
  rcases control_cases network session state friend command with
    ⟨_, houtcome⟩ | ⟨_, -, ⟨_, after, -, hpush, houtcome⟩ |
      ⟨_, after, obeyed, hpush, -, -, houtcome⟩⟩
  · rw [houtcome]
    exact h
  · rw [houtcome]
    exact h.mono fun other => (tracks.of_sendSignal hpush other).mp
  · rw [houtcome]
    exact (h.set obeyed).mono fun other => (tracks.of_sendSignal hpush other).mp

theorem prepared_linkCarries (state : σ) (friend : Friend) (kind : MediaKind) (rate : UInt32)
    (force : Bool) (other : Friend) :
    prepared (linkCarries network state friend kind rate force).2 other ↔ prepared state other := by
  unfold linkCarries
  split
  · exact Iff.rfl
  · exact tracks.linkStable friend kind rate state other

theorem covers_setRate (h : session.registry.Covers (prepared state)) (friend : Friend)
    (kind : MediaKind) (rate : UInt32) (force : Bool) :
    (session.setRate network state friend kind rate force).Covers prepared := by
  have hcarries := prepared_linkCarries tracks state friend kind rate force
  rcases setRate_cases network session state friend kind rate force with
    ⟨_, houtcome⟩ | ⟨call, -, ⟨asked, hlink, houtcome⟩ | ⟨asked, hlink,
      ⟨_, after, hpush, houtcome⟩ | ⟨after, hpush, houtcome⟩⟩⟩
  · rw [houtcome]
    exact h
  all_goals
    rw [hlink] at hcarries
    rw [houtcome]
  · simp only [Outcome.Covers, reporting, registry_dispatch]
    exact h.mono fun other => (hcarries other).mp
  all_goals
    have hkept : ∀ other, prepared after other → prepared state other := fun other hprepared =>
      (hcarries other).mp ((tracks.of_sendSignal hpush other).mp hprepared)
  · exact h.mono hkept
  · simp only [Outcome.Covers, reporting, registry_dispatch, registry_setCall]
    exact (h.set _).mono hkept

theorem covers_sendFrame (h : session.registry.Covers (prepared state)) (friend : Friend)
    (payload : Payload) :
    (session.sendFrame network state friend payload).Covers prepared := by
  rw [Outcome.Covers, session_sendFrame]
  refine h.mono fun other hprepared => ?_
  unfold sendFrame at hprepared
  split at hprepared
  · exact hprepared
  · rename_i owned _
    have hpushed := tracks.sendMedia friend owned state other
    split at hprepared <;> rename_i heq <;> rw [heq] at hpushed <;> exact hpushed.mp hprepared

theorem prepared_release (friends : List Friend) (other : Friend) :
    prepared (friends.foldl (fun state friend => network.closeMedia friend state) state) other ↔
      prepared state other ∧ other ∉ friends := by
  induction friends generalizing state with
  | nil => simp
  | cons friend friends ih =>
      rw [List.foldl_cons, ih, tracks.closeMedia, List.mem_cons]
      tauto

/-- A round releases the codecs of the calls that it reaps. -/
theorem covers_round (h : session.registry.Covers (prepared state)) :
    (session.round network state).Covers prepared := by
  have htaken : (session.taken network state).1.registry.Covers
      (prepared (session.taken network state).2) := by
    refine Progress.takeInbound_induction
      (P := fun progress state => progress.registry.Covers (prepared state))
      (fun progress state after hcovers hpoll => ?_)
      (fun progress state item after hcovers hpoll => ?_) _ h
    · exact hcovers.mono fun other => (tracks.of_poll hpoll other).mp
    · have hlater : progress.registry.Covers (prepared after) :=
        hcovers.mono fun other => (tracks.of_poll hpoll other).mp
      rcases Progress.registry_of_minds (Progress.minds_handle session.config item) progress with
        hsame | ⟨call, -, hset⟩
      · rw [hsame]
        exact hlater
      · rw [hset]
        exact hlater.set call
  have hchecked : (session.checked network state).registry.Covers
      (prepared (session.taken network state).2) := by
    refine Progress.checkConnectivity_induction
      (P := fun progress => progress.registry.Covers (prepared (session.taken network state).2))
      (fun progress friend hcovers => ?_) htaken
    rcases Progress.registry_of_minds
      (Progress.minds_checkFriend friend network (session.taken network state).2) progress with
      hsame | ⟨call, -, hset⟩
    · rw [hsame]
      exact hcovers
    · rw [hset]
      exact hcovers.set call
  intro friend hprepared
  rw [registry_round, Registry.get?_reap]
  rw [round_eq] at hprepared
  obtain ⟨hbefore, hunfinished⟩ := (prepared_release tracks _ friend).mp hprepared
  obtain ⟨call, hget⟩ := Option.isSome_iff_exists.mp (hchecked friend hbefore)
  -- the codecs were kept, so the call is not over and its entry was kept as well
  have hlive : call.isLive = true := by
    by_contra hover
    exact hunfinished (Registry.mem_finished_iff.mpr ⟨call, hget, hover⟩)
  rw [Registry.live?_eq_some_iff.mpr ⟨hget, hlive⟩]
  rfl

theorem prepared_close (hopen : session.closed = false) (other : Friend) :
    prepared (session.close network state).network other ↔
      prepared state other ∧ session.call? other = none := by
  have hreleased : ∀ (calls : List Call) (state : σ),
      prepared (calls.foldl (Call.release network) state) other ↔
        prepared state other ∧ other ∉ calls.map Call.friend := by
    intro calls
    induction calls with
    | nil => simp
    | cons call calls ih =>
        intro state
        have htold : prepared (Call.release network state call) other ↔
            prepared state other ∧ other ≠ call.friend := by
          unfold Call.release
          rw [tracks.closeMedia]
          split
          · rw [tracks.sendSignal]
          · exact Iff.rfl
        rw [List.foldl_cons, ih, htold, List.map_cons, List.mem_cons]
        tauto
  -- every entry is drained, so what stays prepared has no entry
  have hnone : session.call? other = none ↔ other ∉ session.registry.friends := by
    rw [Registry.mem_friends_iff, Option.not_isSome_iff_eq_none, call?]
  have hclosed : ¬ session.closed = true := Bool.eq_false_iff.mp hopen
  rw [hnone, close, if_neg hclosed, Registry.drain]
  change prepared (network.detach _) other ↔ _
  rw [tracks.detach]
  exact hreleased session.registry.calls state

/-! ## Placing a call -/

/-- Placing a call uncovers the friend's codecs exactly if they were prepared and the
invitation cannot be pushed. -/
theorem covers_call_iff (h : session.registry.Covers (prepared state)) (friend : Friend)
    (rates : Rates) :
    (session.call network state friend rates).Covers prepared ↔
      ¬ (prepared state friend ∧
        ∃ cause, (session.call network state friend rates).answer = .error (.signaling cause)) := by
  rcases call_cases network session state friend rates with
    ⟨refusal, hrefusal, houtcome⟩ | ⟨-, cause, after, hpush, houtcome⟩ |
      ⟨-, after, hpush, houtcome⟩
  · rw [houtcome]
    have hcause : ∀ cause, refusal ≠ .signaling cause := by
      rintro cause rfl
      exact callRefusal?_ne_signaling cause hrefusal
    simp only [Outcome.Covers, Except.error.injEq, hcause, exists_false, and_false,
      not_false_eq_true, iff_true]
    exact h
  · -- the entry is gone, and with it whatever it replaced
    rw [houtcome]
    have hpushed := tracks.of_sendSignal hpush
    simp only [Except.error.injEq, CallError.signaling.injEq, exists_eq', and_true]
    constructor
    · intro hcovers hprepared
      have hentry := hcovers friend ((hpushed friend).mpr hprepared)
      rw [Registry.get?_remove, if_pos rfl] at hentry
      cases hentry
    · intro hreleased other hprepared
      have hbefore : prepared state other := (hpushed other).mp hprepared
      have hne : other ≠ friend := by
        rintro rfl
        exact hreleased hbefore
      have hother : (Call.outgoing friend rates).friend ≠ other := Ne.symm hne
      rw [Registry.get?_remove, if_neg hne, Registry.get?_set_of_ne _ hother]
      exact h other hbefore
  · rw [houtcome]
    simp only [reduceCtorEq, exists_false, and_false, not_false_eq_true, iff_true]
    exact (h.set _).mono fun other => (tracks.of_sendSignal hpush other).mp

end Session

end PeerCalls
