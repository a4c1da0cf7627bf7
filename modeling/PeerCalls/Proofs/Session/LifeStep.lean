import PeerCalls.Proofs.Call.Coherence

/-!
# Steps in the life of a call

`LifeStep` says what one step of a session may do to the call with one friend, and which cause
it has to have for that.  A call is entered ringing where there is none, or one that is over; it
is answered by the side that was called; it pauses and resumes by a command; it ends or fails;
and it is taken away once it is over.  Nothing else becomes of a call.

The lemmas below go through the items and the checks of a round, its reaping, and the operations
of the application.  Each of them is such a step for every call of the registry, as a look at
its cases shows.  Only what a call resumes to is not seen there: it is what the call remembers,
which is a running state as long as calls are coherent.
-/

namespace PeerCalls

/-! ## Steps of a life -/

/-- What may change the calls of a session in one step. -/
inductive Cause where
  /-- The application does something other than a round. -/
  | operation (command : Command)
  /-- A round handles an inbound item. -/
  | item (item : Inbound)
  /-- A round checks whether the friend is there. -/
  | check (friend : Friend)
  /-- A round takes away what is over. -/
  | reap

/-- We give the friend a command, or the friend gives it to us. -/
def Cause.Commands (friend : Friend) (command : Control) (cause : Cause) : Prop :=
  cause = .operation (.control friend command) ∨ cause = .item (.signal friend (.control command))

/-- A live call goes on as another one between the same parties. -/
structure Call.Becomes (call after : Call) : Prop where
  live : call.isLive = true
  friend : after.friend = call.friend
  direction : after.direction = call.direction

/-- What a step may do to the call with a friend, by its cause. -/
inductive LifeStep (friend : Friend) : Cause → Option Call → Option Call → Prop where
  | kept (cause : Cause) (entry : Option Call) : LifeStep friend cause entry entry
  /-- Something of a live call changes, but not its state. -/
  | touched {cause : Cause} {call after : Call} (becomes : call.Becomes after)
      (state : after.state = call.state) : LifeStep friend cause (some call) (some after)
  /-- We call the friend, with whom we have no call, or one that is over. -/
  | placed {entry : Option Call} {rates : Rates} (vacant : Vacant entry) :
      LifeStep friend (.operation (.call friend rates)) entry (some (.outgoing friend rates))
  /-- The friend calls us, likewise. -/
  | rung {entry : Option Call} {rates : Rates} (vacant : Vacant entry) :
      LifeStep friend (.item (.signal friend (.invite rates))) entry
        (some (.incoming friend rates))
  /-- We answer a call of the friend. -/
  | answered {call after : Call} {rates : Rates} (becomes : call.Becomes after)
      (ringing : call.state = .ringing) (incoming : call.direction = .incoming)
      (established : after.state.isEstablished = true) :
      LifeStep friend (.operation (.answer friend rates)) (some call) (some after)
  /-- The friend answers a call of ours. -/
  | accepted {call after : Call} {rates : Rates} (becomes : call.Becomes after)
      (ringing : call.state = .ringing) (outgoing : call.direction = .outgoing)
      (established : after.state.isEstablished = true) :
      LifeStep friend (.item (.signal friend (.answer rates))) (some call) (some after)
  /-- We change a rate of a running call. -/
  | rated {call after : Call} {kind : MediaKind} {rate : UInt32} {force : Bool}
      (becomes : call.Becomes after) (established : call.state.isEstablished = true)
      (still : after.state.isEstablished = true) :
      LifeStep friend (.operation (.setRate friend kind rate force)) (some call) (some after)
  | paused {cause : Cause} {call after : Call} (commanded : cause.Commands friend .pause)
      (becomes : call.Becomes after) (established : call.state.isEstablished = true)
      (paused : after.state = .paused) : LifeStep friend cause (some call) (some after)
  | resumed {cause : Cause} {call after : Call} (commanded : cause.Commands friend .resume)
      (becomes : call.Becomes after) (paused : call.state = .paused)
      (established : after.state.isEstablished = true) :
      LifeStep friend cause (some call) (some after)
  /-- One side hangs up, or the friend is gone. -/
  | ended {cause : Cause} {call after : Call}
      (left : cause.Commands friend .cancel ∨ cause = .check friend)
      (becomes : call.Becomes after) (ended : after.state = .ended) :
      LifeStep friend cause (some call) (some after)
  /-- The friend answers what it was not asked, or is offline. -/
  | failed {cause : Cause} {call after : Call}
      (fault : (∃ rates, cause = .item (.signal friend (.answer rates))) ∨ cause = .check friend)
      (becomes : call.Becomes after) (failed : after.state = .failed) :
      LifeStep friend cause (some call) (some after)
  /-- A call that is over is taken away, by a round or by a new call that nobody hears of. -/
  | dropped {cause : Cause} {call : Call} (finished : call.isLive = false)
      (taken : cause = .reap ∨ ∃ rates, cause = .operation (.call friend rates)) :
      LifeStep friend cause (some call) none
  | closed {call : Call} : LifeStep friend (.operation .close) (some call) none

namespace LifeStep

variable {friend : Friend} {cause : Cause} {entry : Option Call} {call after : Call}

/-- The parties of a live call stay the same. -/
theorem parties (h : LifeStep friend cause (some call) (some after)) (hlive : call.isLive = true) :
    after.friend = call.friend ∧ after.direction = call.direction := by
  have hoccupied : ¬ Vacant (some call) := fun hvacant => hvacant call rfl hlive
  cases h with
  | kept => exact ⟨rfl, rfl⟩
  | placed vacant => exact absurd vacant hoccupied
  | rung vacant => exact absurd vacant hoccupied
  | touched becomes => exact ⟨becomes.friend, becomes.direction⟩
  | answered becomes => exact ⟨becomes.friend, becomes.direction⟩
  | accepted becomes => exact ⟨becomes.friend, becomes.direction⟩
  | rated becomes => exact ⟨becomes.friend, becomes.direction⟩
  | paused _ becomes => exact ⟨becomes.friend, becomes.direction⟩
  | resumed _ becomes => exact ⟨becomes.friend, becomes.direction⟩
  | ended _ becomes => exact ⟨becomes.friend, becomes.direction⟩
  | failed _ becomes => exact ⟨becomes.friend, becomes.direction⟩

/-- A live call that has been answered does not ring again. -/
theorem not_ringing (h : LifeStep friend cause (some call) (some after))
    (hlive : call.isLive = true) (hanswered : call.state ≠ .ringing) : after.state ≠ .ringing := by
  have hoccupied : ¬ Vacant (some call) := fun hvacant => hvacant call rfl hlive
  have hrunning : ∀ state : CallState, state.isEstablished = true → state ≠ .ringing := by
    rintro state hestablished rfl
    cases hestablished
  cases h with
  | kept => exact hanswered
  | placed vacant => exact absurd vacant hoccupied
  | rung vacant => exact absurd vacant hoccupied
  | touched _ state => rwa [state]
  | answered _ _ _ established => exact hrunning _ established
  | accepted _ _ _ established => exact hrunning _ established
  | rated _ _ still => exact hrunning _ still
  | paused _ _ _ paused => simp [paused]
  | resumed _ _ _ established => exact hrunning _ established
  | ended _ _ ended => simp [ended]
  | failed _ _ failed => simp [failed]

/-- A call that is over stays as it is until it is taken away or a new call takes its place. -/
theorem of_over (h : LifeStep friend cause (some call) entry) (hover : call.isLive = false) :
    entry = some call ∨ entry = none ∨
      ∃ rates, entry = some (.outgoing friend rates) ∨ entry = some (.incoming friend rates) := by
  have hnot : ∀ later, ¬ call.Becomes later := by
    intro later hbecomes
    rw [hbecomes.live] at hover
    cases hover
  cases h with
  | kept => exact Or.inl rfl
  | placed => exact Or.inr (Or.inr ⟨_, Or.inl rfl⟩)
  | rung => exact Or.inr (Or.inr ⟨_, Or.inr rfl⟩)
  | dropped => exact Or.inr (Or.inl rfl)
  | closed => exact Or.inr (Or.inl rfl)
  | touched becomes => exact absurd becomes (hnot _)
  | answered becomes => exact absurd becomes (hnot _)
  | accepted becomes => exact absurd becomes (hnot _)
  | rated becomes => exact absurd becomes (hnot _)
  | paused _ becomes => exact absurd becomes (hnot _)
  | resumed _ becomes => exact absurd becomes (hnot _)
  | ended _ becomes => exact absurd becomes (hnot _)
  | failed _ becomes => exact absurd becomes (hnot _)

end LifeStep

namespace Call

variable {call after : Call}

/-- A transition is between the same parties. -/
theorem becomes_of_after? {transition : Transition} (hlive : call.isLive = true)
    (h : call.after? transition = some after) : call.Becomes after := by
  refine ⟨hlive, friend_of_after? h, ?_⟩
  cases transition <;> simp only [after?] at h <;> grind [finish]

theorem becomes_withRate (hlive : call.isLive = true) (kind : MediaKind) (rate : UInt32) :
    call.Becomes (call.withRate kind rate) := by
  refine ⟨hlive, friend_withRate call kind rate, ?_⟩
  have hlive' : Call.isLive { call with rates := call.rates.set rate kind } = true := hlive
  cases h : Call.after? { call with rates := call.rates.set rate kind } .ratesChanged with
  | none => simp [withRate, h]
  | some later => simpa [withRate, h] using (becomes_of_after? hlive' h).direction

end Call

namespace Registry

variable {registry : Registry} {cause : Cause} {friend : Friend} {call entered : Call}

/-- Putting a call in is a step in the life of its friend's call, and of no other. -/
theorem lifeStep_set (hfriend : entered.friend = friend)
    (h : LifeStep friend cause (registry.get? friend) (some entered)) (other : Friend) :
    LifeStep other cause (registry.get? other) ((registry.set entered).get? other) := by
  subst hfriend
  by_cases hother : entered.friend = other
  · subst hother
    rwa [get?_set_self]
  · rw [get?_set_of_ne registry hother]
    exact .kept _ _

/-- So is putting in what a live call becomes. -/
theorem lifeStep_becomes (hlive : registry.live? friend = some call)
    (hbecomes : call.Becomes entered)
    (h : LifeStep friend cause (some call) (some entered)) (other : Friend) :
    LifeStep other cause (registry.get? other) ((registry.set entered).get? other) := by
  refine lifeStep_set (hbecomes.friend.trans (friend_of_live? hlive)) ?_ other
  rwa [get?_of_live? hlive]

/-- So is taking out what a call would have taken the place of, when nobody hears of the call. -/
theorem lifeStep_remove (hvacant : Vacant (registry.get? friend)) (rates : Rates)
    (other : Friend) :
    LifeStep other (.operation (.call friend rates)) (registry.get? other)
      ((registry.remove friend).get? other) := by
  rw [get?_remove]
  split
  · rename_i hfriend
    subst hfriend
    cases hentry : registry.get? other with
    | none => exact .kept _ _
    | some call =>
        rw [hentry] at hvacant
        exact .dropped (Bool.eq_false_iff.mpr (hvacant call rfl)) (Or.inr ⟨rates, rfl⟩)
  · exact .kept _ _

theorem lifeStep_reap (registry : Registry) (other : Friend) :
    LifeStep other .reap (registry.get? other) (registry.reap.2.get? other) := by
  rw [get?_reap, live?]
  cases registry.get? other with
  | none => exact .kept _ _
  | some call =>
      cases hlive : call.isLive with
      | true =>
          rw [Option.filter_some_pos hlive]
          exact .kept _ _
      | false =>
          rw [Option.filter_some_neg hlive]
          exact .dropped hlive (Or.inl rfl)

end Registry

/-! ## Steps of a round -/

namespace Progress

variable {config : Config} {progress : Progress} {friend : Friend} {cause : Cause}

/-- A transition on the friend's side is a step of the call, if it is one wherever it fits. -/
theorem lifeStep_transitioned {transition : Transition}
    (h : ∀ call after, progress.registry.live? friend = some call →
      call.after? transition = some after → LifeStep friend cause (some call) (some after))
    (other : Friend) :
    LifeStep other cause (progress.registry.get? other)
      ((progress.transitioned friend transition).registry.get? other) := by
  unfold transitioned
  split
  · exact .kept _ _
  · rename_i call hlive
    split
    · rename_i after hfits
      have hbecomes := Call.becomes_of_after? (Registry.isLive_of_live? hlive) hfits
      exact Registry.lifeStep_becomes hlive hbecomes (h call after hlive hfits) other
    · exact .kept _ _

/-- An item is a step in the life of each call, if the calls are coherent. -/
theorem lifeStep_handle
    (hcoherent : ∀ friend, ∀ call ∈ progress.registry.get? friend, call.Coherent config)
    (item : Inbound) (other : Friend) :
    LifeStep other (.item item) (progress.registry.get? other)
      ((progress.handle config item).registry.get? other) := by
  cases item with
  | media friend payload =>
      simp only [handle, framed]
      split <;> exact .kept _ _
  | signal friend signal =>
      cases signal with
      | invite rates =>
          simp only [handle, invited, Registry.create]
          cases hlive : progress.registry.live? friend with
          | none =>
              have hfree : progress.registry.isInCall friend = false :=
                Registry.isInCall_eq_false_iff.mpr hlive
              have hvacant := Registry.vacant_of_live? hlive
              simp only [Call.incoming, hfree]
              exact Registry.lifeStep_set rfl (.rung hvacant) other
          | some call =>
              have hbusy : progress.registry.isInCall friend = true := by
                rw [Registry.isInCall, hlive]
                rfl
              simp only [Call.incoming, hbusy]
              exact .kept _ _
      | answer rates =>
          simp only [handle, answered]
          split
          · exact .kept _ _
          · rename_i call hlive
            have hcall := Registry.isLive_of_live? hlive
            split
            · rename_i running hfits
              have hbecomes := Call.becomes_of_after? hcall hfits
              obtain ⟨hringing, houtgoing, rfl⟩ := Call.of_remoteAnswered hfits
              exact Registry.lifeStep_becomes hlive hbecomes
                (.accepted hbecomes hringing houtgoing rfl) other
            · have hbecomes := Call.becomes_of_after? hcall (Call.after?_fault hcall)
              have hfailed : call.faulted.state = .failed := by
                rw [Call.faulted_of_isLive hcall]
                rfl
              exact Registry.lifeStep_becomes hlive hbecomes
                (.failed (Or.inl ⟨rates, rfl⟩) hbecomes hfailed) other
      | control command =>
          cases command with
          | cancel =>
              refine lifeStep_transitioned (fun call after hlive hfits => ?_) other
              have hcall := Registry.isLive_of_live? hlive
              rw [Call.after?_cancel hcall] at hfits
              obtain rfl := Option.some.inj hfits
              exact .ended (Or.inl (Or.inr rfl))
                (Call.becomes_of_after? hcall (Call.after?_cancel hcall)) rfl
          | pause =>
              refine lifeStep_transitioned (fun call after hlive hfits => ?_) other
              have hbecomes := Call.becomes_of_after? (Registry.isLive_of_live? hlive) hfits
              obtain ⟨hestablished, rfl⟩ := Call.of_pause hfits
              exact .paused (Or.inr rfl) hbecomes hestablished rfl
          | resume =>
              refine lifeStep_transitioned (fun call after hlive hfits => ?_) other
              have hbecomes := Call.becomes_of_after? (Registry.isLive_of_live? hlive) hfits
              have hremembers := hcoherent friend call (Registry.get?_of_live? hlive)
              obtain ⟨hpaused, rfl⟩ := Call.of_resume hfits
              refine .resumed (Or.inr rfl) hbecomes hpaused ?_
              rw [hremembers.paused hpaused]
              rfl
          | muteAudio => exact .kept _ _
          | unmuteAudio => exact .kept _ _
          | hideVideo => exact .kept _ _
          | showVideo => exact .kept _ _
      | bitRate kind rate =>
          simp only [handle, announced]
          split
          · exact .kept _ _
          · rename_i call hlive
            have hbecomes : call.Becomes (call.withPeerRate kind rate) :=
              ⟨Registry.isLive_of_live? hlive, rfl, rfl⟩
            exact Registry.lifeStep_becomes hlive hbecomes (.touched hbecomes rfl) other

/-- The check of a friend is a step in the life of each call. -/
theorem lifeStep_checkFriend {σ : Type} (network : Network σ) (state : σ) (progress : Progress)
    (friend other : Friend) :
    LifeStep other (.check friend) (progress.registry.get? other)
      ((checkFriend network state progress friend).registry.get? other) := by
  unfold checkFriend
  split
  · exact .kept _ _
  · rename_i call hlive
    have hcall := Registry.isLive_of_live? hlive
    split
    · have hbecomes := Call.becomes_of_after? hcall (Call.after?_cancel hcall)
      simp only [Call.after?_cancel hcall]
      exact Registry.lifeStep_becomes hlive hbecomes (.ended (Or.inr rfl) hbecomes rfl) other
    · split
      · have hbecomes := Call.becomes_of_after? hcall (Call.after?_fault hcall)
        have hfailed : call.faulted.state = .failed := by
          rw [Call.faulted_of_isLive hcall]
          rfl
        exact Registry.lifeStep_becomes hlive hbecomes (.failed (Or.inr rfl) hbecomes hfailed) other
      · exact .kept _ _

end Progress

/-! ## Operations -/

namespace Call

variable {call obeyed : Call} {friend : Friend}

/-- A command that a coherent call obeys is a step of its life. -/
theorem lifeStep_of_obey {config : Config} {command : Control} (hcoherent : call.Coherent config)
    (hlive : call.isLive = true) (hobey : call.obey? command = some obeyed) :
    call.Becomes obeyed ∧
      LifeStep friend (.operation (.control friend command)) (some call) (some obeyed) := by
  have hwithheld : ∀ kind withheld, call.Becomes (call.withholding kind withheld) :=
    fun _ _ => ⟨hlive, rfl, rfl⟩
  cases command with
  | cancel =>
      have hfits : call.after? .cancel = some obeyed := hobey
      have hbecomes := becomes_of_after? hlive hfits
      rw [after?_cancel hlive] at hfits
      obtain rfl := Option.some.inj hfits
      exact ⟨hbecomes, .ended (Or.inl (Or.inl rfl)) hbecomes rfl⟩
  | pause =>
      have hfits : call.after? .pause = some obeyed := hobey
      have hbecomes := becomes_of_after? hlive hfits
      obtain ⟨hestablished, rfl⟩ := of_pause hfits
      exact ⟨hbecomes, .paused (Or.inl rfl) hbecomes hestablished rfl⟩
  | resume =>
      have hfits : call.after? .resume = some obeyed := hobey
      have hbecomes := becomes_of_after? hlive hfits
      obtain ⟨hpaused, rfl⟩ := of_resume hfits
      refine ⟨hbecomes, .resumed (Or.inl rfl) hbecomes hpaused ?_⟩
      rw [hcoherent.paused hpaused]
      rfl
  | muteAudio =>
      obtain rfl := Option.some.inj hobey
      exact ⟨hwithheld .audio true, .touched (hwithheld .audio true) rfl⟩
  | unmuteAudio =>
      obtain rfl := Option.some.inj hobey
      exact ⟨hwithheld .audio false, .touched (hwithheld .audio false) rfl⟩
  | hideVideo =>
      obtain rfl := Option.some.inj hobey
      exact ⟨hwithheld .video true, .touched (hwithheld .video true) rfl⟩
  | showVideo =>
      obtain rfl := Option.some.inj hobey
      exact ⟨hwithheld .video false, .touched (hwithheld .video false) rfl⟩

/-- A rate that is changed in a call that does not ring is a step of its life. -/
theorem lifeStep_withRate (hlive : call.isLive = true) (hring : call.state.isRinging = false)
    (kind : MediaKind) (rate : UInt32) (force : Bool) :
    LifeStep friend (.operation (.setRate friend kind rate force)) (some call)
      (some (call.withRate kind rate)) := by
  have hbecomes := becomes_withRate hlive kind rate
  rcases isEstablished_or_isPaused hlive hring with hestablished | hpaused
  · refine .rated hbecomes hestablished ?_
    rw [withRate_of_isEstablished hestablished]
    rfl
  · refine .touched hbecomes ?_
    rw [withRate_of_isPaused hpaused]

end Call

namespace Session

variable {σ : Type} (network : Network σ) (session : Session) (state : σ)

/-- An operation other than a round is a step in the life of each call, if they are coherent. -/
theorem lifeStep_perform
    (hcoherent : ∀ friend, ∀ call ∈ session.registry.get? friend, call.Coherent session.config)
    {command : Command} (h : command ≠ .iterate) (other : Friend) :
    LifeStep other (.operation command) (session.registry.get? other)
      ((session.perform network state command).session.registry.get? other) := by
  cases command with
  | iterate => exact absurd rfl h
  | call friend rates =>
      rcases call_cases network session state friend rates with
        ⟨_, -, houtcome⟩ | ⟨hnone, _, _, -, houtcome⟩ | ⟨hnone, _, -, houtcome⟩
      all_goals rw [perform, Outcome.map, houtcome]
      · exact .kept _ _
      all_goals
        obtain ⟨-, -, hfree, -, -⟩ := callRefusal?_eq_none_iff.mp hnone
        have hvacant := Registry.vacant_of_live? hfree
      · -- the new call is taken out again, together with what it has replaced
        have hundone : (session.registry.set (.outgoing friend rates)).remove friend =
            session.registry.remove friend := Registry.remove_set session.registry rfl
        simp only [hundone]
        exact Registry.lifeStep_remove hvacant rates other
      · exact Registry.lifeStep_set rfl (.placed hvacant) other
  | answer friend rates =>
      rcases answer_cases network session state friend rates with
        ⟨_, houtcome⟩ | ⟨call, hcall, ⟨_, _, -, houtcome⟩ | ⟨_, -, ⟨_, _, -, houtcome⟩ |
          ⟨_, -, houtcome⟩⟩⟩
      all_goals rw [perform, Outcome.map, houtcome]
      · exact .kept _ _
      · exact .kept _ _
      · exact .kept _ _
      · obtain ⟨-, -, hlive, hanswerable, -⟩ := answerable_eq_ok hcall
        obtain ⟨hringing, hincoming⟩ := Call.isAnswerable_iff.mp hanswerable
        have hbecomes : call.Becomes (call.answered rates) :=
          ⟨Registry.isLive_of_live? hlive, rfl, rfl⟩
        exact Registry.lifeStep_becomes hlive hbecomes
          (.answered hbecomes hringing hincoming rfl) other
  | control friend command =>
      rcases control_cases network session state friend command with
        ⟨_, houtcome⟩ | ⟨call, hcall, ⟨_, _, -, -, houtcome⟩ |
          ⟨_, _, obeyed, -, -, hobeyed, houtcome⟩⟩
      all_goals rw [perform, Outcome.map, houtcome]
      · exact .kept _ _
      · exact .kept _ _
      · obtain ⟨-, -, hlive, -, -⟩ := controllable_eq_ok hcall
        obtain ⟨hbecomes, hstep⟩ := Call.lifeStep_of_obey
          (hcoherent friend call (Registry.get?_of_live? hlive))
          (Registry.isLive_of_live? hlive) hobeyed
        exact Registry.lifeStep_becomes hlive hbecomes hstep other
  | setRate friend kind rate force =>
      rcases setRate_cases network session state friend kind rate force with
        ⟨_, houtcome⟩ | ⟨call, hcall, ⟨_, -, houtcome⟩ | ⟨_, -, ⟨_, _, -, houtcome⟩ |
          ⟨_, -, houtcome⟩⟩⟩
      all_goals rw [perform, Outcome.map, houtcome]
      · exact .kept _ _
      · simp only [reporting, registry_dispatch]
        exact .kept _ _
      · exact .kept _ _
      · obtain ⟨-, -, hlive, hring, -⟩ := rateChangeable_eq_ok hcall
        have hcalllive := Registry.isLive_of_live? hlive
        simp only [reporting, registry_dispatch, registry_setCall]
        exact Registry.lifeStep_becomes hlive (Call.becomes_withRate hcalllive kind rate)
          (Call.lifeStep_withRate hcalllive hring kind rate force) other
  | sendFrame friend payload =>
      rw [perform, Outcome.map, session_sendFrame]
      exact .kept _ _
  | close =>
      simp only [perform, Outcome.map, close]
      split
      · exact .kept _ _
      · simp only [Registry.drain, Registry.get?_empty]
        cases session.registry.get? other with
        | none => exact .kept _ _
        | some call => exact .closed
  | listen listener => exact .kept _ _

end Session

end PeerCalls
