import PeerCalls.Proofs.Duo.Run

/-!
# An answered call, paused or not

As long as nobody hangs up, an answered call runs or is paused, and only a pause or a
resumption makes a difference to that.  It does not matter which side it comes from: the side
that gives the command does what it says, and the side that hears it is as it says afterwards,
because what does not fit is ignored for being so already.

`Registry.Holds` says of the call with a friend that it was answered and is paused or not, and
`Wiring.Utters` what an operation on one side has to do with it: the operation says one signal
to the other side, at most, and the call on its own side follows what it says.
-/

namespace PeerCalls

/-- What the signal makes of an answered call, if anything: one that is paused, or one that
is not. -/
def Signal.pauses? : Signal → Option Bool
  | .control .pause => some true
  | .control .resume => some false
  | _ => none

/-! ## One call -/

/-- The call was answered and is not over, and it is paused or not. -/
inductive Call.Answered (call : Call) : Bool → Prop where
  | running (established : call.state.isEstablished = true) : call.Answered false
  | paused {earlier : CallState} (paused : call.state = .paused)
      (remembers : call.pausedFrom = some earlier) (established : earlier.isEstablished = true) :
      call.Answered true

namespace Call.Answered

variable {call : Call} {paused : Bool}

theorem isLive (h : call.Answered paused) : call.isLive = true := by
  cases h with
  | running established => exact isLive_of_isEstablished established
  | paused hpaused => simp [Call.isLive, hpaused, CallState.isTerminal]

/-- The call is in the paused state just when it is paused. -/
theorem state_eq_paused_iff (h : call.Answered paused) : call.state = .paused ↔ paused = true := by
  cases h with
  | running established =>
      refine iff_of_false (fun hpaused => ?_) (by simp)
      rw [hpaused] at established
      cases established
  | paused hpaused => exact iff_of_true hpaused rfl

theorem isEstablished_or_eq_paused (h : call.Answered paused) :
    call.state.isEstablished = true ∨ call.state = .paused := by
  cases h with
  | running established => exact Or.inl established
  | paused hpaused => exact Or.inr hpaused

/-- Whatever the call was before, a pause leaves it paused. -/
theorem pause (h : call.Answered paused) : ((call.after? .pause).getD call).Answered true := by
  cases h with
  | running established =>
      have hafter : call.after? .pause =
          some { call with pausedFrom := some call.state, state := .paused } := by
        simp [Call.after?, established]
      rw [hafter]
      exact .paused rfl rfl established
  | paused hpaused remembers established =>
      have hafter : call.after? .pause = none := by
        simp [Call.after?, hpaused, CallState.isEstablished]
      rw [hafter]
      exact .paused hpaused remembers established

/-- Whatever the call was before, a resumption leaves it running. -/
theorem resume (h : call.Answered paused) : ((call.after? .resume).getD call).Answered false := by
  cases h with
  | running established =>
      have hafter : call.after? .resume = none := by
        have hnot : call.state.isPaused = false := by
          cases hstate : call.state <;> simp_all [CallState.isEstablished, CallState.isPaused]
        simp [Call.after?, hnot]
      rw [hafter]
      exact .running established
  | paused hpaused remembers established =>
      have hafter : call.after? .resume = some { call with
          state := call.pausedFrom.getD call.classification, pausedFrom := none } := by
        simp [Call.after?, hpaused, CallState.isPaused]
      rw [hafter, remembers]
      exact .running established

/-- What is not the state of the call does not matter. -/
theorem congr (h : call.Answered paused) {after : Call} (hstate : after.state = call.state)
    (hpaused : after.pausedFrom = call.pausedFrom) : after.Answered paused := by
  cases h with
  | running established => exact .running (hstate ▸ established)
  | paused paused remembers established =>
      exact .paused (hstate.trans paused) (hpaused.trans remembers) established

/-- A change of a rate pauses nothing and resumes nothing. -/
theorem withRate (h : call.Answered paused) (kind : MediaKind) (rate : UInt32) :
    (call.withRate kind rate).Answered paused := by
  cases h with
  | running established =>
      rw [withRate_of_isEstablished established]
      exact .running rfl
  | paused hpaused =>
      rw [withRate_of_isPaused hpaused]
      exact .paused hpaused rfl rfl

/-- A command that is obeyed leaves the call as it says. -/
theorem obey (h : call.Answered paused) {command : Control} (hcommand : command ≠ .cancel)
    {obeyed : Call} (hobey : call.obey? command = some obeyed) :
    obeyed.Answered ((Signal.control command).pauses?.getD paused) := by
  cases command with
  | cancel => exact absurd rfl hcommand
  | pause =>
      have hafter : call.after? .pause = some obeyed := hobey
      have hpaused := h.pause
      rwa [hafter] at hpaused
  | resume =>
      have hafter : call.after? .resume = some obeyed := hobey
      have hresumed := h.resume
      rwa [hafter] at hresumed
  | muteAudio => cases hobey; exact h.congr rfl rfl
  | unmuteAudio => cases hobey; exact h.congr rfl rfl
  | hideVideo => cases hobey; exact h.congr rfl rfl
  | showVideo => cases hobey; exact h.congr rfl rfl

end Call.Answered

/-! ## The call in a registry -/

/-- The call with the friend was answered and is not over, and it is paused or not. -/
def Registry.Holds (registry : Registry) (friend : Friend) (paused : Bool) : Prop :=
  ∃ call, registry.live? friend = some call ∧ call.Answered paused

namespace Registry.Holds

variable {registry : Registry} {friend : Friend} {paused : Bool} {call entered : Call}

/-- The call that is found is the one that was answered. -/
theorem answered (h : registry.Holds friend paused) (hlive : registry.live? friend = some call) :
    call.Answered paused := by
  obtain ⟨found, hfound, hanswered⟩ := h
  obtain rfl : found = call := Option.some.inj (hfound.symm.trans hlive)
  exact hanswered

theorem set (hfriend : entered.friend = friend) (h : entered.Answered paused) :
    (registry.set entered).Holds friend paused :=
  ⟨entered, Registry.live?_set_self registry hfriend h.isLive, h⟩

theorem set_of_ne (h : registry.Holds friend paused) (hfriend : entered.friend ≠ friend) :
    (registry.set entered).Holds friend paused := by
  obtain ⟨call, hlive, hanswered⟩ := h
  exact ⟨call, (Registry.live?_set_of_ne registry hfriend).trans hlive, hanswered⟩

theorem reap (h : registry.Holds friend paused) : registry.reap.2.Holds friend paused := by
  obtain ⟨call, hlive, hanswered⟩ := h
  exact ⟨call, (Registry.live?_reap registry friend).trans hlive, hanswered⟩

theorem callState_eq_paused_iff {session : Session} (h : session.registry.Holds friend paused) :
    session.callState? friend = some .paused ↔ paused = true := by
  obtain ⟨call, hlive, hanswered⟩ := h
  rw [← hanswered.state_eq_paused_iff, Session.callState?, Session.call?,
    Registry.get?_of_live? hlive]
  exact Option.some_inj

end Registry.Holds

/-! ## What a round makes of it -/

namespace Progress

variable {progress : Progress} {friend : Friend} {paused : Bool}

/-- A pause or a resumption by the friend, whether it fits or not, leaves the call as it says. -/
theorem holds_transitioned (h : progress.registry.Holds friend paused) {transition : Transition}
    {later : Bool}
    (hafter : ∀ call : Call, call.Answered paused →
      ((call.after? transition).getD call).Answered later) :
    (progress.transitioned friend transition).registry.Holds friend later := by
  obtain ⟨call, hlive, hanswered⟩ := h
  have hlater := hafter call hanswered
  have hfriend := Registry.friend_of_live? hlive
  simp only [transitioned, hlive]
  cases hfits : call.after? transition with
  | none =>
      rw [hfits] at hlater
      exact ⟨call, hlive, hlater⟩
  | some after =>
      rw [hfits] at hlater
      exact .set ((Call.friend_of_after? hfits).trans hfriend) hlater

/-- A signal that neither begins nor ends a call leaves the call as it says. -/
theorem holds_handle_signal (h : progress.registry.Holds friend paused) {signal : Signal}
    (hmark : signal.mark? = none) (config : Config) :
    (progress.handle config (.signal friend signal)).registry.Holds friend
      (signal.pauses?.getD paused) := by
  cases signal with
  | invite rates => cases hmark
  | answer rates => cases hmark
  | bitRate kind rate =>
      obtain ⟨call, hlive, hanswered⟩ := h
      have hannounced : (call.withPeerRate kind rate).Answered paused := hanswered.congr rfl rfl
      have hfriend : (call.withPeerRate kind rate).friend = friend :=
        (Call.friend_withPeerRate call kind rate).trans (Registry.friend_of_live? hlive)
      simp only [handle, announced, hlive]
      exact .set hfriend hannounced
  | control command =>
      cases command with
      | cancel => cases hmark
      | pause => exact holds_transitioned h fun _ hanswered => hanswered.pause
      | resume => exact holds_transitioned h fun _ hanswered => hanswered.resume
      | muteAudio => exact h
      | unmuteAudio => exact h
      | hideVideo => exact h
      | showVideo => exact h

/-- The check of a friend leaves the call with a friend who is reached as it is. -/
theorem holds_checkFriend {σ : Type} {network : Network σ} {state : σ}
    (hknown : network.knows state friend = true)
    (hconnected : (network.status state friend).isConnected = true)
    (h : progress.registry.Holds friend paused) (other : Friend) :
    (checkFriend network state progress other).registry.Holds friend paused := by
  by_cases hother : other = friend
  · subst hother
    obtain ⟨call, hlive, hanswered⟩ := h
    simp only [checkFriend, hlive, hknown, hconnected]
    exact ⟨call, hlive, hanswered⟩
  · unfold checkFriend
    split
    · exact h
    · rename_i call hlive
      have hfriend := Registry.friend_of_live? hlive
      split
      · split
        · rename_i ended hfits
          exact h.set_of_ne (by rwa [Call.friend_of_after? hfits, hfriend])
        · exact h
      · split
        · exact h.set_of_ne (by rwa [Call.friend_faulted, hfriend])
        · exact h

end Progress

/-! ## What an operation makes of it -/

/-- What a side may get from the other one while nobody begins or ends a call. -/
structure Wiring.Goes (wiring : Wiring) (side : Side) (item : Inbound) : Prop where
  friend : item.friend = wiring.number side
  unmarked : ∀ signal ∈ item.signal?, signal.mark? = none

namespace Wiring

/-- An operation sends the items to the other side, among which is one signal at most, and the
call with the other side follows what it says. -/
structure Utterance (wiring : Wiring) (side : Side) (before after : Registry) (hub later : Hub)
    (items : List Inbound) (said : Option Signal) : Prop where
  carries : wiring.Carries side items hub later
  goes : ∀ item ∈ items, wiring.Goes side.other item
  signals : items.filterMap Inbound.signal? = said.toList
  follows : ∀ paused, before.Holds (wiring.number side) paused →
    after.Holds (wiring.number side) ((said.bind Signal.pauses?).getD paused)

/-- The operation says one signal to the other side, at most, and the call with the other side
follows what it says. -/
def Utters (wiring : Wiring) (side : Side) (before after : Registry) (hub later : Hub) : Prop :=
  ∃ items said, wiring.Utterance side before after hub later items said

variable {wiring : Wiring} {side : Side} {before after : Registry} {hub later : Hub}

/-- An operation that says nothing, and leaves an answered call as it is. -/
theorem Utters.nothing (hcarries : wiring.Carries side [] hub later)
    (hfollows : ∀ paused, before.Holds (wiring.number side) paused →
      after.Holds (wiring.number side) paused) :
    wiring.Utters side before after hub later :=
  ⟨[], none, hcarries, by simp, rfl, hfollows⟩

/-- An operation that says one signal. -/
theorem Utters.signal {signal : Signal} (hmark : signal.mark? = none)
    (hcarries : wiring.Carries side [.signal (wiring.number side.other) signal] hub later)
    (hfollows : ∀ paused, before.Holds (wiring.number side) paused →
      after.Holds (wiring.number side) (signal.pauses?.getD paused)) :
    wiring.Utters side before after hub later := by
  refine ⟨_, some signal, hcarries, fun item hitem => ?_, rfl, hfollows⟩
  obtain rfl := List.mem_singleton.mp hitem
  refine ⟨rfl, fun heard hheard => ?_⟩
  obtain rfl : signal = heard := Option.some.inj hheard
  exact hmark

end Wiring

namespace Session

variable {wiring : Wiring} {side : Side} {session : Session} {hub : Hub}

theorem utters_control (hjoins : wiring.Joins hub) (friend : Friend) {command : Control}
    (hcommand : command ≠ .cancel) :
    let outcome := session.control (wiring.network side) hub friend command
    wiring.Utters side session.registry outcome.session.registry hub outcome.network := by
  intro outcome
  rcases control_cases (wiring.network side) session hub friend command with
    ⟨_, houtcome⟩ | ⟨call, hcall, ⟨cause, after, -, hpush, houtcome⟩ |
      ⟨result, after, obeyed, hpush, -, hobey, houtcome⟩⟩
  all_goals simp only [outcome, houtcome]
  · exact .nothing .refl fun _ h => h
  · exact .nothing (Wiring.carries_of_refused hjoins hpush).2 fun _ h => h
  · obtain ⟨-, -, hlive, -, -⟩ := controllable_eq_ok hcall
    have hfriend : obeyed.friend = friend :=
      (Call.friend_of_obey? hobey).trans (Registry.friend_of_live? hlive)
    have hmark : (Signal.control command).mark? = none := by
      cases command <;> first | rfl | exact absurd rfl hcommand
    rcases Wiring.sendSignal_cases hjoins hpush with ⟨rfl, -, hcarries⟩ | ⟨hother, hcarries⟩
    · refine .signal hmark hcarries fun paused h => ?_
      exact .set hfriend ((h.answered hlive).obey hcommand hobey)
    · exact .nothing hcarries fun paused h => h.set_of_ne (hfriend ▸ hother)

theorem utters_setRate (hjoins : wiring.Joins hub) (friend : Friend) (kind : MediaKind)
    (rate : UInt32) (force : Bool) :
    let outcome := session.setRate (wiring.network side) hub friend kind rate force
    wiring.Utters side session.registry outcome.session.registry hub outcome.network := by
  intro outcome
  rcases setRate_cases (wiring.network side) session hub friend kind rate force with
    ⟨_, houtcome⟩ | ⟨call, hcall, ⟨asked, hlink, houtcome⟩ | ⟨asked, hlink,
      ⟨cause, after, hpush, houtcome⟩ | ⟨after, hpush, houtcome⟩⟩⟩
  all_goals simp only [outcome, houtcome]
  · exact .nothing .refl fun _ h => h
  all_goals obtain rfl := hub_of_linkCarries hlink
  · simp only [reporting, registry_dispatch]
    exact .nothing .refl fun _ h => h
  · exact .nothing (Wiring.carries_of_refused hjoins hpush).2 fun _ h => h
  · obtain ⟨-, -, hlive, -, -⟩ := rateChangeable_eq_ok hcall
    have hfriend : (call.withRate kind rate).friend = friend :=
      (Call.friend_withRate call kind rate).trans (Registry.friend_of_live? hlive)
    simp only [reporting, registry_dispatch, registry_setCall]
    rcases Wiring.sendSignal_cases hjoins hpush with ⟨rfl, -, hcarries⟩ | ⟨hother, hcarries⟩
    · refine .signal rfl hcarries fun paused h => ?_
      exact .set hfriend ((h.answered hlive).withRate kind rate)
    · exact .nothing hcarries fun paused h => h.set_of_ne (hfriend ▸ hother)

theorem utters_sendFrame (hjoins : wiring.Joins hub) (friend : Friend) (payload : Payload) :
    let outcome := session.sendFrame (wiring.network side) hub friend payload
    wiring.Utters side session.registry outcome.session.registry hub outcome.network := by
  intro outcome
  obtain ⟨items, hcarries, hframes⟩ := carries_sendFrame hjoins session friend payload
  refine ⟨items, none, hcarries, fun item hitem => ?_, ?_, fun paused h => ?_⟩
  · obtain ⟨frame, rfl⟩ := hframes item hitem
    exact ⟨rfl, by simp [Inbound.signal?]⟩
  · refine List.filterMap_eq_nil_iff.mpr fun item hitem => ?_
    obtain ⟨frame, rfl⟩ := hframes item hitem
    rfl
  · simp only [outcome, session_sendFrame]
    exact h

end Session

end PeerCalls
