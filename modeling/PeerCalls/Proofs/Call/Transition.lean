import PeerCalls.Session.Controlling
import PeerCalls.Session.Rates

/-!
# Transitions that fit

An operation checks a call before it tells the friend anything, and changes the
call afterwards.  The lemmas below say that the checks are enough: the change
that follows a check always fits the state of the call, and what it makes of the
call is spelled out.
-/

namespace PeerCalls.Call

variable {call after : Call}

/-! ## States of a live call -/

theorem isLive_iff : call.isLive = true ↔ call.state.isTerminal = false := by
  simp [isLive]

/-- A live call rings, runs or pauses. -/
theorem state_of_isLive (h : call.isLive = true) :
    call.state = .ringing ∨ call.state.isEstablished = true ∨ call.state = .paused := by
  rw [isLive_iff] at h
  cases hstate : call.state <;> simp_all [CallState.isTerminal, CallState.isEstablished]

/-- A live call that does not ring runs or pauses. -/
theorem isEstablished_or_isPaused (h : call.isLive = true) (hring : call.state.isRinging = false) :
    call.state.isEstablished = true ∨ call.state = .paused := by
  rcases state_of_isLive h with hstate | hstate
  · simp [hstate, CallState.isRinging] at hring
  · exact hstate

theorem isAnswerable_iff :
    call.isAnswerable = true ↔ call.state = .ringing ∧ call.direction = .incoming := by
  simp [isAnswerable, CallState.isRinging]

@[simp] theorem isLive_outgoing (friend : Friend) (rates : Rates) :
    (outgoing friend rates).isLive = true := rfl

@[simp] theorem isLive_incoming (friend : Friend) (rates : Rates) :
    (incoming friend rates).isLive = true := rfl

/-! ## Changes of one call -/

/-- The call once we answered it at our rates. -/
def answered (call : Call) (rates : Rates) : Call :=
  { call with rates, state := .running rates }

@[simp] theorem friend_answered (call : Call) (rates : Rates) :
    (call.answered rates).friend = call.friend := rfl

theorem after?_localAnswered (h : call.isAnswerable = true) (rates : Rates) :
    call.after? (.localAnswered rates) = some (call.answered rates) := by
  obtain ⟨hstate, hdirection⟩ := isAnswerable_iff.mp h
  simp [after?, answered, hstate, hdirection, CallState.isRinging]

/-- What a remote answer meets, and what it makes of the call. -/
theorem of_remoteAnswered {rates : Rates} (h : call.after? (.remoteAnswered rates) = some after) :
    call.state = .ringing ∧ call.direction = .outgoing ∧
      after = { call with peerRates := rates, state := .running call.rates } := by
  simp only [after?, Option.ite_none_right_eq_some, Option.some.injEq] at h
  obtain ⟨hfits, rfl⟩ := h
  obtain ⟨hstate, hdirection⟩ : call.state = .ringing ∧ call.direction = .outgoing := by
    simpa [CallState.isRinging] using hfits
  exact ⟨hstate, hdirection, rfl⟩

theorem of_pause (h : call.after? .pause = some after) :
    call.state.isEstablished = true ∧
      after = { call with pausedFrom := some call.state, state := .paused } := by
  simp only [after?, Option.ite_none_right_eq_some, Option.some.injEq] at h
  obtain ⟨hestablished, rfl⟩ := h
  exact ⟨hestablished, rfl⟩

theorem of_resume (h : call.after? .resume = some after) :
    call.state = .paused ∧ after =
      { call with state := call.pausedFrom.getD (.running call.rates), pausedFrom := none } := by
  simp only [after?, Option.ite_none_right_eq_some, Option.some.injEq] at h
  obtain ⟨hpaused, rfl⟩ := h
  have hstate : call.state = .paused := by simpa [CallState.isPaused] using hpaused
  exact ⟨hstate, rfl⟩

theorem after?_cancel (h : call.isLive = true) :
    call.after? .cancel = some (call.finish .ended) := by
  simp [after?, h]

theorem faulted_of_isLive (h : call.isLive = true) : call.faulted = call.finish .failed := by
  simp [faulted, after?, h]

theorem after?_fault (h : call.isLive = true) : call.after? .fault = some call.faulted := by
  rw [faulted_of_isLive h]
  simp [after?, h]

/-- The call with one of its streams withheld or sent again. -/
def withholding (call : Call) (kind : MediaKind) (withheld : Bool) : Call :=
  { call with withheld := call.withheld.set withheld kind }

/-- A command that is not refused takes effect: it withholds a stream or sends it
again, or it is a transition of the call. -/
theorem obey?_of_not_refused {command : Control} (hlive : call.isLive = true)
    (hring : call.state.isRinging = true → command = .cancel)
    (h : call.refusal? command = none) :
    (∃ kind withheld, command.withholding? = some (kind, withheld) ∧
      call.obey? command = some (call.withholding kind withheld)) ∨
    (∃ transition after, command.transition? = some transition ∧
      call.after? transition = some after ∧ call.obey? command = some after) := by
  cases command with
  | cancel =>
      exact Or.inr ⟨.cancel, _, rfl, after?_cancel hlive, after?_cancel hlive⟩
  | pause =>
      -- what neither rings nor is refused as paused already has to be running
      have hring : call.state.isRinging = false :=
        Bool.eq_false_iff.mpr fun hringing => by cases hring hringing
      rcases isEstablished_or_isPaused hlive hring with hstate | hstate
      · have hafter : call.after? .pause =
            some { call with pausedFrom := some call.state, state := .paused } := by
          simp [after?, hstate]
        exact Or.inr ⟨.pause, _, rfl, hafter, hafter⟩
      · simp [refusal?, hstate, CallState.isPaused] at h
  | resume =>
      have hpaused : call.state.isPaused = true := by
        cases hpaused : call.state.isPaused with
        | true => rfl
        | false => simp [refusal?, hpaused] at h
      have hafter : call.after? .resume = some
          { call with state := call.pausedFrom.getD call.classification, pausedFrom := none } := by
        simp [after?, hpaused]
      exact Or.inr ⟨.resume, _, rfl, hafter, hafter⟩
  | muteAudio => exact Or.inl ⟨.audio, true, rfl, rfl⟩
  | unmuteAudio => exact Or.inl ⟨.audio, false, rfl, rfl⟩
  | hideVideo => exact Or.inl ⟨.video, true, rfl, rfl⟩
  | showVideo => exact Or.inl ⟨.video, false, rfl, rfl⟩

/-- No command changes whom the call is with. -/
theorem friend_of_obey? {command : Control} (h : call.obey? command = some after) :
    after.friend = call.friend := by
  unfold obey? at h
  split at h
  · cases h
    rfl
  · obtain ⟨transition, -, hfits⟩ := Option.bind_eq_some_iff.mp h
    exact friend_of_after? hfits

@[simp] theorem friend_withRate (call : Call) (kind : MediaKind) (rate : UInt32) :
    (call.withRate kind rate).friend = call.friend := by
  cases h : after? { call with rates := call.rates.set rate kind } .ratesChanged with
  | none => simp [withRate, h]
  | some after => simpa [withRate, h] using friend_of_after? h

theorem withRate_of_isEstablished (h : call.state.isEstablished = true) (kind : MediaKind)
    (rate : UInt32) :
    call.withRate kind rate =
      { call with
        rates := call.rates.set rate kind, state := .running (call.rates.set rate kind) } := by
  simp [withRate, after?, h, classification]

theorem withRate_of_isPaused (h : call.state = .paused) (kind : MediaKind) (rate : UInt32) :
    call.withRate kind rate =
      { call with
        rates := call.rates.set rate kind
        pausedFrom := some (.running (call.rates.set rate kind)) } := by
  simp [withRate, after?, h, classification, CallState.isEstablished, CallState.isPaused]

/-- The call with another announced rate of the friend. -/
def withPeerRate (call : Call) (kind : MediaKind) (rate : UInt32) : Call :=
  { call with peerRates := call.peerRates.set rate kind }

@[simp] theorem friend_withPeerRate (call : Call) (kind : MediaKind) (rate : UInt32) :
    (call.withPeerRate kind rate).friend = call.friend := rfl

end PeerCalls.Call
