import PeerCalls.Proofs.Call.Coherence
import PeerCalls.Proofs.Duo.Talk

/-!
# Two calls and the signals between them

A `Line` is what two linked sessions have to do with each other: on each side the
live call with the other one, and the signals that wait to be heard.  It moves in
two ways.  A side hears the oldest signal that waits for it, or it says something
that its call allows.  The `Talk` of a line is what decides whether there is a call
at all, and the moves of a line are moves of its talk, or leave it as it is.
-/

namespace PeerCalls

/-- The live call with a friend once a signal of the friend has been handled. -/
def heard (friend : Friend) (entry : Option Call) : Signal → Option Call
  | .invite rates => some (entry.getD (.incoming friend rates))
  | .answer rates => entry.bind fun call => call.after? (.remoteAnswered rates)
  | .control .cancel => none
  | .control .pause => entry.map fun call => (call.after? .pause).getD call
  | .control .resume => entry.map fun call => (call.after? .resume).getD call
  | .control _ => entry
  | .bitRate kind rate => entry.map fun call => call.withPeerRate kind rate

/-- What is said to a friend with whom the live call is as given, and the live call afterwards. -/
inductive Says (friend : Friend) : Option Call → Signal → Option Call → Prop where
  | invite (rates : Rates) : Says friend none (.invite rates) (some (.outgoing friend rates))
  | answer {call : Call} (answerable : call.isAnswerable = true) (rates : Rates) :
      Says friend (some call) (.answer rates) (some (call.answered rates))
  | hangUp (call : Call) : Says friend (some call) (.control .cancel) none
  | command {call obeyed : Call} {command : Control} (running : call.state.isRinging = false)
      (other : command ≠ .cancel) (unrefused : call.refusal? command = none)
      (obeys : call.obey? command = some obeyed) :
      Says friend (some call) (.control command) (some obeyed)
  | rate {call : Call} (running : call.state.isRinging = false) (kind : MediaKind)
      (rate : UInt32) :
      Says friend (some call) (.bitRate kind rate) (some (call.withRate kind rate))

/-- Two linked sessions, as far as they have to do with each other. -/
@[ext] structure Line where
  /-- The live call with the other side. -/
  call : Side → Option Call
  /-- The signals that were not heard yet, oldest first. -/
  waiting : Side → List Signal

namespace Line

/-- The line after a side has heard a signal; `number` is how each side knows the other. -/
def hear (number : Side → Friend) (line : Line) (side : Side) (signal : Signal)
    (later : List Signal) : Line where
  call := Function.update line.call side (heard (number side) (line.call side) signal)
  waiting := Function.update line.waiting side later

/-- The line after a side has said something. -/
def say (line : Line) (side : Side) (signal : Signal) (after : Option Call) : Line where
  call := Function.update line.call side after
  waiting :=
    Function.update line.waiting side.other (line.waiting side.other ++ [signal])

/-- The calls of a line are live, and coherent under some configuration. -/
def Sound (line : Line) : Prop :=
  ∀ side, ∀ call ∈ line.call side, call.isLive = true ∧ ∃ config, call.Coherent config

/-- What the side hears next is no answer that its call does not wait for. -/
def Fits (line : Line) (side : Side) : Prop :=
  ∀ rates later, line.waiting side = .answer rates :: later →
    ∀ call ∈ line.call side, (call.after? (.remoteAnswered rates)).isSome

end Line

/-! ## The talk of a line -/

namespace Standing

/-- The standing that a live call is in. -/
def ofCall : Option Call → Standing
  | none => idle
  | some call =>
    if call.state.isRinging then
      match call.direction with
      | .outgoing => calling
      | .incoming => rung
    else joined

@[simp] theorem ofCall_none : ofCall none = idle := rfl

theorem ofCall_of_running {call : Call} (h : call.state.isRinging = false) :
    ofCall (some call) = joined := by
  simp [ofCall, h]

theorem ofCall_ne_idle (call : Call) : ofCall (some call) ≠ idle := by
  cases hring : call.state.isRinging <;> cases hdirection : call.direction <;>
    simp [ofCall, hring, hdirection]

theorem ofCall_eq_idle_iff {entry : Option Call} : ofCall entry = idle ↔ entry = none := by
  cases entry with
  | none => simp
  | some call => simpa using ofCall_ne_idle call

theorem ofCall_eq_calling_iff {call : Call} :
    ofCall (some call) = calling ↔ call.state.isRinging = true ∧ call.direction = .outgoing := by
  cases hring : call.state.isRinging <;> cases hdirection : call.direction <;>
    simp [ofCall, hring, hdirection]

theorem ofCall_of_isAnswerable {call : Call} (h : call.isAnswerable = true) :
    ofCall (some call) = rung := by
  obtain ⟨hstate, hdirection⟩ := Call.isAnswerable_iff.mp h
  simp [ofCall, hstate, hdirection, CallState.isRinging]

end Standing

/-- What a signal decides about the call, if anything. -/
def Signal.mark? : Signal → Option Mark
  | .invite _ => some .invite
  | .answer _ => some .answer
  | .control .cancel => some .hangUp
  | _ => none

/-! ### Signals that decide nothing -/

namespace Call

variable {call after : Call}

theorem isRinging_of_isEstablished {state : CallState} (h : state.isEstablished = true) :
    state.isRinging = false := by
  cases state <;> first | rfl | cases h

/-- A resumed call runs. -/
theorem isEstablished_of_resume {config : Config} (hcoherent : call.Coherent config)
    (h : call.after? .resume = some after) : after.state.isEstablished = true := by
  obtain ⟨hstate, rfl⟩ := of_resume h
  rw [hcoherent.paused hstate]
  rfl

/-- Pausing and resuming happen in a call that does not ring, and leave it so. -/
theorem isRinging_of_pause (h : call.after? .pause = some after) :
    call.state.isRinging = false ∧ after.state.isRinging = false := by
  obtain ⟨hestablished, rfl⟩ := of_pause h
  exact ⟨isRinging_of_isEstablished hestablished, rfl⟩

theorem isRinging_of_resume {config : Config} (hcoherent : call.Coherent config)
    (h : call.after? .resume = some after) :
    call.state.isRinging = false ∧ after.state.isRinging = false := by
  refine ⟨?_, isRinging_of_isEstablished (isEstablished_of_resume hcoherent h)⟩
  rw [(of_resume h).1]
  rfl

theorem isRinging_withRate (hlive : call.isLive = true) (h : call.state.isRinging = false)
    (kind : MediaKind) (rate : UInt32) : (call.withRate kind rate).state.isRinging = false := by
  rcases isEstablished_or_isPaused hlive h with hstate | hstate
  · rw [withRate_of_isEstablished hstate]
    rfl
  · rw [withRate_of_isPaused hstate]
    exact h

theorem isRinging_of_obey {config : Config} (hcoherent : call.Coherent config)
    (h : call.state.isRinging = false) {command : Control} (hcommand : command ≠ .cancel)
    (hobey : call.obey? command = some after) : after.state.isRinging = false := by
  cases command with
  | cancel => exact absurd rfl hcommand
  | pause => exact (isRinging_of_pause hobey).2
  | resume => exact (isRinging_of_resume hcoherent hobey).2
  | muteAudio => cases hobey; exact h
  | unmuteAudio => cases hobey; exact h
  | hideVideo => cases hobey; exact h
  | showVideo => cases hobey; exact h

end Call

namespace Standing

variable {friend : Friend} {entry after : Option Call} {signal : Signal} {mark : Mark}

/-- A signal without a mark leaves the standing as it is. -/
theorem ofCall_heard_of_unmarked (hmark : signal.mark? = none)
    (hsound : ∀ call ∈ entry, ∃ config, call.Coherent config) :
    ofCall (heard friend entry signal) = ofCall entry := by
  cases entry with
  | none =>
      cases signal with
      | invite rates => cases hmark
      | answer rates => cases hmark
      | control command => cases command <;> rfl
      | bitRate kind rate => rfl
  | some call =>
      obtain ⟨config, hcoherent⟩ := hsound call rfl
      cases signal with
      | invite rates => cases hmark
      | answer rates => cases hmark
      | bitRate kind rate => rfl
      | control command =>
          cases command with
          | cancel => cases hmark
          | pause =>
              cases hafter : call.after? .pause with
              | none => simp [heard, hafter]
              | some paused =>
                  obtain ⟨hbefore, hrunning⟩ := Call.isRinging_of_pause hafter
                  simp [heard, hafter, ofCall_of_running hbefore, ofCall_of_running hrunning]
          | resume =>
              cases hafter : call.after? .resume with
              | none => simp [heard, hafter]
              | some resumed =>
                  obtain ⟨hbefore, hrunning⟩ := Call.isRinging_of_resume hcoherent hafter
                  simp [heard, hafter, ofCall_of_running hbefore, ofCall_of_running hrunning]
          | muteAudio => rfl
          | unmuteAudio => rfl
          | hideVideo => rfl
          | showVideo => rfl

/-- A signal with a mark is heard as that mark. -/
theorem ofCall_heard_of_mark (hmark : signal.mark? = some mark) :
    ofCall (heard friend entry signal) = (ofCall entry).hear mark := by
  cases signal with
  | bitRate kind rate => cases hmark
  | control command =>
      cases command <;> cases hmark
      cases ofCall entry <;> rfl
  | invite rates =>
      cases hmark
      cases entry with
      | none => rfl
      | some call =>
          -- a second invitation is dropped, whatever the call is doing
          have hbusy : ofCall (some call) ≠ idle := ofCall_ne_idle call
          rw [heard, Option.getD_some]
          cases hstanding : ofCall (some call) with
          | idle => exact absurd hstanding hbusy
          | calling => rfl
          | rung => rfl
          | joined => rfl
  | answer rates =>
      cases hmark
      cases entry with
      | none => rfl
      | some call =>
          cases hring : call.state.isRinging <;> cases hdirection : call.direction <;>
            simp [heard, Call.after?, ofCall, hring, hdirection, Call.classification, hear,
              Call.isRinging_of_isEstablished (CallState.isEstablished_running call.rates)]

/-- What is said with a mark changes the standing as that mark does. -/
theorem speaks_of_mark (hspeech : Says friend entry signal after)
    (hmark : signal.mark? = some mark) :
    Standing.Speaks (ofCall entry) mark (ofCall after) := by
  cases hspeech with
  | invite rates => cases hmark; exact .invite
  | answer hanswerable rates =>
      cases hmark
      rw [ofCall_of_isAnswerable hanswerable]
      exact .answer
  | hangUp call => cases hmark; exact .hangUp (ofCall_ne_idle call)
  | @command _ _ command _ hother _ _ =>
      cases command <;> first | exact absurd rfl hother | cases hmark
  | rate _ kind rate => cases hmark

/-- What is said without a mark leaves the standing as it is. -/
theorem ofCall_of_unmarked (hspeech : Says friend entry signal after) (hmark : signal.mark? = none)
    (hsound : ∀ call ∈ entry, call.isLive = true ∧ ∃ config, call.Coherent config) :
    ofCall after = ofCall entry := by
  cases hspeech with
  | invite rates => cases hmark
  | answer _ rates => cases hmark
  | hangUp call => cases hmark
  | @command call obeyed _ hrunning hother _ hobeys =>
      obtain ⟨-, config, hcoherent⟩ := hsound call rfl
      have hobeyed : obeyed.state.isRinging = false :=
        Call.isRinging_of_obey hcoherent hrunning hother hobeys
      rw [ofCall_of_running hobeyed, ofCall_of_running hrunning]
  | @rate call hrunning kind rate =>
      obtain ⟨hlive, -⟩ := hsound call rfl
      have hchanged := Call.isRinging_withRate hlive hrunning kind rate
      rw [ofCall_of_running hchanged, ofCall_of_running hrunning]

end Standing

/-! ### Moves of the talk -/

/-- Whether the two sides lose track of each other if the first signal is said while the second
one waits for the speaker. -/
def Signal.crosses (said waiting : Signal) : Bool :=
  match said.mark?, waiting.mark? with
  | some mark, some other => mark.crosses other
  | _, _ => false

namespace Line

/-- What decides on each side whether there is a call. -/
def talk (line : Line) : Talk where
  standing side := .ofCall (line.call side)
  marks side := (line.waiting side).filterMap Signal.mark?

variable {number : Side → Friend} {line : Line} {side : Side} {signal : Signal}
  {later : List Signal} {after : Option Call} {mark : Mark}

@[simp] theorem call_hear_self : (line.hear number side signal later).call side =
    heard (number side) (line.call side) signal := by
  simp [hear]

@[simp] theorem call_hear_other :
    (line.hear number side signal later).call side.other = line.call side.other := by
  simp [hear]

@[simp] theorem waiting_hear_self : (line.hear number side signal later).waiting side = later := by
  simp [hear]

@[simp] theorem waiting_hear_other :
    (line.hear number side signal later).waiting side.other = line.waiting side.other := by
  simp [hear]

@[simp] theorem call_say_self : (line.say side signal after).call side = after := by
  simp [say]

@[simp] theorem call_say_other :
    (line.say side signal after).call side.other = line.call side.other := by
  simp [say]

@[simp] theorem waiting_say_self :
    (line.say side signal after).waiting side = line.waiting side := by
  simp [say]

@[simp] theorem waiting_say_other :
    (line.say side signal after).waiting side.other = line.waiting side.other ++ [signal] := by
  simp [say]

theorem talk_hear_of_unmarked (hsound : line.Sound) (hwaiting : line.waiting side = signal :: later)
    (hmark : signal.mark? = none) : (line.hear number side signal later).talk = line.talk := by
  have hstanding : Standing.ofCall (heard (number side) (line.call side) signal) =
      .ofCall (line.call side) :=
    Standing.ofCall_heard_of_unmarked hmark fun call hcall => (hsound side call hcall).2
  refine Talk.ext (funext fun own => ?_) (funext fun own => ?_)
  all_goals rcases own.eq_or_eq_other side with rfl | rfl
  · simpa [talk] using hstanding
  · simp [talk]
  · simp [talk, hwaiting, hmark]
  · simp [talk]

theorem talk_hear_of_mark (hmark : signal.mark? = some mark) :
    (line.hear number side signal later).talk =
      line.talk.hear side mark (later.filterMap Signal.mark?) := by
  have hstanding : Standing.ofCall (heard (number side) (line.call side) signal) =
      (Standing.ofCall (line.call side)).hear mark :=
    Standing.ofCall_heard_of_mark hmark
  refine Talk.ext (funext fun own => ?_) (funext fun own => ?_)
  all_goals rcases own.eq_or_eq_other side with rfl | rfl
  · simpa [talk] using hstanding
  · simp [talk]
  · simp [talk]
  · simp [talk]

theorem talk_say_of_unmarked (hsound : line.Sound)
    (hspeech : Says (number side) (line.call side) signal after) (hmark : signal.mark? = none) :
    (line.say side signal after).talk = line.talk := by
  have hstanding : Standing.ofCall after = .ofCall (line.call side) :=
    Standing.ofCall_of_unmarked hspeech hmark (hsound side)
  refine Talk.ext (funext fun own => ?_) (funext fun own => ?_)
  all_goals rcases own.eq_or_eq_other side with rfl | rfl
  · simpa [talk] using hstanding
  · simp [talk]
  · simp [talk]
  · simp [talk, hmark]

theorem talk_say_of_mark (hmark : signal.mark? = some mark) :
    (line.say side signal after).talk = line.talk.say side mark (.ofCall after) := by
  refine Talk.ext (funext fun own => ?_) (funext fun own => ?_)
  all_goals rcases own.eq_or_eq_other side with rfl | rfl
  · simp [talk]
  · simp [talk]
  · simp [talk]
  · simp [talk, hmark]

/-! ### Keeping track along a line -/

theorem inStep_hear (hsound : line.Sound) (h : line.talk.InStep)
    (hwaiting : line.waiting side = signal :: later) :
    (line.hear number side signal later).talk.InStep := by
  cases hmark : signal.mark? with
  | none =>
      rw [talk_hear_of_unmarked hsound hwaiting hmark]
      exact h
  | some mark =>
      have hmarks : line.talk.marks side = mark :: later.filterMap Signal.mark? := by
        simp [talk, hwaiting, hmark]
      rw [talk_hear_of_mark hmark]
      exact h.hear hmarks

/-- What a side says keeps the two sides in step exactly if it crosses nothing. -/
theorem inStep_say_iff (hsound : line.Sound) (h : line.talk.InStep)
    (hspeech : Says (number side) (line.call side) signal after) :
    (line.say side signal after).talk.InStep ↔
      ∀ waiting ∈ line.waiting side, signal.crosses waiting = false := by
  cases hmark : signal.mark? with
  | none =>
      rw [talk_say_of_unmarked hsound hspeech hmark]
      exact iff_of_true h fun waiting _ => by rw [Signal.crosses, hmark]
  | some mark =>
      rw [talk_say_of_mark hmark, h.say_iff (Standing.speaks_of_mark hspeech hmark)]
      constructor
      · intro hcross waiting hmem
        rw [Signal.crosses, hmark]
        cases hwaiting : waiting.mark? with
        | none => rfl
        | some other =>
            exact Bool.eq_false_iff.mpr
              (hcross other (List.mem_filterMap.mpr ⟨waiting, hmem, hwaiting⟩))
      · intro hcross other hother
        obtain ⟨waiting, hmem, hwaiting⟩ := List.mem_filterMap.mp hother
        have hfree := hcross waiting hmem
        rw [Signal.crosses, hmark, hwaiting] at hfree
        exact Bool.eq_false_iff.mp hfree

/-- Whoever is invited to nothing may say anything but an invitation. -/
theorem inStep_say_uninvited (hsound : line.Sound) (h : line.talk.InStep)
    (hspeech : Says (number side) (line.call side) signal after)
    (hmark : signal.mark? ≠ some .invite)
    (hnone : ∀ waiting ∈ line.waiting side, waiting.mark? ≠ some .invite) :
    (line.say side signal after).talk.InStep := by
  refine (inStep_say_iff hsound h hspeech).mpr fun waiting hmem => ?_
  unfold Signal.crosses
  split
  · rename_i mark other hsaid hwaiting
    refine Bool.eq_false_iff.mpr fun hcrosses => ?_
    have hother : mark ≠ .invite := by
      rintro rfl
      exact hmark hsaid
    obtain rfl := (Mark.crosses_iff_of_ne_invite hother).mp hcrosses
    exact hnone waiting hmem hwaiting
  · rfl

/-- While the two sides keep track of each other, no answer comes unexpected. -/
theorem fits_of_inStep (h : line.talk.InStep) (side : Side) : line.Fits side := by
  intro rates later hwaiting call hcall
  have hmarks : line.talk.marks side = .answer :: later.filterMap Signal.mark? := by
    simp [talk, hwaiting, Signal.mark?]
  have hsome : line.call side = some call := hcall
  -- there is a call, so the standing that admits the answer is the waiting one
  have hcalling : Standing.ofCall (some call) = .calling := by
    have hstanding := h.answer_fits hmarks
    simp only [talk, hsome] at hstanding
    exact hstanding.resolve_left (Standing.ofCall_ne_idle call)
  obtain ⟨hring, hdirection⟩ := Standing.ofCall_eq_calling_iff.mp hcalling
  simp [Call.after?, hring, hdirection]

/-- When nothing waits any more, there is a live call on both sides or on none. -/
theorem isSome_iff_of_inStep (h : line.talk.InStep) (hquiet : ∀ side, line.waiting side = []) :
    (line.call .left).isSome ↔ (line.call .right).isSome := by
  have hidle := h.idle_iff fun side => by simp [talk, hquiet side]
  simp only [talk, Standing.ofCall_eq_idle_iff] at hidle
  rw [← Option.not_isSome_iff_eq_none, ← Option.not_isSome_iff_eq_none] at hidle
  exact not_iff_not.mp hidle

end Line

end PeerCalls
