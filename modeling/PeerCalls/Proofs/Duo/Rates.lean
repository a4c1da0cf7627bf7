import PeerCalls.Proofs.Duo.Line

/-!
# What each side knows of the other one's rates

A side learns the rates of the other one from three kinds of signals, which wait among others
until they are heard.  What it knows is therefore not what the other side sends at, but what
the other side sends at once everything that waits has been heard.  This is the invariant
(`Line.Told`), and it survives whatever either side hears or says as long as nobody calls:
what a side says is added to what waits at the very moment in which its rates change.

A line begins `Unused`.  From the first invitation until it is heard there is nothing to be
known yet, and the line is `Invited`.  The three stages make up `Line.CalledOnce`.
-/

namespace PeerCalls

/-- The rates that the speaker is known to send at once the signal is heard. -/
def Signal.announced (rates : Rates) : Signal → Rates
  | .invite rates => rates
  | .answer rates => rates
  | .bitRate kind rate => rates.set rate kind
  | .control _ => rates

/-! ## One signal -/

namespace Call

variable {call after : Call}

theorem rates_of_pause (h : call.after? .pause = some after) :
    after.rates = call.rates ∧ after.peerRates = call.peerRates := by
  obtain ⟨-, rfl⟩ := of_pause h
  exact ⟨rfl, rfl⟩

theorem rates_of_resume (h : call.after? .resume = some after) :
    after.rates = call.rates ∧ after.peerRates = call.peerRates := by
  obtain ⟨-, rfl⟩ := of_resume h
  exact ⟨rfl, rfl⟩

/-- No command changes a rate. -/
theorem rates_of_obey {command : Control} (h : call.obey? command = some after) :
    after.rates = call.rates ∧ after.peerRates = call.peerRates := by
  cases command with
  | cancel =>
      have hlive : call.after? .cancel = some after := h
      simp only [after?, Option.ite_none_right_eq_some, Option.some.injEq] at hlive
      obtain ⟨-, rfl⟩ := hlive
      exact ⟨rfl, rfl⟩
  | pause => exact rates_of_pause h
  | resume => exact rates_of_resume h
  | muteAudio => cases h; exact ⟨rfl, rfl⟩
  | unmuteAudio => cases h; exact ⟨rfl, rfl⟩
  | hideVideo => cases h; exact ⟨rfl, rfl⟩
  | showVideo => cases h; exact ⟨rfl, rfl⟩

theorem rates_withRate (hlive : call.isLive = true) (hring : call.state.isRinging = false)
    (kind : MediaKind) (rate : UInt32) :
    (call.withRate kind rate).rates = call.rates.set rate kind ∧
      (call.withRate kind rate).peerRates = call.peerRates := by
  rcases isEstablished_or_isPaused hlive hring with hstate | hstate
  · rw [withRate_of_isEstablished hstate]
    exact ⟨rfl, rfl⟩
  · rw [withRate_of_isPaused hstate]
    exact ⟨rfl, rfl⟩

end Call

section Signals

variable {friend : Friend} {entry : Option Call} {signal : Signal} {after : Call}

/-- A call in which a signal is heard knows the rates that the signal announces, and keeps
its own. -/
theorem rates_of_heard (hmark : signal.mark? ≠ some .invite)
    (h : heard friend entry signal = some after) :
    ∃ call ∈ entry, after.rates = call.rates ∧
      after.peerRates = signal.announced call.peerRates := by
  cases signal with
  | invite rates => exact absurd rfl hmark
  | answer rates =>
      obtain ⟨call, hentry, hfits⟩ := Option.bind_eq_some_iff.mp h
      obtain ⟨-, -, rfl⟩ := Call.of_remoteAnswered hfits
      exact ⟨call, hentry, rfl, rfl⟩
  | bitRate kind rate =>
      obtain ⟨call, hentry, rfl⟩ := Option.map_eq_some_iff.mp h
      exact ⟨call, hentry, rfl, rfl⟩
  | control command =>
      cases command with
      | cancel => cases h
      | pause =>
          obtain ⟨call, hentry, rfl⟩ := Option.map_eq_some_iff.mp h
          refine ⟨call, hentry, ?_⟩
          cases hfits : call.after? .pause with
          | none => exact ⟨rfl, rfl⟩
          | some paused => exact Call.rates_of_pause hfits
      | resume =>
          obtain ⟨call, hentry, rfl⟩ := Option.map_eq_some_iff.mp h
          refine ⟨call, hentry, ?_⟩
          cases hfits : call.after? .resume with
          | none => exact ⟨rfl, rfl⟩
          | some resumed => exact Call.rates_of_resume hfits
      | muteAudio => exact ⟨after, h, rfl, rfl⟩
      | unmuteAudio => exact ⟨after, h, rfl, rfl⟩
      | hideVideo => exact ⟨after, h, rfl, rfl⟩
      | showVideo => exact ⟨after, h, rfl, rfl⟩

/-- A side says what it sends at, and learns nothing from it. -/
theorem rates_of_says (hmark : signal.mark? ≠ some .invite)
    (hlive : ∀ call ∈ entry, call.isLive = true) (h : Says friend entry signal (some after)) :
    ∃ call ∈ entry, after.rates = signal.announced call.rates ∧
      after.peerRates = call.peerRates := by
  generalize hlater : some after = later at h
  cases h with
  | invite rates => exact absurd rfl hmark
  | @answer call _ rates =>
      obtain rfl := Option.some.inj hlater
      exact ⟨call, rfl, rfl, rfl⟩
  | hangUp call => cases hlater
  | @command call obeyed command _ _ _ hobeys =>
      obtain rfl := Option.some.inj hlater
      exact ⟨call, rfl, Call.rates_of_obey hobeys⟩
  | @rate call hrunning kind rate =>
      obtain rfl := Option.some.inj hlater
      exact ⟨call, rfl, Call.rates_withRate (hlive call rfl) hrunning kind rate⟩

end Signals

/-! ## The line -/

namespace Line

/-- Nobody has called yet. -/
structure Unused (line : Line) : Prop where
  idle : ∀ side, line.call side = none
  silent : ∀ side, line.waiting side = []

/-- The side has called, and the other one has not heard of it; meanwhile the side may have
hung up. -/
structure Invited (number : Side → Friend) (line : Line) (side : Side) : Prop where
  unheard : line.call side.other = none
  silent : line.waiting side = []
  said : ∃ rates,
    (line.call side = some (.outgoing (number side) rates) ∧
      line.waiting side.other = [.invite rates]) ∨
    (line.call side = none ∧ line.waiting side.other = [.invite rates, .control .cancel])

/-- Nobody is called any more, and each side will know the rates of the other one once it has
heard everything. -/
structure Told (line : Line) : Prop where
  uninvited : ∀ side, ∀ signal ∈ line.waiting side, signal.mark? ≠ some .invite
  told : ∀ side, ∀ own ∈ line.call side, ∀ theirs ∈ line.call side.other,
    (line.waiting side.other).foldl Signal.announced theirs.peerRates = own.rates

/-- One of the two sides has called, or none has, and they keep track of each other. -/
structure CalledOnce (number : Side → Friend) (line : Line) : Prop where
  inStep : line.talk.InStep
  stage : (∃ side, line.Invited number side) ∨ line.Told

variable {number : Side → Friend} {line : Line} {side : Side} {signal : Signal}
  {later : List Signal} {after : Option Call}

theorem Unused.told (h : line.Unused) : line.Told where
  uninvited side signal hmem := by
    rw [h.silent side] at hmem
    cases hmem
  told side own hown := by
    rw [h.idle side] at hown
    cases hown

theorem Unused.inStep (h : line.Unused) : line.talk.InStep := by
  refine Or.inl ⟨.left, ?_, Or.inl ?_⟩
  · simp only [talk, h.idle, h.silent]
    exact .idle
  · simp only [talk, h.silent]
    rfl

theorem Unused.calledOnce (h : line.Unused) : line.CalledOnce number :=
  ⟨h.inStep, Or.inr h.told⟩

/-! ### Hearing -/

/-- The call is heard of, and with it the rates of the caller. -/
theorem Invited.hear (h : line.Invited number side) {listener : Side}
    (hwaiting : line.waiting listener = signal :: later) :
    (line.hear number listener signal later).Told := by
  obtain ⟨hunheard, hsilent, rates, hsaid⟩ := h
  rcases side.eq_or_eq_other listener with rfl | rfl
  · -- nothing waits for the caller
    rw [hsilent] at hwaiting
    cases hwaiting
  rw [Side.other_other] at hunheard hsaid
  obtain ⟨rfl, hcall, hcancels⟩ : signal = .invite rates ∧
      (∀ call ∈ line.call listener.other, call = .outgoing (number listener.other) rates ∧
        later = []) ∧
      ∀ waiting ∈ later, waiting = .control .cancel := by
    rcases hsaid with ⟨hcall, hlist⟩ | ⟨hcall, hlist⟩
    all_goals
      rw [hlist] at hwaiting
      cases hwaiting
      simp [hcall]
  have hentered : (line.hear number listener (.invite rates) later).call listener =
      some (.incoming (number listener) rates) := by
    rw [call_hear_self, hunheard]
    rfl
  refine ⟨fun own waiting hmem => ?_, fun own call hown theirs htheirs => ?_⟩
  · rcases own.eq_or_eq_other listener with rfl | rfl
    · rw [waiting_hear_self] at hmem
      rw [hcancels waiting hmem]
      simp [Signal.mark?]
    · rw [waiting_hear_other, hsilent] at hmem
      cases hmem
  · rcases own.eq_or_eq_other listener with rfl | rfl
    · rw [hentered] at hown
      rw [call_hear_other] at htheirs
      obtain ⟨rfl, -⟩ := hcall theirs htheirs
      cases hown
      rw [waiting_hear_other, hsilent]
      rfl
    · rw [Side.other_other] at htheirs ⊢
      rw [hentered] at htheirs
      rw [call_hear_other] at hown
      obtain ⟨rfl, rfl⟩ := hcall call hown
      cases htheirs
      rw [waiting_hear_self]
      rfl

/-- What is heard is known from then on, and need not wait any more. -/
theorem Told.hear (h : line.Told) (hwaiting : line.waiting side = signal :: later) :
    (line.hear number side signal later).Told := by
  have hmark : signal.mark? ≠ some .invite := h.uninvited side signal (by simp [hwaiting])
  refine ⟨fun own waiting hmem => ?_, fun own call hown theirs htheirs => ?_⟩
  · rcases own.eq_or_eq_other side with rfl | rfl
    · rw [waiting_hear_self] at hmem
      exact h.uninvited own waiting (by simp [hwaiting, hmem])
    · rw [waiting_hear_other] at hmem
      exact h.uninvited side.other waiting hmem
  · rcases own.eq_or_eq_other side with rfl | rfl
    · rw [call_hear_self] at hown
      rw [call_hear_other] at htheirs
      obtain ⟨before, hbefore, hrates, -⟩ := rates_of_heard hmark hown
      rw [waiting_hear_other, hrates]
      exact h.told own before hbefore theirs htheirs
    · rw [Side.other_other] at htheirs ⊢
      rw [call_hear_self] at htheirs
      rw [call_hear_other] at hown
      obtain ⟨before, hbefore, -, hknown⟩ := rates_of_heard hmark htheirs
      have htold := h.told side.other call hown before (by rwa [Side.other_other])
      rw [Side.other_other, hwaiting] at htold
      rw [waiting_hear_self, hknown]
      exact htold

theorem CalledOnce.fits (h : line.CalledOnce number) (side : Side) : line.Fits side :=
  fits_of_inStep h.inStep side

theorem CalledOnce.hear (hsound : line.Sound) (h : line.CalledOnce number)
    (hwaiting : line.waiting side = signal :: later) :
    (line.hear number side signal later).CalledOnce number := by
  refine ⟨inStep_hear hsound h.inStep hwaiting, Or.inr ?_⟩
  rcases h.stage with ⟨caller, hinvited⟩ | htold
  · exact hinvited.hear hwaiting
  · exact htold.hear hwaiting

/-! ### Speaking -/

/-- All that can be said to begin with is an invitation. -/
theorem Unused.say (h : line.Unused) (hspeech : Says (number side) (line.call side) signal after) :
    (∃ rates, signal = .invite rates) ∧ (line.say side signal after).Invited number side := by
  rw [h.idle side] at hspeech
  cases hspeech with
  | invite rates =>
      refine ⟨⟨rates, rfl⟩, ?_, ?_, rates, Or.inl ⟨call_say_self, ?_⟩⟩
      · rw [call_say_other, h.idle]
      · rw [waiting_say_self, h.silent]
      · rw [waiting_say_other, h.silent]
        rfl

theorem Unused.say_calledOnce (hsound : line.Sound) (h : line.Unused)
    (hspeech : Says (number side) (line.call side) signal after) :
    (line.say side signal after).CalledOnce number := by
  refine ⟨(inStep_say_iff hsound h.inStep hspeech).mpr fun waiting hmem => ?_,
    Or.inl ⟨side, ?_⟩⟩
  · rw [h.silent] at hmem
    cases hmem
  · exact (h.say hspeech).2

/-- Until the call is heard of, the caller can only hang up, and the other side can say nothing
but an invitation. -/
theorem Invited.say (h : line.Invited number side) {speaker : Side}
    (hspeech : Says (number speaker) (line.call speaker) signal after)
    (hmark : signal.mark? ≠ some .invite) :
    speaker = side ∧ (line.say speaker signal after).Invited number side := by
  obtain ⟨hunheard, hsilent, rates, hsaid⟩ := h
  have hidle : ∀ {signal after}, Says (number speaker) none signal after →
      signal.mark? = some .invite := by
    intro signal after hspeech
    cases hspeech
    rfl
  rcases speaker.eq_or_eq_other side with rfl | rfl
  · rcases hsaid with ⟨hcall, hlist⟩ | ⟨hcall, hlist⟩
    · rw [hcall] at hspeech
      cases hspeech with
      | answer hanswerable rates => cases hanswerable
      | hangUp call =>
          refine ⟨rfl, ?_, ?_, rates, Or.inr ⟨call_say_self, ?_⟩⟩
          · rw [call_say_other, hunheard]
          · rw [waiting_say_self, hsilent]
          · rw [waiting_say_other, hlist]
            rfl
      | command hrunning _ _ _ => cases hrunning
      | rate hrunning _ _ => cases hrunning
    · rw [hcall] at hspeech
      exact absurd (hidle hspeech) hmark
  · rw [hunheard] at hspeech
    exact absurd (hidle hspeech) hmark

/-- What is said tells of the very change that the speaker makes. -/
theorem Told.say (hsound : line.Sound) (h : line.Told)
    (hspeech : Says (number side) (line.call side) signal after)
    (hmark : signal.mark? ≠ some .invite) : (line.say side signal after).Told := by
  have hrates : ∀ later ∈ after, ∃ call ∈ line.call side,
      later.rates = signal.announced call.rates ∧ later.peerRates = call.peerRates := by
    rintro later rfl
    exact rates_of_says hmark (fun call hcall => (hsound side call hcall).1) hspeech
  refine ⟨fun own waiting hmem => ?_, fun own call hown theirs htheirs => ?_⟩
  · rcases own.eq_or_eq_other side with rfl | rfl
    · rw [waiting_say_self] at hmem
      exact h.uninvited own waiting hmem
    · rw [waiting_say_other] at hmem
      rcases List.mem_append.mp hmem with hbefore | hnew
      · exact h.uninvited side.other waiting hbefore
      · rwa [List.mem_singleton.mp hnew]
  · rcases own.eq_or_eq_other side with rfl | rfl
    · rw [call_say_self] at hown
      rw [call_say_other] at htheirs
      obtain ⟨before, hbefore, hsaid, -⟩ := hrates call hown
      rw [waiting_say_other, List.foldl_append, h.told own before hbefore theirs htheirs, hsaid]
      rfl
    · rw [Side.other_other] at htheirs ⊢
      rw [call_say_self] at htheirs
      rw [call_say_other] at hown
      obtain ⟨before, hbefore, -, hknown⟩ := hrates theirs htheirs
      have htold := h.told side.other call hown before (by rwa [Side.other_other])
      rw [Side.other_other] at htold
      rw [waiting_say_self, hknown]
      exact htold

theorem CalledOnce.say (hsound : line.Sound) (h : line.CalledOnce number)
    (hspeech : Says (number side) (line.call side) signal after)
    (hmark : signal.mark? ≠ some .invite) : (line.say side signal after).CalledOnce number := by
  rcases h.stage with ⟨caller, hinvited⟩ | htold
  · obtain ⟨rfl, hafter⟩ := hinvited.say hspeech hmark
    refine ⟨(inStep_say_iff hsound h.inStep hspeech).mpr fun waiting hmem => ?_,
      Or.inl ⟨side, hafter⟩⟩
    rw [hinvited.silent] at hmem
    cases hmem
  · exact ⟨inStep_say_uninvited hsound h.inStep hspeech hmark (htold.uninvited side),
      Or.inr (htold.say hsound hspeech hmark)⟩

/-! ### What is known in the end -/

/-- When nothing waits any more, each side knows the rates of the other one. -/
theorem CalledOnce.peerRates_eq (h : line.CalledOnce number)
    (hquiet : ∀ side, line.waiting side = []) {own theirs : Call} (hown : line.call side = some own)
    (htheirs : line.call side.other = some theirs) : theirs.peerRates = own.rates := by
  rcases h.stage with ⟨caller, hinvited⟩ | htold
  · obtain ⟨rates, ⟨-, hlist⟩ | ⟨-, hlist⟩⟩ := hinvited.said
    all_goals
      rw [hquiet] at hlist
      cases hlist
  · have hknown := htold.told side own hown theirs htheirs
    rwa [hquiet] at hknown

end Line

end PeerCalls
