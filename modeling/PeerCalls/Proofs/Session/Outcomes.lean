import PeerCalls.Proofs.Call.Transition
import PeerCalls.Proofs.Registry.Map
import PeerCalls.Session.Command

/-!
# What an operation comes to

For each operation on one call this file lists, once and for all, how it can end:
refused before anything is asked of the network, failed at a request to the
network, or done.  Each case gives the whole outcome, that is the answer, the
session and the state of the network, together with the guards that led there.
No later file opens an operation; it goes through these cases.
-/

namespace PeerCalls.Session

variable {σ : Type} {network : Network σ} {session : Session} {state : σ} {friend : Friend}

/-! ## Parts of a session that an operation leaves alone -/

@[simp] theorem registry_setCall (session : Session) (call : Call) :
    (session.setCall call).registry = session.registry.set call := rfl

@[simp] theorem config_setCall (session : Session) (call : Call) :
    (session.setCall call).config = session.config := rfl

@[simp] theorem closed_setCall (session : Session) (call : Call) :
    (session.setCall call).closed = session.closed := rfl

@[simp] theorem deliveries_setCall (session : Session) (call : Call) :
    (session.setCall call).deliveries = session.deliveries := rfl

@[simp] theorem registry_dispatch (session : Session) (events : List Event) (ofRound : Bool) :
    (session.dispatch events ofRound).registry = session.registry := by
  unfold dispatch
  split <;> rfl

@[simp] theorem config_dispatch (session : Session) (events : List Event) (ofRound : Bool) :
    (session.dispatch events ofRound).config = session.config := by
  unfold dispatch
  split <;> rfl

@[simp] theorem closed_dispatch (session : Session) (events : List Event) (ofRound : Bool) :
    (session.dispatch events ofRound).closed = session.closed := by
  unfold dispatch
  split <;> rfl

/-! ## Opening a session -/

/-- A session is opened without calls, under a usable configuration and on a network
that it claims. -/
theorem attach_eq_ok {config : Config} {opened : σ}
    (h : attach network config state = (.ok session, opened)) :
    ∃ usable, session = fresh config usable ∧ network.attach state = (true, opened) := by
  unfold attach at h
  split at h
  · cases h
  · rename_i usable
    split at h
    · rename_i after hattach
      cases h
      exact ⟨usable, rfl, hattach⟩
    · cases h

/-- A usable configuration opens a session on a network that nobody has claimed. -/
theorem attach_of_usable {config : Config} {opened : σ} (usable : config.Usable)
    (h : network.attach state = (true, opened)) :
    attach network config state = (.ok (fresh config usable), opened) := by
  unfold attach
  split
  · rename_i defect hdefect
    rw [usable] at hdefect
    cases hdefect
  · rw [h]

/-! ## Placing a call -/

/-- A call is tried when the session is open, the friend is known, free and
connected, and the rates are allowed. -/
theorem callRefusal?_eq_none_iff {rates : Rates} :
    session.callRefusal? network state friend rates = none ↔
      session.closed = false ∧ network.knows state friend = true ∧
        session.registry.live? friend = none ∧ (network.status state friend).isConnected = true ∧
        session.config.unsupportedRate? rates = none := by
  rw [← Registry.isInCall_eq_false_iff]
  unfold callRefusal?
  cases session.config.unsupportedRate? rates <;> grind

/-- A refusal comes before the push, so it is never a failure of the push. -/
theorem callRefusal?_ne_signaling {rates : Rates} (cause : NetworkError) :
    session.callRefusal? network state friend rates ≠ some (.signaling cause) := by
  intro h
  unfold callRefusal? at h
  split at h
  · cases h
  split at h
  · cases h
  split at h
  · cases h
  split at h
  · cases h
  cases hrates : session.config.unsupportedRate? rates <;> simp [hrates] at h

/-- The ways in which placing a call ends. -/
theorem call_cases (network : Network σ) (session : Session) (state : σ) (friend : Friend)
    (rates : Rates) :
    (∃ refusal, session.callRefusal? network state friend rates = some refusal ∧
      session.call network state friend rates = ⟨.error refusal, session, state⟩) ∨
    (session.callRefusal? network state friend rates = none ∧
      ∃ cause after, network.sendSignal friend (.invite rates) state = (.error cause, after) ∧
        session.call network state friend rates =
          ⟨.error (.signaling cause),
            { session with
              registry := (session.registry.set (.outgoing friend rates)).remove friend }, after⟩) ∨
    (session.callRefusal? network state friend rates = none ∧
      ∃ after, network.sendSignal friend (.invite rates) state = (.ok (), after) ∧
        session.call network state friend rates =
          ⟨.ok (), session.setCall (.outgoing friend rates), after⟩) := by
  unfold call
  cases hrefusal : session.callRefusal? network state friend rates with
  | some refusal => exact Or.inl ⟨refusal, rfl, rfl⟩
  | none =>
      match hpush : network.sendSignal friend (.invite rates) state with
      | (.error cause, after) => exact Or.inr (Or.inl ⟨rfl, cause, after, rfl, rfl⟩)
      | (.ok (), after) => exact Or.inr (Or.inr ⟨rfl, after, rfl, rfl⟩)

/-! ## Answering a call -/

/-- A call may be answered when it is live, incoming and ringing, and the rates are allowed. -/
theorem answerable_eq_ok {rates : Rates} {call : Call}
    (h : session.answerable network state friend rates = .ok call) :
    session.closed = false ∧ network.knows state friend = true ∧
      session.registry.live? friend = some call ∧ call.isAnswerable = true ∧
      session.config.unsupportedRate? rates = none := by
  unfold answerable at h
  split at h
  · cases h
  rename_i hclosed
  split at h
  · cases h
  rename_i hknows
  split at h
  · cases h
  rename_i found hfound
  obtain ⟨hlive, hanswerable⟩ := Option.filter_eq_some_iff.mp hfound
  split at h
  · cases h
  rename_i hrates
  cases h
  exact ⟨by simpa using hclosed, by simpa using hknows, hlive, hanswerable, hrates⟩

/-- The ways in which answering a call ends. -/
theorem answer_cases (network : Network σ) (session : Session) (state : σ) (friend : Friend)
    (rates : Rates) :
    (∃ refusal, session.answer network state friend rates = ⟨.error refusal, session, state⟩) ∨
    ∃ call, session.answerable network state friend rates = .ok call ∧
      ((∃ cause after, network.openMedia friend rates state = (.error cause, after) ∧
        session.answer network state friend rates =
          ⟨.error (.codecSetup cause.message), session, after⟩) ∨
      ∃ prepared, network.openMedia friend rates state = (.ok (), prepared) ∧
        ((∃ cause after,
          network.sendSignal friend (.answer rates) prepared = (.error cause, after) ∧
          session.answer network state friend rates =
            ⟨.error (.signaling cause), session, network.closeMedia friend after⟩) ∨
        ∃ after, network.sendSignal friend (.answer rates) prepared = (.ok (), after) ∧
          session.answer network state friend rates =
            ⟨.ok (.running rates), session.setCall (call.answered rates), after⟩)) := by
  unfold answer
  cases hcall : session.answerable network state friend rates with
  | error refusal => exact Or.inl ⟨refusal, rfl⟩
  | ok call =>
      refine Or.inr ⟨call, rfl, ?_⟩
      match hopen : network.openMedia friend rates state with
      | (.error cause, after) => exact Or.inl ⟨cause, after, rfl, rfl⟩
      | (.ok (), prepared) =>
          refine Or.inr ⟨prepared, rfl, ?_⟩
          match hpush : network.sendSignal friend (.answer rates) prepared with
          | (.error cause, after) => exact Or.inl ⟨cause, after, rfl, by simp [hpush]⟩
          | (.ok (), after) =>
              have hfit : call.after? (.localAnswered rates) = some (call.answered rates) :=
                Call.after?_localAnswered (answerable_eq_ok hcall).2.2.2.1 rates
              exact Or.inr ⟨after, rfl, by simp [hpush, hfit, Call.answered]⟩

/-! ## Commanding a call -/

/-- A command is given to a live call; a call that rings is only cancelled. -/
theorem controllable_eq_ok {command : Control} {call : Call}
    (h : session.controllable network state friend command = .ok call) :
    session.closed = false ∧ network.knows state friend = true ∧
      session.registry.live? friend = some call ∧
      (call.state.isRinging = true → command = .cancel) ∧ call.refusal? command = none := by
  unfold controllable at h
  split at h
  · cases h
  rename_i hclosed
  split at h
  · cases h
  rename_i hknows
  split at h
  · cases h
  rename_i found hfound
  split at h
  · cases h
  rename_i hring
  split at h
  · cases h
  rename_i hrefusal
  cases h
  exact ⟨by simpa using hclosed, by simpa using hknows, hfound, by simpa using hring, hrefusal⟩

/-- The ways in which commanding a call ends.  A command that was pushed has taken
effect, and so has a hang-up that was not. -/
theorem control_cases (network : Network σ) (session : Session) (state : σ) (friend : Friend)
    (command : Control) :
    (∃ refusal, session.control network state friend command =
      ⟨.error refusal, session, state⟩) ∨
    ∃ call, session.controllable network state friend command = .ok call ∧
      ((∃ cause after, command ≠ .cancel ∧
        network.sendSignal friend (.control command) state = (.error cause, after) ∧
        session.control network state friend command =
          ⟨.error (.signaling cause), session, after⟩) ∨
      ∃ result after obeyed,
        network.sendSignal friend (.control command) state = (result, after) ∧
        (result = .ok () ∨ command = .cancel) ∧ call.obey? command = some obeyed ∧
        session.control network state friend command =
          ⟨.ok obeyed.state, session.setCall obeyed, after⟩) := by
  unfold control
  cases hcall : session.controllable network state friend command with
  | error refusal => exact Or.inl ⟨refusal, rfl⟩
  | ok call =>
      refine Or.inr ⟨call, rfl, ?_⟩
      obtain ⟨-, -, hlive, hring, hrefusal⟩ := controllable_eq_ok hcall
      obtain ⟨obeyed, hobeyed⟩ : ∃ obeyed, call.obey? command = some obeyed := by
        rcases Call.obey?_of_not_refused (Registry.isLive_of_live? hlive) hring hrefusal with
          ⟨kind, withheld, -, h⟩ | ⟨transition, after, -, -, h⟩
        · exact ⟨_, h⟩
        · exact ⟨_, h⟩
      match hpush : network.sendSignal friend (.control command) state with
      | (.ok (), after) =>
          exact Or.inr ⟨.ok (), after, obeyed, rfl, Or.inl rfl, hobeyed, by simp [obeying, hobeyed]⟩
      | (.error cause, after) =>
          by_cases hcancel : command = .cancel
          · subst hcancel
            exact Or.inr ⟨.error cause, after, obeyed, rfl, Or.inr rfl, hobeyed,
              by simp [obeying, hobeyed]⟩
          · exact Or.inl ⟨cause, after, hcancel, rfl, by simp [hcancel]⟩

/-! ## Changing a rate -/

/-- A rate is changed in a live call that does not ring, if it is allowed. -/
theorem rateChangeable_eq_ok {kind : MediaKind} {rate : UInt32} {call : Call}
    (h : session.rateChangeable network state friend kind rate = .ok call) :
    session.closed = false ∧ network.knows state friend = true ∧
      session.registry.live? friend = some call ∧ call.state.isRinging = false ∧
      session.config.supportsBitRate kind rate = true := by
  unfold rateChangeable at h
  split at h
  · cases h
  rename_i hclosed
  split at h
  · cases h
  rename_i hknows
  split at h
  · cases h
  rename_i found hfound
  obtain ⟨hlive, hring⟩ := Option.filter_eq_some_iff.mp hfound
  split at h
  · rename_i hrate
    cases h
    exact ⟨by simpa using hclosed, by simpa using hknows, hlive, by simpa using hring, hrate⟩
  · cases h

/-- The ways in which changing a rate ends. -/
theorem setRate_cases (network : Network σ) (session : Session) (state : σ) (friend : Friend)
    (kind : MediaKind) (rate : UInt32) (force : Bool) :
    (∃ refusal, session.setRate network state friend kind rate force =
      ⟨.error refusal, session, state⟩) ∨
    ∃ call, session.rateChangeable network state friend kind rate = .ok call ∧
      ((∃ asked, linkCarries network state friend kind rate force = (false, asked) ∧
        session.setRate network state friend kind rate force =
          session.reporting asked ⟨friend, kind, false, call.rates.get kind⟩) ∨
      ∃ asked, linkCarries network state friend kind rate force = (true, asked) ∧
        ((∃ cause after,
          network.sendSignal friend (.bitRate kind rate) asked = (.error cause, after) ∧
          session.setRate network state friend kind rate force =
            ⟨.error (.signaling cause), session, after⟩) ∨
        ∃ after, network.sendSignal friend (.bitRate kind rate) asked = (.ok (), after) ∧
          session.setRate network state friend kind rate force =
            (session.setCall (call.withRate kind rate)).reporting after
              ⟨friend, kind, true, rate⟩)) := by
  unfold setRate
  cases hcall : session.rateChangeable network state friend kind rate with
  | error refusal => exact Or.inl ⟨refusal, rfl⟩
  | ok call =>
      refine Or.inr ⟨call, rfl, ?_⟩
      match hlink : linkCarries network state friend kind rate force with
      | (false, asked) => exact Or.inl ⟨asked, rfl, rfl⟩
      | (true, asked) =>
          refine Or.inr ⟨asked, rfl, ?_⟩
          match hpush : network.sendSignal friend (.bitRate kind rate) asked with
          | (.error cause, after) => exact Or.inl ⟨cause, after, rfl, by simp [hpush]⟩
          | (.ok (), after) => exact Or.inr ⟨after, rfl, by simp [hpush]⟩

/-! ## Sending a frame -/

/-- Sending a frame never changes the session. -/
@[simp] theorem session_sendFrame (network : Network σ) (session : Session) (state : σ)
    (friend : Friend) (payload : Payload) :
    (session.sendFrame network state friend payload).session = session := by
  unfold sendFrame
  split
  · rfl
  · split <;> rfl

end PeerCalls.Session
