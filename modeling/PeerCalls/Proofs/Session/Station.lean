import PeerCalls.Proofs.Session.Rounds

/-!
# Runs of a session

A station is a session together with the state of the network under it.  What
happens at a station is a list of moves: the application uses the session, a
delivery takes its next step, or the network changes by itself.  Operations may
come between any two steps of a delivery, which is what callbacks do, so a
statement about all lists of moves is one about every order of operations,
callbacks and inbound items.
-/

namespace PeerCalls

/-- Something that happens at a station. -/
inductive Move (σ : Type) where
  /-- The application, or one of its callbacks, uses the session. -/
  | perform (command : Command)
  /-- The innermost delivery takes a step. -/
  | deliver
  /-- The network changes by itself. -/
  | drift (change : σ → σ)

/-- A session and the state of the network under it. -/
structure Station (σ : Type) where
  session : Session
  state : σ

namespace Station

variable {σ : Type}

/-- The station after a move.  Without a delivery under way there is none to take a step. -/
def after (network : Network σ) (station : Station σ) : Move σ → Station σ
  | .perform command =>
    let outcome := station.session.perform network station.state command
    ⟨outcome.session, outcome.network⟩
  | .deliver =>
    match station.session.advance with
    | some (_, session) => { station with session }
    | none => station
  | .drift change => { station with state := change station.state }

/-- The station after a list of moves. -/
def run (network : Network σ) (station : Station σ) (moves : List (Move σ)) : Station σ :=
  moves.foldl (after network) station

variable (network : Network σ) (station : Station σ)

@[simp] theorem run_nil : station.run network [] = station := rfl

@[simp] theorem run_concat (moves : List (Move σ)) (move : Move σ) :
    station.run network (moves ++ [move]) = (station.run network moves).after network move :=
  List.foldl_append

/-- What holds of a station and survives each move holds after every run. -/
theorem run_induction {network : Network σ} {P : Station σ → Prop}
    (step : ∀ station move, P station → P (station.after network move))
    {station : Station σ} (h : P station) (moves : List (Move σ)) :
    P (station.run network moves) := by
  induction moves generalizing station with
  | nil => exact h
  | cons move moves ih => exact ih (step station move h)

end Station

/-! ## What moves leave alone -/

namespace Session

variable {σ : Type} (network : Network σ)

/-- A step of a delivery only takes something off the deliveries. -/
theorem advance_eq {session after : Session} {step : DeliveryStep}
    (h : session.advance = some (step, after)) :
    after = { session with deliveries := after.deliveries } := by
  unfold advance at h
  split at h
  · cases h
  · split at h <;> cases h <;> rfl

/-- Beginning a delivery changes the deliveries, at most. -/
theorem dispatch_eq (session : Session) (events : List Event) (ofRound : Bool) :
    ∃ deliveries, session.dispatch events ofRound = { session with deliveries } := by
  unfold dispatch
  split
  · exact ⟨session.deliveries, rfl⟩
  · exact ⟨_, rfl⟩

/-- An operation other than closing works on the calls, the listener and the
deliveries of a session. -/
theorem session_perform (session : Session) (state : σ) {command : Command}
    (h : command ≠ .close) :
    ∃ registry listener deliveries, (session.perform network state command).session =
      { session with registry, listener, deliveries } := by
  cases command with
  | close => exact absurd rfl h
  | call friend rates =>
      rcases call_cases network session state friend rates with
        ⟨_, -, h⟩ | ⟨-, _, _, -, h⟩ | ⟨-, _, -, h⟩ <;>
        exact ⟨_, session.listener, session.deliveries, by rw [perform, h]; rfl⟩
  | answer friend rates =>
      rcases answer_cases network session state friend rates with
        ⟨_, h⟩ | ⟨_, -, ⟨_, _, -, h⟩ | ⟨_, -, ⟨_, _, -, h⟩ | ⟨_, -, h⟩⟩⟩ <;>
        exact ⟨_, session.listener, session.deliveries, by rw [perform, h]; rfl⟩
  | control friend command =>
      rcases control_cases network session state friend command with
        ⟨_, h⟩ | ⟨_, -, ⟨_, _, -, -, h⟩ | ⟨_, _, _, -, -, -, h⟩⟩ <;>
        exact ⟨_, session.listener, session.deliveries, by rw [perform, h]; rfl⟩
  | setRate friend kind rate force =>
      rcases setRate_cases network session state friend kind rate force with
        ⟨_, h⟩ | ⟨call, -, ⟨_, -, h⟩ | ⟨_, -, ⟨_, _, -, h⟩ | ⟨_, -, h⟩⟩⟩
      · exact ⟨_, session.listener, session.deliveries, by rw [perform, h]; rfl⟩
      · obtain ⟨deliveries, hdispatch⟩ :=
          session.dispatch_eq [.rateReport ⟨friend, kind, false, call.rates.get kind⟩] false
        exact ⟨_, session.listener, deliveries, by rw [perform, h]; exact hdispatch⟩
      · exact ⟨_, session.listener, session.deliveries, by rw [perform, h]; rfl⟩
      · obtain ⟨deliveries, hdispatch⟩ := (session.setCall (call.withRate kind rate)).dispatch_eq
          [.rateReport ⟨friend, kind, true, rate⟩] false
        exact ⟨_, session.listener, deliveries, by rw [perform, h]; exact hdispatch⟩
  | sendFrame friend payload =>
      exact ⟨session.registry, session.listener, session.deliveries,
        session_sendFrame network session state friend payload⟩
  | iterate =>
      rcases iterate_cases network session state with h | ⟨-, -, h⟩
      · exact ⟨_, session.listener, session.deliveries, by rw [perform, h]; rfl⟩
      · obtain ⟨deliveries, hdispatch⟩ := dispatch_eq
          { session with registry := (session.checked network state).registry.reap.2 }
          ((session.checked network state).events ++ session.requests network state) true
        exact ⟨_, session.listener, deliveries, by rw [perform, h]; exact hdispatch⟩
  | listen listener => exact ⟨session.registry, some listener, session.deliveries, rfl⟩

/-- No operation changes the configuration. -/
@[simp] theorem config_perform (session : Session) (state : σ) (command : Command) :
    (session.perform network state command).session.config = session.config := by
  by_cases h : command = .close
  · subst h
    simp only [perform, Outcome.map, close]
    split <;> rfl
  · obtain ⟨_, _, _, hsession⟩ := session_perform network session state h
    rw [hsession]

/-- No operation but closing closes a session, and none opens it again. -/
theorem closed_perform (session : Session) (state : σ) {command : Command}
    (h : command ≠ .close) :
    (session.perform network state command).session.closed = session.closed := by
  obtain ⟨_, _, _, hsession⟩ := session_perform network session state h
  rw [hsession]

/-- A closed session asks nothing of the network and changes nothing of itself but
its listener. -/
theorem perform_of_closed {session : Session} (h : session.closed = true) (state : σ)
    (command : Command) :
    ∃ reply listener,
      session.perform network state command = ⟨reply, { session with listener }, state⟩ := by
  cases command with
  | call friend rates =>
      have hrefusal : session.callRefusal? network state friend rates = some .closed := by
        simp [callRefusal?, h]
      exact ⟨_, session.listener, by rw [perform, call, hrefusal]; rfl⟩
  | answer friend rates =>
      have hrefusal : session.answerable network state friend rates = .error .closed := by
        simp [answerable, h]
      exact ⟨_, session.listener, by rw [perform, answer, hrefusal]; rfl⟩
  | control friend command =>
      have hrefusal : session.controllable network state friend command = .error .closed := by
        simp [controllable, h]
      exact ⟨_, session.listener, by rw [perform, control, hrefusal]; rfl⟩
  | setRate friend kind rate force =>
      have hrefusal : session.rateChangeable network state friend kind rate = .error .closed := by
        simp [rateChangeable, h]
      exact ⟨_, session.listener, by rw [perform, setRate, hrefusal]; rfl⟩
  | sendFrame friend payload =>
      have hrefusal : session.sendable network state friend payload = .error .closed := by
        simp [sendable, h]
      exact ⟨_, session.listener, by rw [perform, sendFrame, hrefusal]; rfl⟩
  | iterate =>
      have hidle : session.iterate network state = ⟨session.interval, session, state⟩ := by
        simp [iterate, h]
      exact ⟨_, session.listener, by rw [perform, hidle]; rfl⟩
  | close =>
      have hidle : session.close network state = ⟨(), session, state⟩ := by
        simp [close, h]
      exact ⟨_, session.listener, by rw [perform, hidle]; rfl⟩
  | listen listener => exact ⟨_, some listener, rfl⟩

end Session

namespace Station

variable {σ : Type} (network : Network σ)

@[simp] theorem config_after (station : Station σ) (move : Move σ) :
    (station.after network move).session.config = station.session.config := by
  cases move with
  | perform command => exact Session.config_perform network station.session station.state command
  | deliver =>
      simp only [after]
      split
      · rename_i step session h
        rw [Session.advance_eq h]
      · rfl
  | drift change => rfl

@[simp] theorem config_run (station : Station σ) (moves : List (Move σ)) :
    (station.run network moves).session.config = station.session.config :=
  run_induction
    (P := fun current => current.session.config = station.session.config)
    (fun current move h => by rw [config_after, h]) rfl moves

/-- A session that is closed along a run has no calls. -/
theorem registry_of_closed {network : Network σ} {station : Station σ}
    (hopen : station.session.closed = false) (moves : List (Move σ)) :
    (station.run network moves).session.closed = true →
      (station.run network moves).session.registry = .empty := by
  refine run_induction
    (P := fun current => current.session.closed = true → current.session.registry = .empty)
    (fun current move h hclosed => ?_) (fun hclosed => ?_) moves
  · cases move with
    | drift change => exact h hclosed
    | deliver =>
        simp only [after] at hclosed ⊢
        split at hclosed
        · rename_i step session hadvance
          rw [Session.advance_eq hadvance] at hclosed ⊢
          exact h hclosed
        · exact h hclosed
    | perform command =>
        cases hcurrent : current.session.closed with
        | true =>
            obtain ⟨reply, listener, hperform⟩ :=
              Session.perform_of_closed network hcurrent current.state command
            simp only [after, hperform]
            exact h hcurrent
        | false =>
            -- only closing closes an open session, and it empties the registry
            by_cases hcommand : command = .close
            · subst hcommand
              simp [after, Session.perform, Outcome.map, Session.close, hcurrent, Registry.drain]
            · simp only [after] at hclosed
              rw [Session.closed_perform network _ _ hcommand, hcurrent] at hclosed
              cases hclosed
  · rw [hopen] at hclosed
    cases hclosed

end Station

end PeerCalls
