import PeerCalls.Proofs.Session.Outcomes

/-!
# The parts of a round

A round takes inbound items, checks the friends of all calls, reaps what is over
and asks for frames.  The names below stand for what lies between these parts,
and each of the two loops gets its induction once: a property that survives one
item survives all of them, and a property that survives one check survives the
checks of all friends.
-/

namespace PeerCalls

namespace Progress

variable {σ : Type} {network : Network σ}

/-- What holds before the inbound items and survives each of them holds after them. -/
theorem takeInbound_induction {config : Config} {P : Progress → σ → Prop}
    (quiet : ∀ progress state after, P progress state → network.poll state = (none, after) →
      P progress after)
    (item : ∀ progress state received after, P progress state →
      network.poll state = (some received, after) → P (progress.handle config received) after)
    (limit : Nat) {progress : Progress} {state : σ} (h : P progress state) :
    P (takeInbound network config limit progress state).1
      (takeInbound network config limit progress state).2 := by
  induction limit generalizing progress state with
  | zero => exact h
  | succ limit ih =>
      unfold takeInbound
      match hpoll : network.poll state with
      | (none, after) => exact quiet progress state after h hpoll
      | (some received, after) => exact ih (item progress state received after h hpoll)

/-- What holds before the friends are checked and survives each check holds after them. -/
theorem checkConnectivity_induction {state : σ} {P : Progress → Prop}
    (check : ∀ progress friend, P progress → P (checkFriend network state progress friend))
    {progress : Progress} (h : P progress) : P (progress.checkConnectivity network state) := by
  unfold checkConnectivity
  induction progress.registry.friends generalizing progress with
  | nil => exact h
  | cons friend rest ih => exact ih (check progress friend h)

end Progress

namespace Session

variable {σ : Type} (network : Network σ) (session : Session) (state : σ)

/-- The calls, the events and the network once a round has taken its inbound items. -/
def taken : Progress × σ :=
  Progress.takeInbound network session.config session.config.inboundLimit.toNat
    ⟨session.registry, []⟩ state

/-- The calls and the events once a round has checked the friends of all calls. -/
def checked : Progress :=
  (session.taken network state).1.checkConnectivity network (session.taken network state).2

/-- The requests for frames that a round ends with. -/
def requests : List Event :=
  (session.checked network state).registry.reap.2.calls.flatMap Call.frameRequests

theorem round_eq :
    session.round network state =
      { answer := session.config.pace (session.checked network state).registry.reap.2
        session :=
          { session with registry := (session.checked network state).registry.reap.2 }.dispatch
            ((session.checked network state).events ++ session.requests network state) true
        network := (session.checked network state).registry.finished.foldl
          (fun state friend => network.closeMedia friend state)
          (session.taken network state).2 } :=
  rfl

/-- A round begins unless the session is closed or another round is being delivered. -/
theorem iterate_cases :
    session.iterate network state = ⟨session.interval, session, state⟩ ∨
      session.closed = false ∧ session.isIterating = false ∧
        session.iterate network state = session.round network state := by
  unfold iterate
  cases hclosed : session.closed with
  | true => exact Or.inl rfl
  | false =>
      cases hiterating : session.isIterating with
      | true => exact Or.inl rfl
      | false => exact Or.inr ⟨rfl, rfl, rfl⟩

theorem iterate_of_open {session : Session} (hopen : session.closed = false)
    (hidle : session.isIterating = false) :
    session.iterate network state = session.round network state := by
  simp [iterate, hopen, hidle]

@[simp] theorem registry_round :
    (session.round network state).session.registry =
      (session.checked network state).registry.reap.2 := by
  simp [round_eq]

@[simp] theorem config_round : (session.round network state).session.config = session.config := by
  simp [round_eq]

@[simp] theorem closed_round : (session.round network state).session.closed = session.closed := by
  simp [round_eq]

end Session

end PeerCalls
