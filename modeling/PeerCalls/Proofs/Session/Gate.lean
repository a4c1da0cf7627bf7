import PeerCalls.Loopback
import PeerCalls.Network.Recorded
import PeerCalls.Proofs.Call.Coherence
import PeerCalls.Proofs.Media.Owned

/-!
# The gate for frames

Sending a frame checks for what is missing, then the call, then the frame as a whole, then the
stream, and then the frame once more while it is copied.  `obstacles` lists what may stand in
the way, each by itself and in the order in which the program asks for it, and `Passes` says
that nothing does.  `sendable_eq` brings the two together: what is pushed is the frame cut to
what it needs, unless there is an obstacle, and then the first one is the answer.

The second check of the frame never fails, because it repeats the first.  That a stream which
flows has a rate is not checked at all: it is what coherent calls are like.
-/

namespace PeerCalls

/-- A stream that flows in a coherent call has a rate. -/
theorem Call.Coherent.rate_ne_zero {config : Config} {call : Call} (h : call.Coherent config)
    {kind : MediaKind} (hsends : call.state.sends kind = true) : call.rates.get kind ≠ 0 := by
  cases hstate : call.state with
  | established flow =>
      have hrunning := (h.established (by rw [hstate]; rfl)).1
      rw [hrunning, CallState.sends_running, decide_eq_true_eq] at hsends
      exact UInt32.pos_iff_ne_zero.mp hsends
  | _ => simp [hstate, CallState.sends] at hsends

/-- A fault of the frame itself is answered as one, with its message. -/
theorem SendError.ofFrame_of_malformed {fault : FrameError} (h : fault.Malformed) :
    ofFrame fault = .invalid fault.message := by
  cases fault with
  | missing part => exact absurd rfl (h.complete part)
  | outOfMemory => exact absurd rfl h.allocated
  | _ => rfl

namespace Session

variable {σ : Type}

/-- The conditions for sending a frame. -/
structure Passes (network : Network σ) (session : Session) (state : σ) (friend : Friend)
    (payload : Payload) : Prop where
  complete : payload.Complete
  known : network.knows state friend = true
  /-- The stream flows in the friend's call and is not withheld. -/
  flows : ∃ call, session.call? friend = some call ∧ call.state.sends payload.kind = true ∧
    call.withheld.get payload.kind = false
  valid : payload.validate session.config = .ok ()

/-- What may stand in the way of a frame, in the order in which it is asked for; what does not
is `none`. -/
def obstacles (network : Network σ) (session : Session) (state : σ) (friend : Friend)
    (payload : Payload) : List (Option SendError) :=
  [payload.missingPart?.map .missing,
    if network.knows state friend then none else some (.friendNotFound friend),
    if (session.registry.live? friend).any fun call => !call.state.isRinging then none
      else some (.friendNotInCall friend),
    match payload.validate session.config with
      | .error fault => some (.invalid fault.message)
      | .ok () => none,
    if (session.registry.live? friend).any fun call => call.canSend payload.kind then none
      else some .streamDisabled]

/-- The first obstacle, if there is one. -/
def obstacle? (network : Network σ) (session : Session) (state : σ) (friend : Friend)
    (payload : Payload) : Option SendError :=
  (session.obstacles network state friend payload).findSome? id

variable {network : Network σ} {session : Session} {state : σ} {friend : Friend}
  {payload : Payload}

/-- What is pushed for a frame, and why nothing is. -/
theorem sendable_eq (hopen : session.closed = false) :
    session.sendable network state friend payload =
      match session.obstacle? network state friend payload with
      | some refusal => .error refusal
      | none => .ok payload.cut := by
  unfold sendable obstacle? obstacles callForFrame
  rw [hopen]
  cases hmissing : payload.missingPart? with
  | some part => rfl
  | none =>
      have hcomplete := Payload.missingPart?_eq_none_iff.mp hmissing
      cases hknows : network.knows state friend with
      | false => rfl
      | true =>
          cases hlive : session.registry.live? friend with
          | none => rfl
          | some call =>
              cases hring : call.state.isRinging with
              | true => simp [Option.filter, hring]
              | false =>
                  rcases payload.owned_cases session.config with
                    ⟨-, fault, hfaulty, hvalidate, -⟩ | ⟨-, hvalidate, howned⟩
                  · have hinvalid := SendError.ofFrame_of_malformed (hfaulty hcomplete)
                    simp [Option.filter, hring, hvalidate, hinvalid]
                  · cases hsend : call.canSend payload.kind <;>
                      simp [Option.filter, hring, hvalidate, hsend, howned]

/-- A frame passes if there is no obstacle. -/
theorem passes_iff_obstacle?_eq_none :
    session.Passes network state friend payload ↔
      session.obstacle? network state friend payload = none := by
  have hcall : ∀ call, session.call? friend = some call → call.state.sends payload.kind = true →
      session.registry.live? friend = some call ∧ call.state.isRinging = false := by
    intro call hget hsends
    cases hstate : call.state with
    | established flow =>
        refine ⟨Registry.live?_eq_some_iff.mpr ⟨hget, ?_⟩, rfl⟩
        simp [Call.isLive, hstate, CallState.isTerminal]
    | _ => simp [hstate, CallState.sends] at hsends
  simp only [obstacle?, List.findSome?_eq_none_iff, obstacles, List.forall_mem_cons, id,
    Option.map_eq_none_iff, Payload.missingPart?_eq_none_iff]
  constructor
  · intro h
    obtain ⟨call, hget, hsends, hshown⟩ := h.flows
    obtain ⟨hlive, hring⟩ := hcall call hget hsends
    simp [h.complete, h.known, h.valid, hlive, hring, Call.canSend, hsends, hshown]
  · rintro ⟨hcomplete, hknown, -, hvalid, hcan, -⟩
    simp only [ite_eq_left_iff, reduceCtorEq, imp_false, Decidable.not_not] at hknown hcan
    obtain ⟨call, hlive, hsend⟩ := (Option.any_eq_true _ _).mp hcan
    refine ⟨hcomplete, hknown, ⟨call, Registry.get?_of_live? hlive, ?_⟩, ?_⟩
    · simpa [Call.canSend] using hsend
    · cases hcheck : payload.validate session.config with
      | error fault => simp [hcheck] at hvalid
      | ok done => rfl

theorem Passes.owned_eq (h : session.Passes network state friend payload) :
    payload.owned session.config = .ok payload.cut := by
  rcases payload.owned_cases session.config with ⟨-, _, -, hfault, -⟩ | ⟨-, -, howned⟩
  · rw [h.valid] at hfault
    cases hfault
  · exact howned

theorem sendFrame_of_obstacle {refusal : SendError} (hopen : session.closed = false)
    (h : session.obstacle? network state friend payload = some refusal) :
    session.sendFrame network state friend payload = ⟨.error refusal, session, state⟩ := by
  rw [sendFrame, sendable_eq hopen, h]

theorem sendFrame_of_passes (hopen : session.closed = false)
    (h : session.Passes network state friend payload) :
    session.sendFrame network state friend payload =
      ⟨(network.sendMedia friend payload.cut state).1.mapError .rejected, session,
        (network.sendMedia friend payload.cut state).2⟩ := by
  rw [sendFrame, sendable_eq hopen, passes_iff_obstacle?_eq_none.mp h]
  rcases hpush : network.sendMedia friend payload.cut state with ⟨cause | done, after⟩
  · simp [hpush, Except.mapError]
  · simp [hpush, Except.mapError]

/-- A frame that does not pass is refused for the first obstacle, and nothing else happens. -/
theorem sendFrame_of_not_passes (hopen : session.closed = false)
    (h : ¬ session.Passes network state friend payload) :
    ∃ refusal, session.obstacle? network state friend payload = some refusal ∧
      session.sendFrame network state friend payload = ⟨.error refusal, session, state⟩ := by
  obtain ⟨refusal, hobstacle⟩ := Option.ne_none_iff_exists'.mp
    fun hnone => h (passes_iff_obstacle?_eq_none.mpr hnone)
  exact ⟨refusal, hobstacle, sendFrame_of_obstacle hopen hobstacle⟩

/-- A frame that was sent had passed, and the network has taken it. -/
theorem of_sendFrame_ok (h : (session.sendFrame network state friend payload).answer = .ok ()) :
    session.Passes network state friend payload ∧
      ∃ after, network.sendMedia friend payload.cut state = (.ok (), after) ∧
        (session.sendFrame network state friend payload).network = after := by
  have hopen : session.closed = false := by
    cases hclosed : session.closed with
    | false => rfl
    | true => simp [sendFrame, sendable, hclosed] at h
  have hpasses : session.Passes network state friend payload := by
    by_contra hnot
    obtain ⟨refusal, -, hrefused⟩ := sendFrame_of_not_passes hopen hnot
    rw [hrefused] at h
    cases h
  refine ⟨hpasses, ?_⟩
  rw [sendFrame_of_passes hopen hpasses] at h ⊢
  rcases hpush : network.sendMedia friend payload.cut state with ⟨cause | done, after⟩
  · rw [hpush] at h
    cases h
  · exact ⟨after, rfl, rfl⟩

end Session

namespace Station

variable {σ : Type}

/-- Whatever was done with an open session before: a frame is pushed if and only if it passes.
Then it is pushed once, to the friend, cut to what it needs, in a call that has a rate for its
stream, and the answer is that of the network.  Otherwise nothing is asked of the network, and
the answer is the first obstacle.  Either way the session stays as it is. -/
theorem frame_pushed_iff_passes {network : Network σ} {config : Config}
    {state opened : Recorded σ} {session : Session}
    (h : Session.attach network.recorded config state = (.ok session, opened))
    (moves : List (Move (Recorded σ))) :
    let station := (⟨session, opened⟩ : Station (Recorded σ)).run network.recorded moves
    station.session.closed = false → ∀ friend payload,
      let outcome := station.session.sendFrame network.recorded station.state friend payload
      let passes := station.session.Passes network.recorded station.state friend payload
      outcome.session = station.session ∧
      ((∃ pushed result, outcome.network.exchanges =
        station.state.exchanges ++ [.media friend pushed result]) ↔ passes) ∧
      (passes →
        (∃ call, station.session.call? friend = some call ∧ call.rates.get payload.kind ≠ 0) ∧
        ∃ owned result after, payload.owned config = .ok owned ∧
          network.sendMedia friend owned station.state.network = (result, after) ∧
          outcome.network = station.state.add (.media friend owned result) after ∧
          outcome.answer = result.mapError .rejected) ∧
      (¬ passes → outcome.network = station.state ∧
        ∃ refusal, station.session.obstacle? network.recorded station.state friend payload =
          some refusal ∧ outcome.answer = .error refusal) := by
  intro station hopen friend payload outcome passes
  obtain ⟨usable, rfl, -⟩ := Session.attach_eq_ok h
  have hconfig : station.session.config = config :=
    config_run network.recorded ⟨.fresh config usable, opened⟩ moves
  have hpushed : passes →
      (∃ call, station.session.call? friend = some call ∧ call.rates.get payload.kind ≠ 0) ∧
      ∃ owned result after, payload.owned config = .ok owned ∧
        network.sendMedia friend owned station.state.network = (result, after) ∧
        outcome.network = station.state.add (.media friend owned result) after ∧
        outcome.answer = result.mapError .rejected := by
    intro hpasses
    obtain ⟨call, hcall, hsends, -⟩ := hpasses.flows
    have hcoherent : call.Coherent config :=
      coherent_call? network.recorded usable opened moves friend call hcall
    have hsent := Session.sendFrame_of_passes hopen hpasses
    refine ⟨⟨call, hcall, hcoherent.rate_ne_zero hsends⟩, payload.cut, _, _,
      hconfig ▸ hpasses.owned_eq, rfl, ?_, ?_⟩
    · rw [show outcome = _ from hsent]
      rfl
    · rw [show outcome = _ from hsent]
      rfl
  have hrefused : ¬ passes → outcome.network = station.state ∧
      ∃ refusal, station.session.obstacle? network.recorded station.state friend payload =
        some refusal ∧ outcome.answer = .error refusal := by
    intro hnot
    obtain ⟨refusal, hobstacle, hsent⟩ := Session.sendFrame_of_not_passes hopen hnot
    rw [show outcome = _ from hsent]
    exact ⟨rfl, refusal, hobstacle, rfl⟩
  refine ⟨Session.session_sendFrame .., ⟨fun hexchange => ?_, fun hpasses => ?_⟩, hpushed, hrefused⟩
  · by_contra hnot
    obtain ⟨pushed, result, hadded⟩ := hexchange
    rw [(hrefused hnot).1] at hadded
    simpa using congrArg List.length hadded
  · obtain ⟨-, owned, result, after, -, -, hnetwork, -⟩ := hpushed hpasses
    exact ⟨owned, result, by rw [hnetwork, Recorded.exchanges_add]⟩

/-- A call without video, answered and heard of. -/
def answeredMoves : List (Move (Recorded Hub)) :=
  [.perform (.call ⟨1⟩ ⟨48, 0⟩),
    .drift fun state =>
      { state with network := ((Hub.node 1).sendSignal ⟨0⟩ (.answer ⟨48, 0⟩) state.network).2 },
    .perform .iterate]

def answeredStart : Station (Recorded Hub) :=
  ⟨.fresh .standard Config.standard_usable,
    ((Hub.node 0).recorded.attach ⟨(Hub.fresh 2).connect 0 ⟨1⟩ 1 ⟨0⟩, []⟩).2⟩

def answeredRun : Station (Recorded Hub) := answeredStart.run (Hub.node 0).recorded answeredMoves

/-- The frame passes and is pushed without the sample to spare. -/
theorem click_passes_gate :
    answeredRun.session.Passes (Hub.node 0).recorded answeredRun.state ⟨1⟩ (.audio .click) ∧
      (answeredRun.session.sendFrame (Hub.node 0).recorded answeredRun.state ⟨1⟩
        (.audio .click)).network.exchanges = answeredRun.state.exchanges ++
          [.media ⟨1⟩ (.audio { AudioFrame.click with pcm := .replicate 20 0 }) (.ok ())] := by
  have hattach : Session.attach (Hub.node 0).recorded .standard
      ⟨(Hub.fresh 2).connect 0 ⟨1⟩ 1 ⟨0⟩, []⟩ = (.ok answeredStart.session, answeredStart.state) :=
    Session.attach_of_usable Config.standard_usable rfl
  obtain ⟨-, -, hpassed, -⟩ := frame_pushed_iff_passes hattach answeredMoves (by decide) ⟨1⟩
    (.audio .click)
  have hpasses : answeredRun.session.Passes (Hub.node 0).recorded answeredRun.state ⟨1⟩
      (.audio .click) := by
    have hflows : (answeredRun.session.call? ⟨1⟩).any (Call.canSend · .audio) = true := by decide
    obtain ⟨call, hcall, hsend⟩ := (Option.any_eq_true _ _).mp hflows
    exact ⟨Payload.missingPart?_eq_none_iff.mp (by decide), by decide,
      ⟨call, hcall, by simpa [Call.canSend, Payload.kind] using hsend⟩, rfl⟩
  obtain ⟨-, owned, result, after, howned, hpush, hnetwork, -⟩ := hpassed hpasses
  have hcut : Payload.owned .standard (.audio .click) =
      .ok (.audio { AudioFrame.click with pcm := .replicate 20 0 }) := by rfl
  obtain rfl := Except.ok.inj (hcut.symm.trans howned)
  obtain rfl : result = .ok () := (congrArg Prod.fst hpush).symm
  exact ⟨hpasses, congrArg Recorded.exchanges hnetwork⟩

end Station

end PeerCalls
