import PeerCalls.Loopback
import PeerCalls.Proofs.Call.Evolution

/-!
# Calls stay coherent

The state of a call, what it goes back to after a pause, its rates and what it
withholds are written by many operations.  `Call.Coherent` says how they fit
together: a running call is in the state that its own rates call for, a paused
call remembers exactly that state, and all other calls remember nothing.

A call is coherent when it is entered, and `Coherent.evolves` goes through the
changes of an entry one by one.  So every call is coherent in every run, over
every network and under every configuration that a session accepts.
-/

namespace PeerCalls

namespace Config

variable {config : Config} {kind : MediaKind} {rate : UInt32} {rates : Rates}

theorem supportsBitRate_iff :
    config.supportsBitRate kind rate = true ↔ rate = 0 ∨ rate ∈ config.bitRates.get kind := by
  simp [supportsBitRate]

theorem unsupportedRate?_eq_none_iff :
    config.unsupportedRate? rates = none ↔
      ∀ kind, rates.get kind = 0 ∨ rates.get kind ∈ config.bitRates.get kind := by
  simp only [← supportsBitRate_iff]
  constructor
  · intro h kind
    cases kind <;> simp only [unsupportedRate?, Streams.get] at h ⊢ <;> grind
  · intro h
    have haudio := h .audio
    have hvideo := h .video
    simp only [Streams.get] at haudio hvideo
    simp [unsupportedRate?, haudio, hvideo]

end Config

namespace Call

/-- How the fields of a call fit together under a configuration. -/
structure Coherent (config : Config) (call : Call) : Prop where
  /-- A running call is in the state that its rates call for. -/
  established : call.state.isEstablished = true →
    call.state = .running call.rates ∧ call.pausedFrom = none
  /-- A paused call goes back to the state that its rates call for. -/
  paused : call.state = .paused → call.pausedFrom = some (.running call.rates)
  /-- A ringing call has not been paused, and withholds nothing. -/
  ringing : call.state = .ringing → call.pausedFrom = none ∧ call.withheld = .both false
  /-- We send nothing in a call that we have not answered. -/
  incoming : call.state = .ringing → call.direction = .incoming → call.rates = .zero
  /-- A call that is over does not go back anywhere. -/
  terminal : call.state.isTerminal = true → call.pausedFrom = none
  /-- Each of our streams is off or has a rate of the configuration. -/
  supported : ∀ kind, call.rates.get kind = 0 ∨ call.rates.get kind ∈ config.bitRates.get kind

namespace Coherent

variable {config : Config} {call after : Call}

theorem outgoing (friend : Friend) {rates : Rates} (h : config.unsupportedRate? rates = none) :
    (Call.outgoing friend rates).Coherent config where
  established h := by cases h
  paused h := by cases h
  ringing _ := ⟨rfl, rfl⟩
  incoming _ h := by cases h
  terminal h := by cases h
  supported := Config.unsupportedRate?_eq_none_iff.mp h

theorem incoming_call (friend : Friend) (rates : Rates) :
    (Call.incoming friend rates).Coherent config where
  established h := by cases h
  paused h := by cases h
  ringing _ := ⟨rfl, rfl⟩
  incoming _ _ := rfl
  terminal h := by cases h
  supported kind := Or.inl (Streams.get_both 0 kind)

theorem answered (h : call.Coherent config) (hcall : call.isAnswerable = true) {rates : Rates}
    (hrates : config.unsupportedRate? rates = none) :
    (call.answered rates).Coherent config where
  established _ := ⟨rfl, (h.ringing (isAnswerable_iff.mp hcall).1).1⟩
  paused h := by cases h
  ringing h := by cases h
  incoming h := by cases h
  terminal h := by cases h
  supported := Config.unsupportedRate?_eq_none_iff.mp hrates

/-- A call that ends, by whatever cause, goes back nowhere. -/
theorem finish (h : call.Coherent config) {state : CallState} (hstate : state.isTerminal = true) :
    (call.finish state).Coherent config where
  established h := by cases state <;> simp_all [Call.finish, CallState.isTerminal,
    CallState.isEstablished]
  paused h := by cases state <;> simp_all [Call.finish, CallState.isTerminal]
  ringing h := by cases state <;> simp_all [Call.finish, CallState.isTerminal]
  incoming h := by cases state <;> simp_all [Call.finish, CallState.isTerminal]
  terminal _ := rfl
  supported := h.supported

/-- A call that goes on at its own rates, from ringing or from a pause. -/
theorem continued (h : call.Coherent config) (peerRates : Rates) :
    Coherent config { call with peerRates, state := .running call.rates, pausedFrom := none } where
  established _ := ⟨rfl, rfl⟩
  paused h := by cases h
  ringing h := by cases h
  incoming h := by cases h
  terminal h := by cases h
  supported := h.supported

theorem after? (h : call.Coherent config) {transition : Transition}
    (foreign : ∀ rates, transition ≠ .localAnswered rates)
    (hafter : call.after? transition = some after) : after.Coherent config := by
  cases transition with
  | localAnswered rates => exact absurd rfl (foreign rates)
  | remoteAnswered rates =>
      -- the call was ringing, so there is no pause to go back from
      obtain ⟨hringing, -, rfl⟩ := of_remoteAnswered hafter
      have hnone : call.pausedFrom = none := (h.ringing hringing).1
      simpa [hnone] using h.continued rates
  | pause =>
      obtain ⟨hstate, rfl⟩ := of_pause hafter
      have hremembered : some call.state = some (.running call.rates) :=
        congrArg some (h.established hstate).1
      constructor
      · intro h
        cases h
      · exact fun _ => hremembered
      · intro h
        cases h
      · intro h
        cases h
      · intro h
        cases h
      · exact h.supported
  | resume =>
      -- the memory followed every change of the rates, so resuming classifies them anew
      obtain ⟨hstate, rfl⟩ := of_resume hafter
      have hpaused : call.pausedFrom = some (.running call.rates) := h.paused hstate
      simpa [hpaused] using h.continued call.peerRates
  | ratesChanged =>
      simp only [Call.after?] at hafter
      split at hafter
      · rename_i hstate
        have hnone : call.pausedFrom = none := (h.established hstate).2
        obtain rfl := Option.some.inj hafter
        simpa [classification, hnone] using h.continued call.peerRates
      · split at hafter
        · rename_i hstate
          obtain rfl := Option.some.inj hafter
          have hpaused : call.state = .paused := by simpa [CallState.isPaused] using hstate
          refine ⟨?_, fun _ => rfl, ?_, ?_, ?_, h.supported⟩ <;> simp [hpaused,
            CallState.isEstablished, CallState.isTerminal]
        · cases hafter
  | cancel =>
      simp only [Call.after?, Option.ite_none_right_eq_some, Option.some.injEq] at hafter
      obtain ⟨-, rfl⟩ := hafter
      exact h.finish rfl
  | fault =>
      simp only [Call.after?, Option.ite_none_right_eq_some, Option.some.injEq] at hafter
      obtain ⟨-, rfl⟩ := hafter
      exact h.finish rfl

/-- What a call withholds matters only while it rings. -/
theorem withholding (h : call.Coherent config) (hring : call.state.isRinging = false)
    (kind : MediaKind) (value : Bool) : (call.withholding kind value).Coherent config where
  established := h.established
  paused := h.paused
  ringing hringing := by
    simp [show call.state = .ringing from hringing, CallState.isRinging] at hring
  incoming := h.incoming
  terminal := h.terminal
  supported := h.supported

theorem withPeerRate (h : call.Coherent config) (kind : MediaKind) (rate : UInt32) :
    (call.withPeerRate kind rate).Coherent config :=
  ⟨h.established, h.paused, h.ringing, h.incoming, h.terminal, h.supported⟩

/-- A rate is changed together with what the call does at its rates, now or after
the pause. -/
theorem withRate (h : call.Coherent config) (hlive : call.isLive = true)
    (hring : call.state.isRinging = false) {kind : MediaKind} {rate : UInt32}
    (hrate : config.supportsBitRate kind rate = true) :
    (call.withRate kind rate).Coherent config := by
  have hsupported : ∀ other, (call.rates.set rate kind).get other = 0 ∨
      (call.rates.set rate kind).get other ∈ config.bitRates.get other := by
    intro other
    by_cases hother : other = kind
    · subst hother
      rw [Streams.get_set_self]
      exact Config.supportsBitRate_iff.mp hrate
    · rw [Streams.get_set_of_ne call.rates rate hother]
      exact h.supported other
  rcases isEstablished_or_isPaused hlive hring with hstate | hstate
  · rw [withRate_of_isEstablished hstate]
    constructor
    · exact fun _ => ⟨rfl, (h.established hstate).2⟩
    · intro h
      cases h
    · intro h
      cases h
    · intro h
      cases h
    · intro h
      cases h
    · exact hsupported
  · rw [withRate_of_isPaused hstate]
    refine ⟨?_, fun _ => rfl, ?_, ?_, ?_, hsupported⟩ <;>
      simp [hstate, CallState.isEstablished, CallState.isTerminal]

/-- Every change of an entry leaves a coherent call, if it leaves one. -/
theorem evolves {friend : Friend} {entry later : Option Call}
    (h : ∀ call ∈ entry, call.Coherent config) (hstep : Evolves config friend entry later) :
    ∀ call ∈ later, call.Coherent config := by
  cases hstep with
  | placed _ hrates => rintro _ ⟨⟩; exact outgoing friend hrates
  | invited _ rates => rintro _ ⟨⟩; exact incoming_call friend rates
  | answered hanswerable hrates => rintro _ ⟨⟩; exact (h _ rfl).answered hanswerable hrates
  | moved _ foreign hfits => rintro _ ⟨⟩; exact (h _ rfl).after? foreign hfits
  | withheld _ hring kind value => rintro _ ⟨⟩; exact (h _ rfl).withholding hring kind value
  | rated hlive hring kind hrate => rintro _ ⟨⟩; exact (h _ rfl).withRate hlive hring hrate
  | announced _ kind rate => rintro _ ⟨⟩; exact (h _ rfl).withPeerRate kind rate
  | dropped => rintro _ ⟨⟩

theorem evolvesOnce {friend : Friend} {entry later : Option Call}
    (h : ∀ call ∈ entry, call.Coherent config) (hstep : EvolvesOnce config friend entry later) :
    ∀ call ∈ later, call.Coherent config := by
  cases hstep with
  | refl => exact h
  | single hone => exact evolves h hone

end Coherent

end Call

/-! ## Runs -/

namespace Station

variable {σ : Type}

/-- Every entry of a session is coherent, if it is a call at all. -/
theorem coherent_call? (network : Network σ) {config : Config} (usable : config.Usable)
    (state : σ) (moves : List (Move σ)) (friend : Friend) :
    ∀ call ∈ ((⟨.fresh config usable, state⟩ : Station σ).run network moves).session.call? friend,
      call.Coherent config :=
  call?_induction (P := fun entry => ∀ call ∈ entry, call.Coherent config)
    (fun _ _ hentry hstep => Call.Coherent.evolves hentry hstep)
    rfl (by simp [Session.call?, Session.fresh]) moves

/-- Whatever is done with a session, in whatever order and from whatever callback,
and whatever its network answers: every call of the session is coherent, so a
paused call that is resumed runs in the state that its rates call for by then. -/
theorem coherent_of_run (network : Network σ) {config : Config} {state opened : σ}
    {session : Session} (h : Session.attach network config state = (.ok session, opened))
    (moves : List (Move σ)) :
    ∀ call ∈ ((⟨session, opened⟩ : Station σ).run network moves).session.registry.calls,
      call.Coherent config ∧
        (call.state = .paused →
          (call.after? .resume).map Call.state = some (.running call.rates)) := by
  intro call hmem
  obtain ⟨usable, rfl, -⟩ := Session.attach_eq_ok h
  have hcoherent : call.Coherent config :=
    call?_induction (P := fun entry => ∀ call ∈ entry, call.Coherent config)
      (fun _ _ hentry hstep => Call.Coherent.evolves hentry hstep)
      rfl (by simp [Session.call?, Session.fresh]) moves call (Registry.mem_calls_iff.mp hmem)
  refine ⟨hcoherent, fun hpaused => ?_⟩
  simp [Call.after?, hpaused, CallState.isPaused, hcoherent.paused hpaused]

/-- A call that is answered, loses its video, pauses and gets video back in the pause. -/
def pausedRun : Station Hub :=
  let friend : Friend := ⟨1⟩
  let hub := (Hub.fresh 2).connect 0 friend 1 ⟨0⟩
  let start : Station Hub :=
    ⟨.fresh .standard Config.standard_usable, ((Hub.node 0).attach hub).2⟩
  start.run (Hub.node 0)
    [.perform (.call friend ⟨64, 500⟩),
      .drift fun hub => ((Hub.node 1).sendSignal ⟨0⟩ (.answer ⟨48, 0⟩) hub).2,
      .perform .iterate, .deliver, .perform (.setRate friend .video 0 true),
      .perform (.control friend .pause), .perform (.setRate friend .video 250 false)]

theorem coherent_of_pausedRun :
    ∃ call ∈ pausedRun.session.registry.calls,
      call.Coherent .standard ∧ call.rates = ⟨64, 250⟩ ∧ call.state = .paused ∧
        (call.after? .resume).map Call.state = some (.established ⟨true, true⟩) := by
  have hfound : ∃ call ∈ pausedRun.session.registry.calls,
      call.rates = ⟨64, 250⟩ ∧ call.state = .paused := by decide
  obtain ⟨call, hmem, hrates, hpaused⟩ := hfound
  have hattach : Session.attach (Hub.node 0) .standard ((Hub.fresh 2).connect 0 ⟨1⟩ 1 ⟨0⟩) =
      (.ok (.fresh .standard Config.standard_usable), _) :=
    Session.attach_of_usable Config.standard_usable rfl
  have hcoherent := coherent_of_run (Hub.node 0) hattach _ call hmem
  refine ⟨call, hmem, hcoherent.1, hrates, hpaused, ?_⟩
  rw [hcoherent.2 hpaused, hrates]
  rfl

end Station

end PeerCalls
