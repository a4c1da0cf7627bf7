import PeerCalls.Proofs.Media.Owned
import PeerCalls.Proofs.Session.Draining

/-!
# How much a round takes does not matter

A configuration limits how many items a round takes.  With another limit the same inbox is
cut into other rounds.  Whatever the cuts are, the rounds together do what handling the items
one after the other does, so nobody can tell one limit from another.
-/

namespace PeerCalls

/-! ## The limit of a configuration -/

namespace Config

variable {config : Config} {limit : UInt64}

/-- The configuration with another limit for the items that a round takes. -/
def withInboundLimit (config : Config) (limit : UInt64) : Config :=
  { config with inboundLimit := limit }

theorem usable_withInboundLimit (h : config.Usable) (hlimit : limit ≠ 0) :
    (config.withInboundLimit limit).Usable := by
  obtain ⟨hrates, hintervals, -⟩ := usable_iff.mp h
  refine usable_iff.mpr ⟨fun set => ?_, hintervals, hlimit⟩
  have hset := hrates set
  cases set <;> exact hset

end Config

namespace Session

/-- The session with another limit for the items that a round takes. -/
def withInboundLimit (session : Session) (limit : UInt64) (hlimit : limit ≠ 0) : Session :=
  { session with
    config := session.config.withInboundLimit limit
    usable := Config.usable_withInboundLimit session.usable hlimit }

end Session

namespace Progress

/-- Handling an item does not look at the limit. -/
theorem handle_withInboundLimit (progress : Progress) (config : Config) (limit : UInt64)
    (item : Inbound) :
    progress.handle (config.withInboundLimit limit) item = progress.handle config item := by
  cases item with
  | signal friend signal => rfl
  | media friend payload => cases payload <;> rfl

theorem handleAll_withInboundLimit (progress : Progress) (config : Config) (limit : UInt64)
    (items : List Inbound) :
    progress.handleAll (config.withInboundLimit limit) items =
      progress.handleAll config items := by
  simp only [handleAll, handle_withInboundLimit]

end Progress

namespace Station

variable {σ : Type} {network : Network σ} {inbox : σ → List Inbound}

/-! ## A closed session -/

/-- Rounds on a closed session with nothing to deliver do nothing. -/
theorem run_of_closed (network : Network σ) (station : Station σ)
    (hclosed : station.session.closed = true) (hidle : station.session.deliveries = [])
    {moves : List (Move σ)} (hrounds : ∀ move ∈ moves, move = .perform .iterate ∨ move = .deliver) :
    station.run network moves = station ∧ handedOut network station moves = [] := by
  have hadvance : station.session.advance = none := by rw [Session.advance, hidle]
  induction moves with
  | nil => exact ⟨rfl, rfl⟩
  | cons move moves ih =>
      obtain ⟨hmove, hmoves⟩ := List.forall_mem_cons.mp hrounds
      obtain ⟨hrun, hquiet⟩ := ih hmoves
      have hsame : station.after network move = station ∧ station.handsOut move = [] := by
        rcases hmove with rfl | rfl
        · refine ⟨?_, rfl⟩
          simp [after, Session.perform, Outcome.map, Session.iterate, hclosed]
        · refine ⟨by rw [after, hadvance], ?_⟩
          rw [handsOut, Session.handsOut?, hadvance]
          rfl
      refine ⟨?_, ?_⟩
      · rw [Station.run, List.foldl_cons, hsame.1]
        exact hrun
      · rw [handedOut, hsame.1, hsame.2, hquiet]
        rfl

/-! ## Any two limits -/

/-- Whatever the limit is, rounds that have emptied the inbox have done what handling its items
one after the other does. -/
theorem drained_withInboundLimit (hfeeds : network.Feeds inbox) {session : Session} {state : σ}
    (hopen : session.closed = false) (hidle : session.deliveries = [])
    (hreached : ∀ friend ∈ session.registry.friends ++ (inbox state).map Inbound.friend,
      network.reaches state friend = true)
    {limit : UInt64} (hlimit : limit ≠ 0) {moves : List (Move σ)}
    (hdrains : Drains network inbox ⟨session.withInboundLimit limit hlimit, state⟩ moves) :
    let one : Station σ := ⟨session.withInboundLimit limit hlimit, state⟩
    let whole := Progress.handleAll session.config ⟨session.registry, []⟩ (inbox state)
    (one.run network moves).session.registry = whole.registry.reap.2 ∧
      ∀ phase, phase ≠ .requests →
        Event.inPhase phase (handedOut network one moves) =
          Event.inPhase phase whole.events := by
  intro one whole
  have hstart : Reflects network inbox ⟨session.registry, []⟩ one [] :=
    reflects_start (session.withInboundLimit limit hlimit) hopen hidle hreached
  have hwhole : Progress.handleAll (session.withInboundLimit limit hlimit).config
      ⟨session.registry, []⟩ (inbox state) = whole :=
    Progress.handleAll_withInboundLimit _ session.config limit (inbox state)
  have hdrained := hstart.drained hfeeds hidle hdrains
  simp only [one, hwhole] at hdrained
  exact hdrained

/-- Two sessions that differ in nothing but the limit of a round, on networks in the same state
whose inbox names friends that are reached: once each of them has emptied the inbox by rounds,
both have the same calls and have been told the same of calls and the same frames.  If they are
open they can empty it, and what they have done then is to handle the items of the inbox one
after the other. -/
theorem limit_immaterial (hfeeds : network.Feeds inbox) {session : Session} {state : σ}
    (hidle : session.deliveries = [])
    (hreached : ∀ friend ∈ session.registry.friends ++ (inbox state).map Inbound.friend,
      network.reaches state friend = true)
    {limit other : UInt64} (hlimit : limit ≠ 0) (hother : other ≠ 0) :
    let one : Station σ := ⟨session.withInboundLimit limit hlimit, state⟩
    let two : Station σ := ⟨session.withInboundLimit other hother, state⟩
    let whole := Progress.handleAll session.config ⟨session.registry, []⟩ (inbox state)
    (session.closed = false →
      (∃ moves, Drains network inbox one moves) ∧ ∃ moves, Drains network inbox two moves) ∧
    ∀ moves moves', Drains network inbox one moves → Drains network inbox two moves' →
      (one.run network moves).session.registry = (two.run network moves').session.registry ∧
      (∀ phase, phase ≠ .requests →
        Event.inPhase phase (handedOut network one moves) =
          Event.inPhase phase (handedOut network two moves')) ∧
      (session.closed = false →
        (one.run network moves).session.registry = whole.registry.reap.2 ∧
        ∀ phase, phase ≠ .requests →
          Event.inPhase phase (handedOut network one moves) =
            Event.inPhase phase whole.events) := by
  intro one two whole
  refine ⟨fun hopen => ?_, fun moves moves' hone htwo => ?_⟩
  · have hstart : Reflects network inbox ⟨session.registry, []⟩ one [] :=
      reflects_start (session.withInboundLimit limit hlimit) hopen hidle hreached
    have hstart' : Reflects network inbox ⟨session.registry, []⟩ two [] :=
      reflects_start (session.withInboundLimit other hother) hopen hidle hreached
    exact ⟨hstart.exists_drains hfeeds hidle, hstart'.exists_drains hfeeds hidle⟩
  · cases hclosed : session.closed with
    | true =>
        obtain ⟨hrun, hquiet⟩ := run_of_closed network one hclosed hidle hone.rounds
        obtain ⟨hrun', hquiet'⟩ := run_of_closed network two hclosed hidle htwo.rounds
        rw [hrun, hrun', hquiet, hquiet']
        exact ⟨rfl, fun _ _ => rfl, fun hopen => by cases hopen⟩
    | false =>
        obtain ⟨hregistry, htold⟩ := drained_withInboundLimit hfeeds hclosed hidle hreached
          hlimit hone
        obtain ⟨hregistry', htold'⟩ := drained_withInboundLimit hfeeds hclosed hidle hreached
          hother htwo
        refine ⟨hregistry.trans hregistry'.symm, fun phase hphase => ?_, fun _ => ?_⟩
        · exact (htold phase hphase).trans (htold' phase hphase).symm
        · exact ⟨hregistry, htold⟩

/-- A session that has called its friend. -/
def calling : Session :=
  ((Session.fresh .standard Config.standard_usable).call (Hub.node 0)
    ((Hub.fresh 2).connect 0 ⟨1⟩ 1 ⟨0⟩) ⟨1⟩ ⟨48, 0⟩).session

/-- The friend answers, sends a frame, hangs up, sends another one and calls back, and all of that
is waiting at node 0. -/
def calledBack : Hub :=
  ((Hub.fresh 2).connect 0 ⟨1⟩ 1 ⟨0⟩).update 0 fun node =>
    [.signal ⟨1⟩ (.answer ⟨48, 0⟩), .media ⟨1⟩ (.audio .click), .signal ⟨1⟩ .hangUp,
      .media ⟨1⟩ (.audio .click), .signal ⟨1⟩ (.invite ⟨0, 300⟩)].foldl Node.receive node

/-- The rounds that such a node takes, one item at a time. -/
def oneByOne : List (Move Hub) :=
  [.perform .iterate, .deliver, .deliver, .deliver, .perform .iterate, .deliver, .deliver, .deliver,
    .perform .iterate, .deliver, .deliver, .perform .iterate, .perform .iterate, .deliver, .deliver]

/-- The round that takes everything. -/
def allAtOnce : List (Move Hub) := .perform .iterate :: List.replicate 5 .deliver

/-- The session at that node, with a limit for its rounds. -/
def expecting (limit : UInt64) (hlimit : limit ≠ 0) : Station Hub :=
  ⟨calling.withInboundLimit limit hlimit, calledBack⟩

theorem drains_oneByOne :
    Drains (Hub.node 0) (fun hub => (hub.get 0).inbox) (expecting 1 (by decide)) oneByOne :=
  ⟨by simp [oneByOne], by simp [oneByOne], by decide, by decide⟩

theorem drains_allAtOnce :
    Drains (Hub.node 0) (fun hub => (hub.get 0).inbox) (expecting 64 (by decide)) allAtOnce :=
  ⟨by simp [allAtOnce, List.replicate], by simp [allAtOnce], by decide, by decide⟩

/-- Rounds of one item each reap the first call before the second one comes; a single round
lets the second call take the place of the first one.  Either way the frame of the first call is
received, and the one that comes too late is not. -/
theorem same_calls_oneByOne :
    ((expecting 1 (by decide)).run (Hub.node 0) oneByOne).session.registry =
        ((expecting 64 (by decide)).run (Hub.node 0) allAtOnce).session.registry ∧
      Event.inPhase .calls (handedOut (Hub.node 0) (expecting 1 (by decide)) oneByOne) =
        [.callState ⟨1⟩ (.running ⟨48, 0⟩), .callState ⟨1⟩ .ended, .call ⟨1⟩ ⟨false, true⟩] ∧
      Event.inPhase .calls (handedOut (Hub.node 0) (expecting 64 (by decide)) allAtOnce) =
        [.callState ⟨1⟩ (.running ⟨48, 0⟩), .callState ⟨1⟩ .ended, .call ⟨1⟩ ⟨false, true⟩] ∧
      Event.inPhase .frames (handedOut (Hub.node 0) (expecting 1 (by decide)) oneByOne) =
        [.frame ⟨1⟩ (.audio .click)] ∧
      Event.inPhase .frames (handedOut (Hub.node 0) (expecting 64 (by decide)) allAtOnce) =
        [.frame ⟨1⟩ (.audio .click)] := by
  have hreached : ∀ friend ∈ calling.registry.friends ++
      (calledBack.get 0).inbox.map Inbound.friend,
      (Hub.node 0).reaches calledBack friend = true := by
    decide
  have hidle : calling.deliveries = [] := rfl
  obtain ⟨-, hsame⟩ := limit_immaterial (Hub.feeds_node 0) hidle hreached
    (by decide : (1 : UInt64) ≠ 0) (by decide : (64 : UInt64) ≠ 0)
  obtain ⟨hregistry, htold, -⟩ := hsame oneByOne allAtOnce drains_oneByOne drains_allAtOnce
  have hcalls := htold .calls (by decide)
  have hframes := htold .frames (by decide)
  refine ⟨hregistry, ?_, ?_, ?_, ?_⟩
  · decide
  · exact hcalls.symm.trans (by decide)
  · decide
  · exact hframes.symm.trans (by decide)

end Station

end PeerCalls
