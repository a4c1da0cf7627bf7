import PeerCalls.Proofs.Session.Keeping

/-!
# Many sessions on one network

An application may open any number of sessions on one network, one after the other, and keep
the handles of those that it has closed.  A `Tenancy` holds all these sessions and the state of
the network, and a step opens a session, uses or drops one by its handle, or lets the network
change by itself.  Dropping a handle closes its session first.

The flag by which a node is claimed belongs to the network, and the flag by which a session is
closed belongs to the session; nothing in the program compares the two.  `Sound` says that they
go together: there is at most one holder, the node is claimed exactly if there is one, and the
holder is the one open session.  Each step keeps this, because a session touches the claim only
when it is opened, which is refused to all but a first one, and when it is closed, which works
for the holder only.
-/

namespace PeerCalls

/-- The sessions that were opened on a network, and its state. -/
structure Tenancy (σ : Type) where
  /-- The sessions by their handles, oldest first; a session whose handle was dropped is gone. -/
  handles : List (Option Session)
  state : σ

namespace Tenancy

/-- What happens to the sessions of a network. -/
inductive Step (σ : Type) where
  /-- The application opens one more session. -/
  | opens (config : Config)
  /-- The application, or a callback, uses a session. -/
  | uses (handle : Nat) (command : Command)
  /-- The innermost delivery of a session takes a step. -/
  | delivers (handle : Nat)
  /-- The last owner of a session lets go of it. -/
  | drops (handle : Nat)
  /-- The network changes by itself. -/
  | drifts (change : σ → σ)

variable {σ : Type}

/-- The session of a handle, unless it is gone. -/
def session? (tenancy : Tenancy σ) (handle : Nat) : Option Session :=
  tenancy.handles[handle]?.join

/-- The session of the handle is there and not closed. -/
def IsOpen (tenancy : Tenancy σ) (handle : Nat) : Prop :=
  ∃ session, tenancy.session? handle = some session ∧ session.closed = false

/-- The tenancy with another entry for a handle and another state of the network. -/
def put (tenancy : Tenancy σ) (handle : Nat) (entry : Option Session) (state : σ) : Tenancy σ :=
  ⟨tenancy.handles.set handle entry, state⟩

/-- The tenancy after a step.  A session that is gone takes none. -/
def after (network : Network σ) (tenancy : Tenancy σ) : Step σ → Tenancy σ
  | .opens config =>
    match Session.attach network config tenancy.state with
    | (.ok session, opened) => ⟨tenancy.handles ++ [some session], opened⟩
    | (.error _, state) => { tenancy with state }
  | .uses handle command =>
    match tenancy.session? handle with
    | none => tenancy
    | some session =>
      let outcome := session.perform network tenancy.state command
      tenancy.put handle (some outcome.session) outcome.network
  | .delivers handle =>
    match tenancy.session? handle with
    | none => tenancy
    | some session =>
      match session.advance with
      | none => tenancy
      | some (_, advanced) => tenancy.put handle (some advanced) tenancy.state
  | .drops handle =>
    match tenancy.session? handle with
    | none => tenancy
    | some session => tenancy.put handle none (session.close network tenancy.state).network
  | .drifts change => { tenancy with state := change tenancy.state }

/-- The tenancy after a list of steps. -/
def run (network : Network σ) (tenancy : Tenancy σ) (steps : List (Step σ)) : Tenancy σ :=
  steps.foldl (after network) tenancy

variable {network : Network σ} {tenancy : Tenancy σ} {handle other : Nat} {session : Session}
  {entry : Option Session} {state : σ}

/-! ## Handles -/

theorem lt_of_session? (h : tenancy.session? handle = some session) :
    handle < tenancy.handles.length := by
  by_contra hlength
  rw [session?, List.getElem?_eq_none (Nat.le_of_not_lt hlength)] at h
  cases h

theorem session?_put (h : handle < tenancy.handles.length) :
    (tenancy.put handle entry state).session? other =
      if other = handle then entry else tenancy.session? other := by
  rw [session?, put, List.getElem?_set]
  by_cases hother : handle = other
  · subst hother
    simp [h]
  · rw [if_neg hother, if_neg (Ne.symm hother), session?]

/-- Of a session that is replaced only the new entry decides whether it is open. -/
theorem isOpen_put (h : handle < tenancy.handles.length) :
    (tenancy.put handle entry state).IsOpen other ↔
      if other = handle then ∃ session, entry = some session ∧ session.closed = false
      else tenancy.IsOpen other := by
  rw [IsOpen, session?_put h]
  split
  · exact Iff.rfl
  · exact Iff.rfl

theorem session?_append :
    (⟨tenancy.handles ++ [some session], state⟩ : Tenancy σ).session? handle =
      if handle = tenancy.handles.length then some session else tenancy.session? handle := by
  rw [session?, List.getElem?_append]
  split
  · rename_i hlt
    rw [if_neg (Nat.ne_of_lt hlt), session?]
  · rename_i hge
    split
    · rename_i heq
      simp [heq]
    · rename_i hne
      have hpast : tenancy.handles.length < handle := by omega
      rw [session?, List.getElem?_eq_none (by simp; omega),
        List.getElem?_eq_none (Nat.le_of_lt hpast)]

/-! ## Opening a session -/

/-- A session is opened if the configuration is usable and the node is not claimed, and then
the node is claimed; otherwise nothing changes. -/
theorem attach_cases {place : NodeId} {claimed : Bool} {state : Recorded Hub}
    (h : state.network.ClaimedAt place claimed) (config : Config) :
    ((config.Usable ∧ claimed = false) ∧ ∃ usable opened,
      Session.attach (Hub.node place).recorded config state =
        (.ok (.fresh config usable), opened) ∧ opened.network.ClaimedAt place true) ∨
    ¬ (config.Usable ∧ claimed = false) ∧ ∃ refusal after,
      Session.attach (Hub.node place).recorded config state = (.error refusal, after) ∧
        after.network = state.network := by
  obtain ⟨hgranted, hafter, hagain⟩ := Hub.attach_of_claimedAt h
  unfold Session.attach
  split
  · rename_i defect hdefect
    refine Or.inr ⟨fun husable => ?_, _, _, rfl, rfl⟩
    rw [husable.1] at hdefect
    cases hdefect
  · rename_i usable
    have hattach : (Hub.node place).recorded.attach state =
        (!claimed, state.add (.attach !claimed) ((Hub.node place).attach state.network).2) := by
      simp only [Network.recorded, hgranted]
    rw [hattach]
    cases claimed with
    | false => exact Or.inl ⟨⟨usable, rfl⟩, usable, _, rfl, hafter⟩
    | true => exact Or.inr ⟨fun hfree => Bool.noConfusion hfree.2, _, _, rfl, hagain rfl⟩

/-! ## Soundness -/

/-- The open session, if there is one, is the only one, and has claimed the node; and a closed
session has no calls. -/
structure Sound (place : NodeId) (tenancy : Tenancy (Recorded Hub)) : Prop where
  held : ∃ holder : Option Nat, tenancy.state.network.ClaimedAt place holder.isSome ∧
    ∀ handle, tenancy.IsOpen handle ↔ holder = some handle
  emptied : ∀ handle session, tenancy.session? handle = some session → session.closed = true →
    session.registry = .empty

namespace Sound

variable {place : NodeId} {tenancy : Tenancy (Recorded Hub)} {state : Recorded Hub}

theorem closed_entry (h : tenancy.Sound place)
    (hentry : ∀ after, entry = some after → after.closed = true → after.registry = .empty)
    (hlength : handle < tenancy.handles.length) (other : Nat) (session : Session)
    (hother : (tenancy.put handle entry state).session? other = some session)
    (hclosed : session.closed = true) : session.registry = .empty := by
  rw [session?_put hlength] at hother
  split at hother
  · exact hentry session hother hclosed
  · exact h.emptied other session hother hclosed

/-- A session that stays as open as it was may be replaced while the network changes as it
likes, but for the claim. -/
theorem put_alike (h : tenancy.Sound place) (hsession : tenancy.session? handle = some session)
    (hentry : ∀ after, entry = some after → after.closed = true → after.registry = .empty)
    (halike : (∃ after, entry = some after ∧ after.closed = false) ↔ session.closed = false)
    (hclaim : ∀ claimed, tenancy.state.network.ClaimedAt place claimed →
      state.network.ClaimedAt place claimed) :
    (tenancy.put handle entry state).Sound place := by
  have hlength := lt_of_session? hsession
  obtain ⟨holder, hclaimed, hopen⟩ := h.held
  refine ⟨⟨holder, hclaim _ hclaimed, fun other => ?_⟩, closed_entry h hentry hlength⟩
  rw [← hopen, isOpen_put hlength]
  split
  · rename_i hother
    rw [halike, hother, IsOpen, hsession]
    simp
  · exact Iff.rfl

/-- When the open session is closed or goes, the node has to be given back. -/
theorem put_closed (h : tenancy.Sound place) (hsession : tenancy.session? handle = some session)
    (hopen : session.closed = false)
    (hentry : ∀ after, entry = some after → after.closed = true ∧ after.registry = .empty)
    (hfree : state.network.ClaimedAt place false) :
    (tenancy.put handle entry state).Sound place := by
  have hlength := lt_of_session? hsession
  obtain ⟨holder, -, hholder⟩ := h.held
  have hheld : holder = some handle := (hholder handle).mp ⟨session, hsession, hopen⟩
  refine ⟨⟨none, hfree, fun other => ?_⟩,
    closed_entry h (fun after hafter _ => (hentry after hafter).2) hlength⟩
  rw [isOpen_put hlength]
  simp only [reduceCtorEq, iff_false]
  split
  · rintro ⟨after, hafter, hclosed⟩
    rw [(hentry after hafter).1] at hclosed
    cases hclosed
  · rename_i hother
    intro hstill
    rw [hholder, hheld, Option.some.injEq] at hstill
    exact hother hstill.symm

/-- A session is opened by the one who claims the node, and by nobody while it is claimed. -/
theorem opens (h : tenancy.Sound place) (config : Config) :
    (tenancy.after (Hub.node place).recorded (.opens config)).Sound place := by
  obtain ⟨holder, hclaimed, hopen⟩ := h.held
  simp only [after]
  rcases attach_cases hclaimed config with
    ⟨⟨-, hfree⟩, usable, opened, hattach, hopened⟩ | ⟨-, refusal, state, hattach, hstate⟩
  · obtain rfl : holder = none := by simpa using hfree
    rw [hattach]
    refine ⟨⟨some tenancy.handles.length, hopened, fun handle => ?_⟩, fun handle session => ?_⟩
    · rw [IsOpen, session?_append, Option.some.injEq]
      split
      · rename_i hnew
        exact iff_of_true ⟨_, rfl, rfl⟩ hnew.symm
      · rename_i hold
        refine iff_of_false (fun hstill => ?_) (Ne.symm hold)
        have hnone := (hopen handle).mp hstill
        cases hnone
    · rw [session?_append]
      split
      · rintro ⟨rfl⟩ hclosed
        cases hclosed
      · exact h.emptied handle session
  · rw [hattach]
    exact ⟨⟨holder, hstate ▸ hclaimed, hopen⟩, h.emptied⟩

/-- An open session gives the node back when it is closed. -/
theorem freed_of_close (h : tenancy.Sound place) (hopen : session.closed = false) :
    (session.close (Hub.node place).recorded tenancy.state).network.network.ClaimedAt
      place false := by
  obtain ⟨holder, hclaimed, -⟩ := h.held
  obtain ⟨released, hreleased, hnetwork⟩ := Session.detach_of_close
    (Hub.keeps_claimedAt place place holder.isSome).recorded hclaimed hopen
  rw [hnetwork]
  exact Hub.detach_of_claimedAt hreleased

/-- The open session keeps the claim until it is closed; a closed one does not reach the network. -/
theorem uses (h : tenancy.Sound place) (handle : Nat) (command : Command) :
    (tenancy.after (Hub.node place).recorded (.uses handle command)).Sound place := by
  simp only [after]
  split
  · exact h
  rename_i session hsession
  cases hclosed : session.closed with
  | true =>
      -- such a handle may be used while another session holds the claim
      obtain ⟨reply, listener, hperform⟩ := Session.perform_of_closed
        (Hub.node place).recorded hclosed tenancy.state command
      have hempty := h.emptied handle session hsession hclosed
      rw [hperform]
      exact h.put_alike hsession (by simp [hempty]) (by simp) fun _ hclaimed => hclaimed
  | false =>
      by_cases hcommand : command = .close
      · subst hcommand
        refine h.put_closed hsession hclosed (fun after hafter => ?_) (h.freed_of_close hclosed)
        obtain rfl := Option.some.inj hafter
        simp [Session.perform, Outcome.map, Session.close, hclosed, Registry.drain]
      · have hstill := (Session.closed_perform (Hub.node place).recorded session tenancy.state
          hcommand).trans hclosed
        refine h.put_alike hsession (by simp [hstill]) (by simp [hstill, hclosed])
          fun claimed hclaimed => ?_
        exact Session.keeps_perform (Hub.keeps_claimedAt place place claimed).recorded hclaimed
          hcommand

theorem delivers (h : tenancy.Sound place) (handle : Nat) :
    (tenancy.after (Hub.node place).recorded (.delivers handle)).Sound place := by
  simp only [after]
  split
  · exact h
  rename_i session hsession
  split
  · exact h
  rename_i step advanced hadvance
  have hsame := Session.advance_eq hadvance
  have hclosed : advanced.closed = session.closed := by rw [hsame]
  have hregistry : advanced.registry = session.registry := by rw [hsame]
  refine h.put_alike hsession (fun after hafter hover => ?_) (by simp [hclosed])
    fun _ hclaimed => hclaimed
  obtain rfl := Option.some.inj hafter
  rw [hregistry]
  exact h.emptied handle session hsession (hclosed ▸ hover)

/-- Dropping the open session gives the node back; dropping a closed one does nothing to it. -/
theorem drops (h : tenancy.Sound place) (handle : Nat) :
    (tenancy.after (Hub.node place).recorded (.drops handle)).Sound place := by
  simp only [after]
  split
  · exact h
  rename_i session hsession
  cases hclosed : session.closed with
  | true =>
      refine h.put_alike hsession (by simp) (by simp [hclosed]) fun _ hclaimed => ?_
      simpa [Session.close, hclosed] using hclaimed
  | false => exact h.put_closed hsession hclosed (by simp) (h.freed_of_close hclosed)

/-- A step keeps a tenancy sound, unless the network by itself changes the claim. -/
theorem step (h : tenancy.Sound place) {step : Step (Recorded Hub)}
    (hdrift : ∀ change, step = .drifts change → ∀ claimed state,
      state.network.ClaimedAt place claimed → (change state).network.ClaimedAt place claimed) :
    (tenancy.after (Hub.node place).recorded step).Sound place := by
  cases step with
  | opens config => exact h.opens config
  | uses handle command => exact h.uses handle command
  | delivers handle => exact h.delivers handle
  | drops handle => exact h.drops handle
  | drifts change =>
      obtain ⟨holder, hclaimed, hopen⟩ := h.held
      exact ⟨⟨holder, hdrift change rfl _ _ hclaimed, hopen⟩, h.emptied⟩

theorem run {steps : List (Step (Recorded Hub))}
    (hdrift : ∀ change, .drifts change ∈ steps → ∀ claimed state,
      state.network.ClaimedAt place claimed → (change state).network.ClaimedAt place claimed)
    (h : tenancy.Sound place) :
    (tenancy.run (Hub.node place).recorded steps).Sound place := by
  induction steps generalizing tenancy with
  | nil => exact h
  | cons step later ih =>
      refine ih (fun change hmem => hdrift change (List.mem_cons_of_mem _ hmem)) (h.step ?_)
      rintro change rfl
      exact hdrift change List.mem_cons_self

/-- One more session is opened if and only if its configuration is usable and no session is
open, and if not, nothing changes. -/
theorem opens_iff (h : tenancy.Sound place) (config : Config) :
    let opened := tenancy.after (Hub.node place).recorded (.opens config)
    ((∃ session, (Session.attach (Hub.node place).recorded config tenancy.state).1 = .ok session ∧
        opened.handles = tenancy.handles ++ [some session]) ↔
      config.Usable ∧ ¬ ∃ handle, tenancy.IsOpen handle) ∧
    (¬ (config.Usable ∧ ¬ ∃ handle, tenancy.IsOpen handle) →
      opened.handles = tenancy.handles ∧ opened.state.network = tenancy.state.network) := by
  obtain ⟨holder, hclaimed, hopen⟩ := h.held
  have hnobody : (¬ ∃ handle, tenancy.IsOpen handle) ↔ holder.isSome = false := by
    simp only [hopen, ← Option.isSome_iff_exists, Bool.not_eq_true]
  intro opened
  rw [hnobody]
  simp only [opened, after]
  rcases attach_cases hclaimed config with
    ⟨hallowed, usable, opened, hattach, -⟩ | ⟨hrefused, refusal, state, hattach, hstate⟩
  · rw [hattach]
    exact ⟨iff_of_true ⟨_, rfl, rfl⟩ hallowed, fun hnot => absurd hallowed hnot⟩
  · rw [hattach]
    refine ⟨iff_of_false ?_ hrefused, fun _ => ⟨rfl, hstate⟩⟩
    rintro ⟨session, hsession, -⟩
    cases hsession

end Sound

/-! ## Closed sessions -/

/-- Nothing that is done with a closed session changes more than its listener. -/
theorem inert_of_closed (network : Network σ) (hsession : tenancy.session? handle = some session)
    (hclosed : session.closed = true) :
    (∀ command, ∃ listener, tenancy.after network (.uses handle command) =
      tenancy.put handle (some { session with listener }) tenancy.state) ∧
    tenancy.after network (.drops handle) = tenancy.put handle none tenancy.state := by
  constructor
  · intro command
    obtain ⟨reply, listener, hperform⟩ :=
      Session.perform_of_closed network hclosed tenancy.state command
    exact ⟨listener, by simp only [after, hsession, hperform]⟩
  · simp only [after, hsession, Session.close, hclosed, if_true]

/-- A handle is spent when its session is closed or gone, and no later session will get it. -/
def Spent (tenancy : Tenancy σ) (handle : Nat) : Prop :=
  handle < tenancy.handles.length ∧
    ∀ session, tenancy.session? handle = some session → session.closed = true

theorem Spent.put (h : tenancy.Spent handle) (hother : other < tenancy.handles.length)
    (hentry : other = handle → ∀ after, entry = some after → after.closed = true) :
    (tenancy.put other entry state).Spent handle := by
  refine ⟨by simpa [Tenancy.put] using h.1, fun session hsession => ?_⟩
  rw [session?_put hother] at hsession
  split at hsession
  · rename_i heq
    exact hentry heq.symm session hsession
  · exact h.2 session hsession

/-- A closed session stays closed, and a session that is gone does not come back. -/
theorem Spent.step (h : tenancy.Spent handle) (step : Step σ) :
    (tenancy.after network step).Spent handle := by
  cases step with
  | opens config =>
      simp only [after]
      split
      · refine ⟨Nat.lt_of_lt_of_le h.1 (by simp), fun session hsession => ?_⟩
        rw [session?_append, if_neg (Nat.ne_of_lt h.1)] at hsession
        exact h.2 session hsession
      · exact h
  | uses other command =>
      simp only [after]
      split
      · exact h
      rename_i session hsession
      refine h.put (lt_of_session? hsession) fun heq after hafter => ?_
      have hclosed := h.2 session (heq ▸ hsession)
      obtain ⟨reply, listener, hperform⟩ :=
        Session.perform_of_closed network hclosed tenancy.state command
      rw [hperform] at hafter
      obtain rfl := Option.some.inj hafter
      exact hclosed
  | delivers other =>
      simp only [after]
      split
      · exact h
      rename_i session hsession
      split
      · exact h
      rename_i taken advanced hadvance
      refine h.put (lt_of_session? hsession) fun heq after hafter => ?_
      obtain rfl := Option.some.inj hafter
      rw [Session.advance_eq hadvance]
      exact h.2 session (heq ▸ hsession)
  | drops other =>
      simp only [after]
      split
      · exact h
      · rename_i session hsession
        exact h.put (lt_of_session? hsession) (by simp)
  | drifts change => exact h

theorem Spent.run (h : tenancy.Spent handle) (steps : List (Step σ)) :
    (tenancy.run network steps).Spent handle := by
  induction steps generalizing tenancy with
  | nil => exact h
  | cons step later ih => exact ih (h.step step)

/-- Closing a session spends its handle. -/
theorem spent_of_close (h : handle < tenancy.handles.length) :
    (tenancy.after network (.uses handle .close)).Spent handle := by
  simp only [after]
  split
  · rename_i hgone
    refine ⟨h, fun session hsession => ?_⟩
    rw [hgone] at hsession
    cases hsession
  · rename_i session hsession
    refine ⟨by simpa [put] using h, fun after hafter => ?_⟩
    rw [session?_put h, if_pos rfl] at hafter
    obtain rfl := Option.some.inj hafter
    simp only [Session.perform, Outcome.map, Session.close]
    split
    · assumption
    · rfl

/-! ## Runs -/

/-- However many sessions are opened, used, closed and dropped on one node, and in whatever
order: at most one of them is open; the node is claimed if and only if one is; one more can be
opened if and only if its configuration is usable and none is open, and a refusal changes
nothing.  A session that was closed is closed for good.  It has no calls, and whatever is done
with it asks nothing of the network, puts no event on its way and leaves every other session
alone. -/
theorem claimed_iff_open {place : NodeId} {state : Recorded Hub}
    (hfree : state.network.ClaimedAt place false) {steps : List (Step (Recorded Hub))}
    (hdrift : ∀ change, .drifts change ∈ steps → ∀ claimed state,
      state.network.ClaimedAt place claimed → (change state).network.ClaimedAt place claimed) :
    let network := (Hub.node place).recorded
    let start : Tenancy (Recorded Hub) := ⟨[], state⟩
    let tenancy := start.run network steps
    (∀ first second, tenancy.IsOpen first → tenancy.IsOpen second → first = second) ∧
    ((tenancy.state.network.get place).attached = true ↔ ∃ handle, tenancy.IsOpen handle) ∧
    (∀ config, let opened := tenancy.after network (.opens config)
      ((∃ session, (Session.attach network config tenancy.state).1 = .ok session ∧
          opened.handles = tenancy.handles ++ [some session]) ↔
        config.Usable ∧ ¬ ∃ handle, tenancy.IsOpen handle) ∧
      (¬ (config.Usable ∧ ¬ ∃ handle, tenancy.IsOpen handle) →
        opened.handles = tenancy.handles ∧ opened.state.network = tenancy.state.network)) ∧
    (∀ before handle later, steps = before ++ .uses handle .close :: later →
      handle < (start.run network before).handles.length →
      ∀ session, tenancy.session? handle = some session → session.closed = true) ∧
    ∀ handle session, tenancy.session? handle = some session → session.closed = true →
      session.registry = .empty ∧
      (∀ command, ∃ listener, tenancy.after network (.uses handle command) =
        tenancy.put handle (some { session with listener }) tenancy.state) ∧
      tenancy.after network (.drops handle) = tenancy.put handle none tenancy.state := by
  intro network start tenancy
  have hstart : start.Sound place := by
    refine ⟨⟨none, hfree, fun handle => ?_⟩, fun handle session hsession => ?_⟩
    · simp [IsOpen, session?, start]
    · simp [session?, start] at hsession
  have hsound : tenancy.Sound place := hstart.run hdrift
  obtain ⟨holder, hclaimed, hopen⟩ := hsound.held
  refine ⟨fun first second hfirst hsecond => ?_, ?_, hsound.opens_iff, ?_, ?_⟩
  · have hboth := ((hopen first).mp hfirst).symm.trans ((hopen second).mp hsecond)
    exact Option.some.inj hboth
  · rw [hclaimed.flag, Option.isSome_iff_exists]
    exact exists_congr fun handle => (hopen handle).symm
  · rintro before handle later rfl hlength
    have hspent : (((start.run network before).after network (.uses handle .close)).run network
        later).Spent handle := (spent_of_close hlength).run later
    have hrun : tenancy = ((start.run network before).after network
        (.uses handle .close)).run network later := by
      simp only [tenancy, Tenancy.run, List.foldl_append, List.foldl_cons]
    rw [hrun]
    exact hspent.2
  · intro handle session hsession hclosed
    exact ⟨hsound.emptied handle session hsession hclosed,
      inert_of_closed network hsession hclosed⟩

/-- The first of two linked nodes gets a session that calls.  A second one is refused until the
first is closed; after that the old handle is used, closed again and dropped. -/
def relay : List (Step (Recorded Hub)) :=
  let friend : Friend := ⟨1⟩
  [.opens .standard, .uses 0 (.call friend ⟨48, 0⟩), .opens .standard,
    .drifts fun state =>
      { state with network := ((Hub.node 1).sendSignal ⟨0⟩ (.answer ⟨48, 0⟩) state.network).2 },
    .uses 0 .iterate, .delivers 0, .uses 0 .close, .opens .standard, .uses 0 (.call friend ⟨48, 0⟩),
    .uses 0 .close, .uses 1 (.call friend ⟨48, 0⟩)]

def relayStart : Recorded Hub := ⟨(Hub.fresh 2).connect 0 ⟨1⟩ 1 ⟨0⟩, []⟩

def relayed : Tenancy (Recorded Hub) := .run (Hub.node 0).recorded ⟨[], relayStart⟩ relay

theorem relay_keeps_claim : ∀ change, .drifts change ∈ relay → ∀ claimed (state : Recorded Hub),
    state.network.ClaimedAt 0 claimed → (change state).network.ClaimedAt 0 claimed := by
  intro change hmem claimed state hclaimed
  simp only [relay, List.mem_cons, Step.drifts.injEq, reduceCtorEq, List.not_mem_nil, false_or,
    or_false] at hmem
  rw [hmem]
  exact (Hub.keeps_claimedAt 1 0 claimed).sendSignal ⟨0⟩ (.answer ⟨48, 0⟩) state.network hclaimed

/-- The second session is the open one, and dropping the first one changes nothing for it. -/
theorem claimed_by_second :
    relayed.IsOpen 1 ∧ (relayed.state.network.get 0).attached = true ∧
      (∃ session, relayed.session? 0 = some session ∧ session.closed = true ∧
        session.registry = .empty) ∧
      (relayed.after (Hub.node 0).recorded (.drops 0)).state = relayed.state := by
  have hfree : relayStart.network.ClaimedAt 0 false := ⟨by decide, by decide⟩
  obtain ⟨-, hclaim, -, hclosed, hinert⟩ := claimed_iff_open hfree relay_keeps_claim
  have hopen : relayed.IsOpen 1 :=
    Option.map_eq_some_iff.mp (by decide : (relayed.session? 1).map Session.closed = some false)
  obtain ⟨session, hsession⟩ : ∃ session, relayed.session? 0 = some session :=
    Option.isSome_iff_exists.mp (by decide)
  have hover : session.closed = true :=
    hclosed (relay.take 6) 0 (relay.drop 7) rfl (by decide) session hsession
  obtain ⟨hempty, -, hdropped⟩ := hinert 0 session hsession hover
  have hkept : relayed.after (Hub.node 0).recorded (.drops 0) = relayed.put 0 none relayed.state :=
    hdropped
  exact ⟨hopen, hclaim.mpr ⟨1, hopen⟩, ⟨session, hsession, hover, hempty⟩, by rw [hkept, put]⟩

end Tenancy

end PeerCalls
