import PeerCalls.Proofs.Registry.Map

/-!
# Registries through any sequence of operations

A registry begins empty and is changed by its operations only.  `Operation.entryAfter` tells what
an operation makes of the entry of one friend, from this entry alone, as an operation on a map
would; `get?_run` says that a registry holds for each friend what the operations, replayed in this
way, come to.  So entries never mix, and an entry is always the one of its own friend.

The calls are kept in the order of their friends.  Whatever lists friends or calls therefore lists
them in order, each of them once.
-/

namespace PeerCalls.Registry

/-- Something that is done to a registry. -/
inductive Operation where
  /-- A new call is entered. -/
  | create (call : Call)
  /-- The call with a friend goes through a transition, if it fits. -/
  | apply (friend : Friend) (transition : Transition)
  /-- The same, but to a call that is over nothing is done. -/
  | applyLive (friend : Friend) (transition : Transition)
  | remove (friend : Friend)
  | reap
  | drain

/-- The registry with a changed call in its place, if there is one. -/
def putBack (registry : Registry) (call? : Option Call) : Registry :=
  call?.elim registry registry.set

/-- The registry after an operation. -/
def after (registry : Registry) : Operation → Registry
  | .create call => (registry.create call).toOption.getD registry
  | .apply friend transition =>
    registry.putBack ((registry.get? friend).bind fun call => call.after? transition)
  | .applyLive friend transition =>
    registry.putBack ((registry.live? friend).bind fun call => call.after? transition)
  | .remove friend => registry.remove friend
  | .reap => registry.reap.2
  | .drain => registry.drain.2

/-- The registry that operations lead to from the beginning. -/
def run (operations : List Operation) : Registry := operations.foldl after empty

/-- What an operation makes of the entry of a friend, whatever other entries there are. -/
def Operation.entryAfter (friend : Friend) (entry : Option Call) : Operation → Option Call
  | .create call =>
    if call.friend = friend ∧ entry.filter Call.isLive = none then some call else entry
  | .apply other transition =>
    if other = friend then (entry.bind fun call => call.after? transition).or entry else entry
  | .applyLive other transition =>
    if other = friend then
      ((entry.filter Call.isLive).bind fun call => call.after? transition).or entry
    else entry
  | .remove other => if other = friend then none else entry
  | .reap => entry.filter Call.isLive
  | .drain => none

variable {registry : Registry} {call : Call} {friend : Friend}

/-! ## Entering a call -/

theorem create_of_live?_eq_none (h : registry.live? call.friend = none) :
    registry.create call = .ok (registry.set call) := by
  have hfree : registry.isInCall call.friend = false := isInCall_eq_false_iff.mpr h
  simp [create, hfree]

theorem create_of_live?_ne_none (h : registry.live? call.friend ≠ none) :
    registry.create call = .error (.alreadyInCall call.friend) := by
  have hbusy : registry.isInCall call.friend = true := by
    simpa [isInCall, Option.isSome_iff_ne_none] using h
  simp [create, hbusy]

/-! ## What an operation leaves of an entry -/

theorem get?_putBack {call? : Option Call} (h : ∀ call ∈ call?, call.friend = friend)
    (other : Friend) :
    (registry.putBack call?).get? other =
      if friend = other then call?.or (registry.get? other) else registry.get? other := by
  cases call? with
  | none => simp [putBack]
  | some call =>
      obtain rfl := h call rfl
      exact get?_set registry call other

/-- A transition leaves a call with the friend whom it was found for. -/
theorem friend_of_bind {found : Option Call} {transition : Transition}
    (h : ∀ call ∈ found, call.friend = friend) :
    ∀ later ∈ found.bind fun call => call.after? transition, later.friend = friend := by
  intro later hlater
  obtain ⟨call, hfound, hfits⟩ := Option.bind_eq_some_iff.mp hlater
  exact (Call.friend_of_after? hfits).trans (h call hfound)

/-- Each entry goes its own way. -/
theorem get?_after (registry : Registry) (operation : Operation) (friend : Friend) :
    (registry.after operation).get? friend =
      operation.entryAfter friend (registry.get? friend) := by
  cases operation with
  | create call =>
      simp only [after, Operation.entryAfter]
      by_cases hlive : registry.live? call.friend = none
      · rw [create_of_live?_eq_none hlive]
        simp only [Except.toOption, Option.getD_some, get?_set]
        by_cases hfriend : call.friend = friend
        · subst hfriend
          rw [if_pos rfl, if_pos ⟨rfl, hlive⟩]
        · rw [if_neg hfriend, if_neg fun h => hfriend h.1]
      · rw [create_of_live?_ne_none hlive]
        simp only [Except.toOption, Option.getD_none]
        rw [if_neg]
        rintro ⟨rfl, hnone⟩
        exact hlive hnone
  | apply other transition =>
      simp only [after, Operation.entryAfter]
      rw [get?_putBack (friend_of_bind fun _ => friend_of_get?)]
      split
      · rename_i hsame
        rw [hsame]
      · rfl
  | applyLive other transition =>
      simp only [after, Operation.entryAfter]
      rw [get?_putBack (friend_of_bind fun _ => friend_of_live?)]
      split
      · rename_i hsame
        rw [hsame, live?]
      · rfl
  | remove other =>
      simp only [after, Operation.entryAfter, get?_remove, eq_comm]
  | reap => exact get?_reap registry friend
  | drain => rfl

/-- A registry holds for a friend what the operations make of this friend's entry. -/
theorem get?_run (operations : List Operation) (friend : Friend) :
    (run operations).get? friend =
      operations.foldl (Operation.entryAfter friend) none := by
  have hfrom : ∀ (registry : Registry), (operations.foldl after registry).get? friend =
      operations.foldl (Operation.entryAfter friend) (registry.get? friend) := by
    induction operations with
    | nil => exact fun registry => rfl
    | cons operation operations ih =>
        intro registry
        rw [List.foldl_cons, List.foldl_cons, ih, get?_after]
  exact hfrom empty

/-! ## What is listed -/

theorem nodup_calls (registry : Registry) : registry.calls.Nodup :=
  registry.distinct.imp fun hne heq => hne (congrArg Call.friend heq)

theorem pairwise_friends (registry : Registry) : registry.friends.Pairwise (· < ·) :=
  List.pairwise_map.mpr registry.ordered

theorem pairwise_finished (registry : Registry) : registry.finished.Pairwise (· < ·) :=
  List.pairwise_map.mpr (registry.ordered.filter _)

theorem count_calls (registry : Registry) (call : Call) :
    registry.calls.count call = if registry.get? call.friend = some call then 1 else 0 := by
  rw [registry.nodup_calls.count]
  simp only [mem_calls_iff]

/-- What was reaped needs no reaping again. -/
theorem reap_reap (registry : Registry) : registry.reap.2.reap = ([], registry.reap.2) := by
  have hfinished : registry.reap.2.finished = [] := by
    refine List.eq_nil_iff_forall_not_mem.mpr fun friend hmem => ?_
    obtain ⟨call, hget, hover⟩ := mem_finished_iff.mp hmem
    rw [get?_reap] at hget
    exact hover (isLive_of_live? hget)
  have hkept : registry.reap.2.filter Call.isLive = registry.reap.2 := by
    refine ext_get? fun friend => ?_
    rw [get?_filter, get?_reap, live?, Option.filter_filter]
    simp
  exact Prod.ext hfinished hkept

/-- Reaping takes out the entries of the friends that it tells, and no others. -/
theorem get?_reap_eq (registry : Registry) (friend : Friend) :
    registry.reap.2.get? friend =
      if friend ∈ registry.reap.1 then none else registry.get? friend := by
  rw [get?_reap, live?]
  split
  · rename_i hmem
    obtain ⟨call, hget, hover⟩ := mem_finished_iff.mp hmem
    rw [hget, Option.filter_some_neg (by simpa using hover)]
  · rename_i hmem
    cases hget : registry.get? friend with
    | none => rfl
    | some call =>
        refine Option.filter_some_pos ?_
        by_contra hover
        exact hmem (mem_finished_iff.mpr ⟨call, hget, hover⟩)

/-! ## The registry as a map -/

/-- Whatever was done to a registry, it is a map from friends to calls with these friends, in which
no entry depends on another.  A call is entered exactly if the friend has no live call, in place of
the friend's entry and of nothing else.  Reaping tells exactly the friends whose call is over, in
order, takes out exactly their entries and leaves nothing to reap.  The friends are listed in order
and each of them once, and so are the calls when the registry is drained. -/
theorem map_of_run (operations : List Operation) :
    let registry := run operations
    (∀ friend, registry.get? friend =
      operations.foldl (Operation.entryAfter friend) none) ∧
    (∀ friend call, registry.get? friend = some call → call.friend = friend) ∧
    (∀ call,
      ((∃ later, registry.create call = .ok later) ↔ registry.live? call.friend = none) ∧
      (∀ later, registry.create call = .ok later → later.get? call.friend = some call ∧
        ∀ other, other ≠ call.friend → later.get? other = registry.get? other) ∧
      (registry.live? call.friend ≠ none →
        registry.create call = .error (.alreadyInCall call.friend) ∧
        registry.after (.create call) = registry)) ∧
    (registry.reap.1.Pairwise (· < ·) ∧
      (∀ friend, friend ∈ registry.reap.1 ↔
        ∃ call, registry.get? friend = some call ∧ call.state.isTerminal = true) ∧
      (∀ friend, registry.reap.2.get? friend =
        if friend ∈ registry.reap.1 then none else registry.get? friend) ∧
      registry.reap.2.reap = ([], registry.reap.2)) ∧
    (registry.friends.Pairwise (· < ·) ∧
      (∀ friend, friend ∈ registry.friends ↔ (registry.get? friend).isSome) ∧
      registry.friends.length = registry.size) ∧
    (∀ call, registry.drain.1.count call =
      if registry.get? call.friend = some call then 1 else 0) ∧
    registry.drain.2 = empty := by
  intro registry
  refine ⟨get?_run operations, fun _ _ => friend_of_get?, ?_, ?_, ?_, ?_, rfl⟩
  · intro call
    by_cases hlive : registry.live? call.friend = none
    · have hcreate := create_of_live?_eq_none hlive
      refine ⟨iff_of_true ⟨_, hcreate⟩ hlive, ?_, fun hbusy => absurd hlive hbusy⟩
      intro later hlater
      obtain rfl := Except.ok.inj (hcreate.symm.trans hlater)
      exact ⟨get?_set_self registry call, fun other hother => get?_set_of_ne registry hother.symm⟩
    · have hcreate := create_of_live?_ne_none hlive
      have hkept : registry.after (.create call) = registry := by
        rw [after, hcreate]
        rfl
      refine ⟨iff_of_false ?_ hlive, ?_, fun _ => ⟨hcreate, hkept⟩⟩
      · rintro ⟨later, hlater⟩
        cases hcreate.symm.trans hlater
      · intro later hlater
        cases hcreate.symm.trans hlater
  · refine ⟨registry.pairwise_finished, fun friend => ?_, registry.get?_reap_eq, registry.reap_reap⟩
    simpa [Call.isLive, reap] using mem_finished_iff
  · exact ⟨registry.pairwise_friends, fun friend => mem_friends_iff, List.length_map _⟩
  · exact registry.count_calls

/-- A call is over and replaced by a new one, and another call fails. -/
def replacing : List Operation :=
  [.create (.outgoing ⟨3⟩ ⟨48, 0⟩), .create (.incoming ⟨1⟩ ⟨64, 0⟩), .apply ⟨1⟩ .cancel,
    .create (.outgoing ⟨1⟩ ⟨0, 500⟩), .applyLive ⟨3⟩ .fault]

/-- The call that replaced the old one keeps out another one, and the call that failed does not. -/
theorem map_of_replacing :
    (run replacing).create (.incoming ⟨1⟩ .zero) = .error (.alreadyInCall ⟨1⟩) ∧
      ∃ later, (run replacing).create (.incoming ⟨3⟩ .zero) = .ok later ∧
        later.get? ⟨3⟩ = some (.incoming ⟨3⟩ .zero) ∧
        later.get? ⟨1⟩ = some (.outgoing ⟨1⟩ ⟨0, 500⟩) := by
  obtain ⟨-, -, hcreate, -⟩ := map_of_run replacing
  obtain ⟨-, -, hbusy⟩ := hcreate (.incoming ⟨1⟩ .zero)
  obtain ⟨hfree, hentered, -⟩ := hcreate (.incoming ⟨3⟩ .zero)
  obtain ⟨later, hlater⟩ := hfree.mpr (by decide)
  obtain ⟨hself, hothers⟩ := hentered later hlater
  refine ⟨(hbusy (by decide)).1, later, hlater, hself, ?_⟩
  rw [hothers ⟨1⟩ (by decide)]
  decide

end PeerCalls.Registry
