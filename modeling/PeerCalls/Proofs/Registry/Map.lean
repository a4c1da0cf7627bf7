import Mathlib.Data.List.Sort
import PeerCalls.Registry

/-!
# The registry as a map

A registry is read through `get?`, the call it holds for a friend.  Every
operation has one equation that says what `get?` finds afterwards, so nothing
below this file has to know that the calls are a list kept in order.
`live?` is `get?` without the calls that are over, and has equations of its own.
-/

namespace PeerCalls.Registry

variable {registry : Registry} {call : Call} {friend : Friend}

/-! ## Entries and members -/

/-- A call is found under the friend it is with. -/
theorem friend_of_get? (h : registry.get? friend = some call) : call.friend = friend := by
  simpa using List.find?_some h

theorem mem_of_get? (h : registry.get? friend = some call) : call ∈ registry.calls :=
  List.mem_of_find?_eq_some h

/-- In an ordered list a call is the first one with its friend. -/
theorem find?_of_mem {calls : List Call}
    (ordered : calls.Pairwise fun first second => first.friend < second.friend)
    (h : call ∈ calls) : (calls.find? fun other => other.friend = call.friend) = some call := by
  induction calls with
  | nil => simp at h
  | cons first rest ih =>
      obtain ⟨hfirst, hrest⟩ := List.pairwise_cons.mp ordered
      rcases List.mem_cons.mp h with rfl | hmem
      · simp
      · have hne : first.friend ≠ call.friend := fun heq =>
          Friend.lt_irrefl call.friend (heq ▸ hfirst call hmem)
        rw [List.find?_cons_of_neg (by simpa using hne)]
        exact ih hrest hmem

/-- The members of a registry are what it holds for their friends. -/
theorem mem_calls_iff : call ∈ registry.calls ↔ registry.get? call.friend = some call :=
  ⟨find?_of_mem registry.ordered, mem_of_get?⟩

/-- No two calls of a registry are with the same friend. -/
theorem distinct (registry : Registry) :
    registry.calls.Pairwise fun call next => call.friend ≠ next.friend := by
  refine registry.ordered.imp fun {call next} hlt heq => ?_
  rw [heq] at hlt
  exact Friend.lt_irrefl next.friend hlt

theorem distinct_of_perm {order : List Call} (hperm : order.Perm registry.calls) :
    order.Pairwise fun call next => call.friend ≠ next.friend :=
  hperm.symm.pairwise registry.distinct fun hne => hne.symm

/-- After a call none is found with the same friend. -/
theorem find?_eq_none_of_distinct {later : List Call}
    (h : ∀ next ∈ later, call.friend ≠ next.friend) :
    (later.find? fun next => next.friend = call.friend) = none := by
  refine List.find?_eq_none.mpr fun next hmem => ?_
  simpa using (h next hmem).symm

/-- The calls of a registry are found by their friend in whatever order they come. -/
theorem find?_of_perm {order : List Call} (hperm : order.Perm registry.calls) (friend : Friend) :
    (order.find? fun call => call.friend = friend) = registry.get? friend := by
  cases hfind : order.find? fun call => call.friend = friend with
  | none =>
      refine (List.find?_eq_none.mpr fun call hmem => ?_).symm
      exact List.find?_eq_none.mp hfind call (hperm.mem_iff.mpr hmem)
  | some call =>
      have hfriend : call.friend = friend := by simpa using List.find?_some hfind
      have hmem : call ∈ registry.calls := hperm.mem_iff.mp (List.mem_of_find?_eq_some hfind)
      rw [← hfriend]
      exact (mem_calls_iff.mp hmem).symm

/-- A registry is what it holds for each friend. -/
theorem ext_get? {other : Registry} (h : ∀ friend, registry.get? friend = other.get? friend) :
    registry = other := by
  have hasymm : Std.Asymm fun first second : Call => first.friend < second.friend :=
    ⟨fun first _ hlt hgt => Friend.lt_irrefl first.friend (Friend.lt_trans hlt hgt)⟩
  have hmem : ∀ call, call ∈ registry.calls ↔ call ∈ other.calls := by
    intro call
    rw [mem_calls_iff, mem_calls_iff, h]
  have hcalls : registry.calls = other.calls :=
    registry.ordered.eq_of_mem_iff other.ordered hmem
  cases registry
  cases other
  congr

/-! ## What an operation leaves to be found -/

@[simp] theorem get?_empty (friend : Friend) : empty.get? friend = none := rfl

theorem find?_place (call : Call) (calls : List Call) (friend : Friend) :
    (place call calls).find? (fun other => other.friend = friend) =
      if call.friend = friend then some call
      else calls.find? fun other => other.friend = friend := by
  induction calls with
  | nil => by_cases h : call.friend = friend <;> simp [place, h]
  | cons first rest ih =>
      by_cases h : call.friend = friend
      · rw [if_pos h] at ih ⊢
        unfold place
        split
        · exact List.find?_cons_of_pos (by simpa using h)
        · split
          · rename_i hlt
            have hne : first.friend ≠ friend := by
              rintro rfl
              exact Friend.lt_irrefl _ (h ▸ hlt)
            rw [List.find?_cons_of_neg (by simpa using hne), ih]
          · exact List.find?_cons_of_pos (by simpa using h)
      · rw [if_neg h] at ih ⊢
        unfold place
        split
        · exact List.find?_cons_of_neg (by simpa using h)
        · split
          · simp only [List.find?_cons, ih]
          · -- the call takes the place of one with the same friend
            rename_i hnot hnot'
            have heq : call.friend = first.friend := Friend.eq_of_not_lt hnot hnot'
            rw [List.find?_cons_of_neg (by simpa using h),
              List.find?_cons_of_neg (by simpa using heq ▸ h)]

theorem get?_set (registry : Registry) (call : Call) (friend : Friend) :
    (registry.set call).get? friend =
      if call.friend = friend then some call else registry.get? friend :=
  find?_place call registry.calls friend

@[simp] theorem get?_set_self (registry : Registry) (call : Call) :
    (registry.set call).get? call.friend = some call := by
  rw [get?_set, if_pos rfl]

theorem get?_set_of_ne (registry : Registry) (h : call.friend ≠ friend) :
    (registry.set call).get? friend = registry.get? friend := by
  rw [get?_set, if_neg h]

/-- Putting a call in keeps every entry there is. -/
theorem isSome_get?_set (call : Call) (h : (registry.get? friend).isSome) :
    ((registry.set call).get? friend).isSome := by
  rw [get?_set]
  split
  · rfl
  · exact h

@[simp] theorem get?_filter (registry : Registry) (keep : Call → Bool) (friend : Friend) :
    (registry.filter keep).get? friend = (registry.get? friend).filter keep := by
  cases hget : registry.get? friend with
  | none =>
      refine List.find?_eq_none.mpr fun call hmem => ?_
      exact List.find?_eq_none.mp hget call (List.mem_filter.mp hmem).1
  | some call =>
      have hfriend : call.friend = friend := friend_of_get? hget
      subst hfriend
      by_cases hkeep : keep call = true
      · rw [Option.filter_some_pos hkeep, ← mem_calls_iff]
        exact List.mem_filter.mpr ⟨mem_of_get? hget, hkeep⟩
      · rw [Option.filter_some_neg (by simpa using hkeep)]
        refine List.find?_eq_none.mpr fun other hother heq => hkeep ?_
        obtain ⟨hmem, hkept⟩ := List.mem_filter.mp hother
        have hsame : registry.get? other.friend = some other := mem_calls_iff.mp hmem
        rw [of_decide_eq_true heq, hget] at hsame
        exact Option.some.inj hsame ▸ hkept

theorem get?_remove (registry : Registry) (friend other : Friend) :
    (registry.remove friend).get? other = if other = friend then none else registry.get? other := by
  unfold remove
  rw [get?_filter]
  cases hget : registry.get? other with
  | none => simp
  | some call =>
      have hfriend : call.friend = other := friend_of_get? hget
      by_cases h : other = friend <;> simp [Option.filter, hfriend, h]

/-- Taking a call out also takes out what it had replaced. -/
theorem remove_set (registry : Registry) (h : call.friend = friend) :
    (registry.set call).remove friend = registry.remove friend := by
  refine ext_get? fun other => ?_
  rw [get?_remove, get?_remove]
  by_cases hother : other = friend
  · rw [if_pos hother, if_pos hother]
  · rw [if_neg hother, if_neg hother, get?_set_of_ne]
    exact fun heq => hother (heq.symm.trans h)

@[simp] theorem get?_reap (registry : Registry) (friend : Friend) :
    registry.reap.2.get? friend = registry.live? friend :=
  get?_filter registry Call.isLive friend

/-! ## Calls that are not over -/

theorem live?_eq_some_iff :
    registry.live? friend = some call ↔ registry.get? friend = some call ∧ call.isLive := by
  simp [live?, Option.filter_eq_some_iff]

theorem get?_of_live? (h : registry.live? friend = some call) : registry.get? friend = some call :=
  (live?_eq_some_iff.mp h).1

theorem isLive_of_live? (h : registry.live? friend = some call) : call.isLive :=
  (live?_eq_some_iff.mp h).2

theorem friend_of_live? (h : registry.live? friend = some call) : call.friend = friend :=
  friend_of_get? (get?_of_live? h)

/-- Without a live call, whatever the registry holds for the friend is over. -/
theorem live?_eq_none_iff :
    registry.live? friend = none ↔ ∀ call ∈ registry.get? friend, ¬ call.isLive := by
  simp [live?, Option.filter_eq_none_iff]

theorem isInCall_eq_false_iff :
    registry.isInCall friend = false ↔ registry.live? friend = none := by
  simp [isInCall]

@[simp] theorem live?_empty (friend : Friend) : empty.live? friend = none := rfl

theorem live?_set (registry : Registry) (call : Call) (friend : Friend) :
    (registry.set call).live? friend =
      if call.friend = friend then (some call).filter Call.isLive else registry.live? friend := by
  unfold live?
  rw [get?_set]
  split <;> rfl

theorem live?_set_self (registry : Registry) (hfriend : call.friend = friend)
    (hlive : call.isLive = true) : (registry.set call).live? friend = some call := by
  rw [live?_set, if_pos hfriend, Option.filter_some_pos hlive]

theorem live?_set_of_ne (registry : Registry) (h : call.friend ≠ friend) :
    (registry.set call).live? friend = registry.live? friend := by
  rw [live?_set, if_neg h]

theorem live?_remove (registry : Registry) (friend other : Friend) :
    (registry.remove friend).live? other =
      if other = friend then none else registry.live? other := by
  unfold live?
  rw [get?_remove]
  split <;> rfl

@[simp] theorem live?_reap (registry : Registry) (friend : Friend) :
    registry.reap.2.live? friend = registry.live? friend := by
  unfold live?
  rw [get?_reap]
  simp [live?, Option.filter_filter]

/-- Reaping tells exactly the friends whose call is over. -/
theorem mem_finished_iff :
    friend ∈ registry.finished ↔ ∃ call, registry.get? friend = some call ∧ ¬ call.isLive := by
  simp only [finished, List.mem_map, List.mem_filter, Call.isLive, Bool.not_eq_true,
    Bool.not_eq_false']
  constructor
  · rintro ⟨call, ⟨hmem, hover⟩, rfl⟩
    exact ⟨call, mem_calls_iff.mp hmem, hover⟩
  · rintro ⟨call, hget, hover⟩
    exact ⟨call, ⟨mem_of_get? hget, hover⟩, friend_of_get? hget⟩

/-- Reaping keeps the friends with a live call. -/
theorem friends_reap (registry : Registry) :
    registry.reap.2.friends = registry.friends.filter registry.isInCall := by
  have hkept : ∀ call ∈ registry.calls, call.isLive = registry.isInCall call.friend := by
    intro call hmem
    cases hlive : call.isLive <;> simp [isInCall, live?, mem_calls_iff.mp hmem, hlive]
  simp only [friends, reap, filter, List.filter_map]
  rw [List.filter_congr hkept]
  rfl

theorem mem_friends_iff : friend ∈ registry.friends ↔ (registry.get? friend).isSome := by
  rw [friends, List.mem_map, Option.isSome_iff_exists]
  constructor
  · rintro ⟨call, hmem, rfl⟩
    exact ⟨call, mem_calls_iff.mp hmem⟩
  · rintro ⟨call, hget⟩
    exact ⟨call, mem_of_get? hget, friend_of_get? hget⟩

end PeerCalls.Registry
