import PeerCalls.Call.Transition

/-!
# The registry of calls

A registry holds at most one call per friend.  A call that is over stays in it
until it is reaped or a new call takes its place; it never blocks a new call.
The calls are kept in the order of their friends, so that whatever visits all
of them has one fixed order.
-/

namespace PeerCalls

/-- The calls of a session, in the order of their friends. -/
structure Registry where
  calls : List Call
  ordered : calls.Pairwise fun first second => first.friend < second.friend

/-- Why a call cannot be registered. -/
inductive RegistryError where
  | alreadyInCall (friend : Friend)
  deriving DecidableEq

namespace RegistryError

def message : RegistryError → String
  | alreadyInCall friend => friend.label ++ " is already in a call"

end RegistryError

namespace Registry

/-- No calls. -/
def empty : Registry := ⟨[], List.Pairwise.nil⟩

/-- The call with a friend, over or not. -/
def get? (registry : Registry) (friend : Friend) : Option Call :=
  registry.calls.find? fun call => call.friend = friend

/-- The call with a friend, unless it is over. -/
def live? (registry : Registry) (friend : Friend) : Option Call :=
  (registry.get? friend).filter Call.isLive

def isInCall (registry : Registry) (friend : Friend) : Bool := (registry.live? friend).isSome

/-- Puts a call in its place by friend, over a call with the same friend. -/
def place (call : Call) : List Call → List Call
  | [] => [call]
  | first :: rest =>
    if call.friend < first.friend then call :: first :: rest
    else if first.friend < call.friend then first :: place call rest
    else call :: rest

theorem mem_place {call other : Call} {calls : List Call} (h : other ∈ place call calls) :
    other = call ∨ other ∈ calls := by
  induction calls with
  | nil => simpa [place] using h
  | cons first rest ih =>
    simp only [place] at h
    split at h
    · simpa using h
    · split at h
      · rcases List.mem_cons.mp h with rfl | h
        · simp
        · rcases ih h with rfl | h <;> simp [*]
      · rcases List.mem_cons.mp h with rfl | h <;> simp [*]

theorem ordered_place (call : Call) {calls : List Call}
    (h : calls.Pairwise fun first second => first.friend < second.friend) :
    (place call calls).Pairwise fun first second => first.friend < second.friend := by
  induction calls with
  | nil => simp [place]
  | cons first rest ih =>
    obtain ⟨hfirst, hrest⟩ := List.pairwise_cons.mp h
    simp only [place]
    split
    · rename_i hlt
      refine List.Pairwise.cons (fun other hmem => ?_) h
      rcases List.mem_cons.mp hmem with rfl | hmem
      · exact hlt
      · exact Friend.lt_trans hlt (hfirst other hmem)
    · rename_i hnot
      split
      · rename_i hlt
        refine List.Pairwise.cons (fun other hmem => ?_) (ih hrest)
        rcases mem_place hmem with rfl | hmem
        · exact hlt
        · exact hfirst other hmem
      · rename_i hnot'
        have heq : call.friend = first.friend := Friend.eq_of_not_lt hnot hnot'
        exact List.Pairwise.cons (fun other hmem => heq ▸ hfirst other hmem) hrest

/-- The registry with a call put in, over the call it held with the same friend. -/
def set (registry : Registry) (call : Call) : Registry :=
  ⟨place call registry.calls, ordered_place call registry.ordered⟩

/-- Registers a new call, unless the friend has a call that is not over. -/
def create (registry : Registry) (call : Call) : Except RegistryError Registry :=
  if registry.isInCall call.friend then .error (.alreadyInCall call.friend)
  else .ok (registry.set call)

/-- The registry with the calls for which `keep` holds. -/
def filter (registry : Registry) (keep : Call → Bool) : Registry :=
  ⟨registry.calls.filter keep, registry.ordered.filter keep⟩

/-- The registry without the friend's call. -/
def remove (registry : Registry) (friend : Friend) : Registry :=
  registry.filter fun call => call.friend ≠ friend

/-- The friends whose call is over, in order. -/
def finished (registry : Registry) : List Friend :=
  (registry.calls.filter fun call => call.state.isTerminal).map Call.friend

/-- The friends whose call is over, and the registry without those calls. -/
def reap (registry : Registry) : List Friend × Registry :=
  (registry.finished, registry.filter Call.isLive)

/-- All calls, and the registry without any. -/
def drain (registry : Registry) : List Call × Registry := (registry.calls, empty)

/-- The friends with a call, over or not, in order. -/
def friends (registry : Registry) : List Friend := registry.calls.map Call.friend

def size (registry : Registry) : Nat := registry.calls.length

def isEmpty (registry : Registry) : Bool := registry.calls.isEmpty

end Registry

end PeerCalls
