/-!
# Friends and how they are reached

A friend is a number in the local friend table.  Friends are ordered by that
number, and everything that visits several friends visits them in this order.
-/

namespace PeerCalls

/-- A friend, named by its number in the local friend table.  Numbers are used
again after a friend is removed. -/
structure Friend where
  number : UInt32
  deriving DecidableEq

namespace Friend

instance : LT Friend := ⟨fun first second => first.number < second.number⟩

instance (first second : Friend) : Decidable (first < second) :=
  inferInstanceAs (Decidable (first.number < second.number))

/-- How messages name a friend. -/
def label (friend : Friend) : String :=
  "friend#" ++ Nat.repr friend.number.toNat

theorem lt_iff {first second : Friend} : first < second ↔ first.number < second.number :=
  Iff.rfl

theorem lt_irrefl (friend : Friend) : ¬ friend < friend :=
  UInt32.lt_irrefl friend.number

theorem lt_trans {first second third : Friend} (h : first < second) (h' : second < third) :
    first < third :=
  UInt32.lt_trans h h'

/-- Of two friends one comes first, unless they are the same. -/
theorem eq_of_not_lt {first second : Friend} (h : ¬ first < second) (h' : ¬ second < first) :
    first = second := by
  cases first with
  | mk first =>
    cases second with
    | mk second =>
      simp only [lt_iff, UInt32.lt_iff_toNat_lt] at h h'
      exact congrArg Friend.mk (UInt32.toNat_inj.mp (by omega))

end Friend

/-- How a friend is reached at the moment. -/
inductive ConnectionStatus where
  | offline
  | tcp
  | udp
  deriving DecidableEq

namespace ConnectionStatus

/-- Nobody is connected to begin with. -/
instance : Inhabited ConnectionStatus := ⟨offline⟩

def isConnected : ConnectionStatus → Bool
  | offline => false
  | tcp => true
  | udp => true

/-- Every status, in the order of their names below. -/
def all : List ConnectionStatus := [offline, tcp, udp]

/-- The written name of a status. -/
def name : ConnectionStatus → String
  | offline => "None"
  | tcp => "Tcp"
  | udp => "Udp"

end ConnectionStatus

end PeerCalls
