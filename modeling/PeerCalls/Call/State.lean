import PeerCalls.Media.Streams

/-!
# States of a call

A call rings, then runs with each of our streams flowing or not, may pause, and
ends normally or by a fault.  Which streams flow is decided by our own rates
alone, whatever the friend sends.
-/

namespace PeerCalls

/-- The state of a call with one friend. -/
inductive CallState where
  /-- Called and not answered yet, by either side. -/
  | ringing
  /-- Answered, with our streams flowing as given. -/
  | established (flow : Streams Bool)
  /-- Suspended by either side. -/
  | paused
  | ended
  | failed
  deriving DecidableEq

namespace CallState

/-- The state of a running call in which we send at these rates. -/
def running (rates : Rates) : CallState := established rates.flow

/-- Over, normally or not. -/
def isTerminal : CallState → Bool
  | ended => true
  | failed => true
  | _ => false

def isRinging (state : CallState) : Bool := state = ringing

def isPaused (state : CallState) : Bool := state = paused

/-- Answered and not paused. -/
def isEstablished : CallState → Bool
  | established _ => true
  | _ => false

/-- Whether the stream flows in this state. -/
def sends (state : CallState) (kind : MediaKind) : Bool :=
  match state with
  | established flow => flow.get kind
  | _ => false

/-- The written name of a state. -/
def name : CallState → String
  | ringing => "Ringing"
  | established ⟨false, false⟩ => "NotSending"
  | established ⟨true, false⟩ => "SendingA"
  | established ⟨false, true⟩ => "SendingV"
  | established ⟨true, true⟩ => "SendingAv"
  | paused => "Paused"
  | ended => "End"
  | failed => "Error"

/-- Every state of a call. -/
def all : List CallState :=
  [ringing, established ⟨false, false⟩, established ⟨true, false⟩, established ⟨false, true⟩,
    established ⟨true, true⟩, paused, ended, failed]

@[simp] theorem isEstablished_running (rates : Rates) : (running rates).isEstablished = true := rfl

@[simp] theorem isTerminal_running (rates : Rates) : (running rates).isTerminal = false := rfl

@[simp] theorem sends_running (rates : Rates) (kind : MediaKind) :
    (running rates).sends kind = decide (0 < rates.get kind) := by
  cases kind <;> rfl

end CallState

end PeerCalls
