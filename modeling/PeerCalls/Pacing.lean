/-!
# Pacing the rounds of a session

A pacer runs one round after another, waiting as long as each round asks, until
it is told to stop or nobody can tell it any more.  A request that arrives
while it waits, whatever it says, makes it look at once; a request that arrives
before it waits is noticed when the wait begins.

The pacer is a state machine over moments in milliseconds: `Pacer.stage` says
what it does next, and the functions below are what can happen to it.
-/

namespace PeerCalls

/-- The switch by which a pacer is stopped. -/
structure Shutdown where
  /-- What was requested last. -/
  requested : Bool
  /-- Whether a request was made that the pacer has not noticed. -/
  unseen : Bool
  /-- Whether nobody can make a request any more. -/
  abandoned : Bool
  deriving DecidableEq

/-- What a pacer does next. -/
inductive Stage where
  /-- It looks at the switch and then runs a round. -/
  | looking
  /-- It waits until a moment. -/
  | waiting (moment : Nat)
  | stopped
  deriving DecidableEq

/-- A loop around the rounds of a session. -/
structure Pacer where
  shutdown : Shutdown
  stage : Stage
  deriving DecidableEq

namespace Pacer

/-- A pacer that has not run yet. -/
def start (requested : Bool) : Pacer := ⟨⟨requested, false, false⟩, .looking⟩

/-- Looks at the switch: a pacer about to run a round stops if it was told to. -/
def look (pacer : Pacer) : Pacer :=
  match pacer.stage with
  | .looking => if pacer.shutdown.requested then { pacer with stage := .stopped } else pacer
  | _ => pacer

/-- Begins to wait, or notices at once what came before. -/
def rest (pacer : Pacer) (moment : Nat) : Pacer :=
  if pacer.shutdown.unseen then
    { shutdown := { pacer.shutdown with unseen := false }, stage := .looking }
  else if pacer.shutdown.abandoned then { pacer with stage := .stopped }
  else { pacer with stage := .waiting moment }

/-- A round ended at `now` and asked for a wait of `interval`. -/
def afterRound (pacer : Pacer) (now interval : Nat) : Pacer := pacer.rest (now + interval)

/-- What a waiting pacer makes of a change of the switch. -/
def notice (pacer : Pacer) : Pacer :=
  match pacer.stage with
  | .waiting moment => pacer.rest moment
  | _ => pacer

/-- Somebody makes a request; it is heard if the pacer has not stopped. -/
def request (pacer : Pacer) (value : Bool) : Bool × Pacer :=
  match pacer.stage with
  | .stopped => (false, pacer)
  | _ =>
    if pacer.shutdown.abandoned then (false, pacer)
    else (true, { pacer with shutdown := ⟨value, true, false⟩ })

/-- Nobody can make a request any more. -/
def abandon (pacer : Pacer) : Pacer :=
  { pacer with shutdown := { pacer.shutdown with abandoned := true } }

/-- The moment the pacer waits for. -/
def wakeTime? (pacer : Pacer) : Option Nat :=
  match pacer.stage with
  | .waiting moment => some moment
  | _ => none

/-- The wait is over. -/
def wake (pacer : Pacer) : Pacer :=
  match pacer.stage with
  | .waiting _ => { pacer with stage := .looking }
  | _ => pacer

def isStopped (pacer : Pacer) : Bool := pacer.stage = .stopped

end Pacer

end PeerCalls
