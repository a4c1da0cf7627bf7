import PeerCalls.Session.Basic

/-!
# Closing a session

Closing hangs up every call that is not over, releases the codecs of every
call, forgets the listener and gives the network back.  Closing a closed
session does nothing.
-/

namespace PeerCalls

/-- Hangs up, if the call is not over, and releases the codecs.  Whether the
friend can be told does not matter. -/
def Call.release {σ : Type} (network : Network σ) (state : σ) (call : Call) : σ :=
  let told := if call.isLive then (network.sendSignal call.friend .hangUp state).2 else state
  network.closeMedia call.friend told

namespace Session

variable {σ : Type}

/-- Hangs up everything and gives the network back. -/
def close (network : Network σ) (session : Session) (state : σ) : Outcome σ Unit :=
  if session.closed then ⟨(), session, state⟩
  else
    let (calls, emptied) := session.registry.drain
    { answer := ()
      session := { session with registry := emptied, closed := true, listener := none }
      network := network.detach (calls.foldl (Call.release network) state) }

end Session

end PeerCalls
