import PeerCalls.Session.Basic

/-!
# Placing a call

A call is placed with a friend who is known, free and connected, at rates the
configuration allows.  The call is entered before the invitation is pushed; if
the push fails, the friend has no entry afterwards.
-/

namespace PeerCalls.Session

variable {σ : Type}

/-- Why a call is not even tried. -/
def callRefusal? (network : Network σ) (session : Session) (state : σ) (friend : Friend)
    (rates : Rates) : Option CallError :=
  if session.closed then some .closed
  else if !network.knows state friend then some (.friendNotFound friend)
  else if session.registry.isInCall friend then some (.alreadyInCall friend)
  else if !(network.status state friend).isConnected then some (.friendNotConnected friend)
  else (session.config.unsupportedRate? rates).map .unsupportedRate

/-- Places a call with our sending rates. -/
def call (network : Network σ) (session : Session) (state : σ) (friend : Friend)
    (rates : Rates) : Outcome σ (Except CallError Unit) :=
  match session.callRefusal? network state friend rates with
  | some refusal => ⟨.error refusal, session, state⟩
  | none =>
    let entered := session.registry.set (.outgoing friend rates)
    match network.sendSignal friend (.invite rates) state with
    | (.ok (), after) => ⟨.ok (), { session with registry := entered }, after⟩
    | (.error cause, after) =>
      ⟨.error (.signaling cause), { session with registry := entered.remove friend }, after⟩

end PeerCalls.Session
