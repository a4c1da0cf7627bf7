import PeerCalls.Session.Basic

/-!
# Answering a call

A ringing incoming call is answered at rates the configuration allows.  The
codecs are prepared first; if the answer cannot be pushed they are released and
the call goes on ringing.
-/

namespace PeerCalls.Session

variable {σ : Type}

/-- The call to answer, or why there is none. -/
def answerable (network : Network σ) (session : Session) (state : σ) (friend : Friend)
    (rates : Rates) : Except AnswerError Call :=
  if session.closed then .error .closed
  else if !network.knows state friend then .error (.friendNotFound friend)
  else
    match (session.registry.live? friend).filter Call.isAnswerable with
    | none => .error (.friendNotCalling friend)
    | some call =>
      match session.config.unsupportedRate? rates with
      | some rate => .error (.unsupportedRate rate)
      | none => .ok call

/-- Answers the friend's call with our sending rates. -/
def answer (network : Network σ) (session : Session) (state : σ) (friend : Friend)
    (rates : Rates) : Outcome σ (Except AnswerError CallState) :=
  match session.answerable network state friend rates with
  | .error refusal => ⟨.error refusal, session, state⟩
  | .ok call =>
    match network.openMedia friend rates state with
    | (.error cause, after) => ⟨.error (.codecSetup cause.message), session, after⟩
    | (.ok (), prepared) =>
      match network.sendSignal friend (.answer rates) prepared with
      | (.error cause, after) =>
        ⟨.error (.signaling cause), session, network.closeMedia friend after⟩
      | (.ok (), after) =>
        match call.after? (.localAnswered rates) with
        | some answered => ⟨.ok answered.state, session.setCall answered, after⟩
        | none => ⟨.error (.friendNotCalling friend), session, after⟩

end PeerCalls.Session
