import PeerCalls.Session.Answering
import PeerCalls.Session.Closing
import PeerCalls.Session.Controlling
import PeerCalls.Session.Placing
import PeerCalls.Session.Rates
import PeerCalls.Session.Round
import PeerCalls.Session.Sending

/-!
# Operations as data

`Command` names every operation on an open session and `Reply` its answer, so
that a run of a session is a list of commands and delivery steps.
-/

namespace PeerCalls

/-- An operation on a session. -/
inductive Command where
  | call (friend : Friend) (rates : Rates)
  | answer (friend : Friend) (rates : Rates)
  | control (friend : Friend) (command : Control)
  | setRate (friend : Friend) (kind : MediaKind) (rate : UInt32) (force : Bool)
  | sendFrame (friend : Friend) (payload : Payload)
  | iterate
  | close
  | listen (listener : ListenerId)

/-- What an operation answers. -/
inductive Reply where
  | called (result : Except CallError Unit)
  | answered (result : Except AnswerError CallState)
  | controlled (result : Except ControlError CallState)
  | rateSet (result : Except RateError RateReport)
  | frameSent (result : Except SendError Unit)
  | iterated (interval : UInt64)
  | done

namespace Outcome

variable {σ α β : Type}

/-- The outcome with its answer seen as something else. -/
def map (f : α → β) (outcome : Outcome σ α) : Outcome σ β :=
  ⟨f outcome.answer, outcome.session, outcome.network⟩

end Outcome

namespace Session

variable {σ : Type}

/-- Carries an operation out. -/
def perform (network : Network σ) (session : Session) (state : σ) : Command → Outcome σ Reply
  | .call friend rates => (session.call network state friend rates).map .called
  | .answer friend rates => (session.answer network state friend rates).map .answered
  | .control friend command => (session.control network state friend command).map .controlled
  | .setRate friend kind rate force =>
    (session.setRate network state friend kind rate force).map .rateSet
  | .sendFrame friend payload => (session.sendFrame network state friend payload).map .frameSent
  | .iterate => (session.iterate network state).map .iterated
  | .close => (session.close network state).map fun _ => .done
  | .listen listener => ⟨.done, session.setListener listener, state⟩

end Session

end PeerCalls
