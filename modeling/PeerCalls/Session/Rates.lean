import PeerCalls.Session.Delivery

/-!
# Changing a sending rate

A rate that the link cannot carry is not taken, unless it is forced; the report
then names the rate that stays in force.  A rate that is taken is announced to
the friend first.  Either way the listener is told by a batch of its own.
-/

namespace PeerCalls

/-- The call with one of our rates changed.  The state follows the rates. -/
def Call.withRate (call : Call) (kind : MediaKind) (rate : UInt32) : Call :=
  let changed := { call with rates := call.rates.set rate kind }
  (changed.after? .ratesChanged).getD changed

namespace Session

variable {σ : Type}

/-- The call whose rate may be changed, or why there is none. -/
def rateChangeable (network : Network σ) (session : Session) (state : σ) (friend : Friend)
    (kind : MediaKind) (rate : UInt32) : Except RateError Call :=
  if session.closed then .error .closed
  else if !network.knows state friend then .error (.friendNotFound friend)
  else
    match (session.registry.live? friend).filter fun call => !call.state.isRinging with
    | none => .error (.friendNotInCall friend)
    | some call =>
      if session.config.supportsBitRate kind rate then .ok call
      else .error (.unsupportedRate rate)

/-- Whether the link carries the rate.  A forced rate and a stream that is
turned off are not put to the question. -/
def linkCarries (network : Network σ) (state : σ) (friend : Friend) (kind : MediaKind)
    (rate : UInt32) (force : Bool) : Bool × σ :=
  if force || rate = 0 then (true, state) else network.linkStable friend kind rate state

/-- Ends a change of rate with its report, which the listener gets as well. -/
def reporting (session : Session) (state : σ) (report : RateReport) :
    Outcome σ (Except RateError RateReport) :=
  ⟨.ok report, session.dispatch [.rateReport report] false, state⟩

/-- Changes one of our rates in the call with the friend. -/
def setRate (network : Network σ) (session : Session) (state : σ) (friend : Friend)
    (kind : MediaKind) (rate : UInt32) (force : Bool) :
    Outcome σ (Except RateError RateReport) :=
  match session.rateChangeable network state friend kind rate with
  | .error refusal => ⟨.error refusal, session, state⟩
  | .ok call =>
    match linkCarries network state friend kind rate force with
    | (false, asked) => session.reporting asked ⟨friend, kind, false, call.rates.get kind⟩
    | (true, asked) =>
      match network.sendSignal friend (.bitRate kind rate) asked with
      | (.error cause, after) => ⟨.error (.signaling cause), session, after⟩
      | (.ok (), after) =>
        (session.setCall (call.withRate kind rate)).reporting after ⟨friend, kind, true, rate⟩

end Session

end PeerCalls
