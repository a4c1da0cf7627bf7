import PeerCalls.Session.Delivery
import PeerCalls.Session.Inbound

/-!
# One round of work

A round takes inbound items up to the limit, ends the calls whose friend is
gone or offline, reaps what is over, asks for the frames that may be sent and
tells how long to wait until the next round.  What it reports is one batch.
-/

namespace PeerCalls

/-- How long to wait while these calls are as they are: the shortest interval of
a stream that flows in some call. -/
def Config.pace (config : Config) (registry : Registry) : UInt64 :=
  let flows (kind : MediaKind) := registry.calls.any fun call => call.state.sends kind
  match flows .audio, flows .video with
  | true, true => min config.frameIntervals.audio config.frameIntervals.video
  | true, false => config.frameIntervals.audio
  | false, true => config.frameIntervals.video
  | false, false => config.idleInterval

namespace Progress

variable {σ : Type}

/-- Takes and handles inbound items, at most `limit`. -/
def takeInbound (network : Network σ) (config : Config) :
    Nat → Progress → σ → Progress × σ
  | 0, progress, state => (progress, state)
  | limit + 1, progress, state =>
    match network.poll state with
    | (none, after) => (progress, after)
    | (some item, after) => takeInbound network config limit (progress.handle config item) after

/-- Ends the friend's call if the friend is gone, and faults it if the friend is offline. -/
def checkFriend (network : Network σ) (state : σ) (progress : Progress) (friend : Friend) :
    Progress :=
  match progress.registry.live? friend with
  | none => progress
  | some call =>
    if !network.knows state friend then
      match call.after? .cancel with
      | some ended => progress.change ended
      | none => progress
    else if !(network.status state friend).isConnected then progress.change call.faulted
    else progress

/-- Checks the friends of all calls, in order. -/
def checkConnectivity (network : Network σ) (state : σ) (progress : Progress) : Progress :=
  progress.registry.friends.foldl (checkFriend network state) progress

end Progress

namespace Call

/-- The requests for the frames that the call may send, audio first. -/
def frameRequests (call : Call) : List Event :=
  (MediaKind.all.filter call.canSend).map (.frameRequest call.friend)

end Call

namespace Session

variable {σ : Type}

/-- How long to wait until the next round, as things are. -/
def interval (session : Session) : UInt64 :=
  if session.closed then session.config.idleInterval
  else session.config.pace session.registry

/-- The work of a round on an open session: the wait it asks for, the session
with its batch on the way, and the network. -/
def round (network : Network σ) (session : Session) (state : σ) : Outcome σ UInt64 :=
  let (handled, polled) :=
    Progress.takeInbound network session.config session.config.inboundLimit.toNat
      ⟨session.registry, []⟩ state
  let checked := handled.checkConnectivity network polled
  let (finished, kept) := checked.registry.reap
  let released := finished.foldl (fun state friend => network.closeMedia friend state) polled
  let requests := kept.calls.flatMap Call.frameRequests
  { answer := session.config.pace kept
    session := { session with registry := kept }.dispatch (checked.events ++ requests) true
    network := released }

/-- Does one round of work and tells how long to wait until the next.  A closed
session has no work, and a round begun while another one is being delivered
only tells the wait. -/
def iterate (network : Network σ) (session : Session) (state : σ) : Outcome σ UInt64 :=
  if session.closed || session.isIterating then ⟨session.interval, session, state⟩
  else session.round network state

end Session

end PeerCalls
