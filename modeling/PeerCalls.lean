import PeerCalls.Call.Json
import PeerCalls.Config.Json
import PeerCalls.Listener
import PeerCalls.Loopback
import PeerCalls.Network.Recorded
import PeerCalls.Network.Scripted
import PeerCalls.Pacing
import PeerCalls.Session.Command
import PeerCalls.Signal.Json
import PeerCalls.Proofs.Pacing
import PeerCalls.Proofs.Call.Transition
import PeerCalls.Proofs.Registry.Map
import PeerCalls.Proofs.Registry.Runs
import PeerCalls.Proofs.Config.Usable
import PeerCalls.Proofs.Session.Outcomes
import PeerCalls.Proofs.Session.Rounds
import PeerCalls.Proofs.Session.Station
import PeerCalls.Proofs.Call.Evolution
import PeerCalls.Proofs.Call.Coherence
import PeerCalls.Proofs.Loopback.Nodes
import PeerCalls.Proofs.Network.Codecs
import PeerCalls.Proofs.Session.Codecs
import PeerCalls.Proofs.Session.Leaks
import PeerCalls.Proofs.Network.Exchanges
import PeerCalls.Proofs.Session.Requests
import PeerCalls.Proofs.Session.Steps
import PeerCalls.Proofs.Session.Rollback
import PeerCalls.Proofs.Session.Story
import PeerCalls.Proofs.Duo.Line
import PeerCalls.Proofs.Duo.Wiring
import PeerCalls.Proofs.Duo.Speaking
import PeerCalls.Proofs.Duo.Hearing
import PeerCalls.Proofs.Duo.Run
import PeerCalls.Proofs.Duo.Agreement
import PeerCalls.Proofs.Duo.Rates
import PeerCalls.Proofs.Duo.Placing
import PeerCalls.Proofs.Session.Isolation
import PeerCalls.Proofs.Network.Feeding
import PeerCalls.Proofs.Session.Draining
import PeerCalls.Proofs.Session.Budget
import PeerCalls.Proofs.Session.LifeStep
import PeerCalls.Proofs.Session.LifeCycle
import PeerCalls.Proofs.Duo.Answered
import PeerCalls.Proofs.Duo.Pausing
import PeerCalls.Proofs.Session.Keeping
import PeerCalls.Proofs.Session.Tenancy
import PeerCalls.Proofs.Media.Plane
import PeerCalls.Proofs.Media.Owned
import PeerCalls.Proofs.Media.Rows
import PeerCalls.Proofs.Media.Copies
import PeerCalls.Proofs.Session.Gate
import PeerCalls.Proofs.Session.Transfer
import PeerCalls.Proofs.Session.Frames
import PeerCalls.Proofs.Session.Nesting
import PeerCalls.Proofs.Session.Reached
import PeerCalls.Proofs.Session.Pace
import PeerCalls.Proofs.Session.Reports
import PeerCalls.Proofs.Network.Separation
import PeerCalls.Proofs.Loopback.Channels
import PeerCalls.Proofs.Session.Closing
import PeerCalls.Proofs.Media.Durations
import PeerCalls.Proofs.Media.Packed
import PeerCalls.Proofs.Json.Grammar
import PeerCalls.Proofs.Json.Lexing
import PeerCalls.Proofs.Json.Reading
import PeerCalls.Proofs.Json.Records
import PeerCalls.Proofs.Json.Writing
import PeerCalls.Proofs.Signal.Wire
import PeerCalls.Proofs.Config.Partial
