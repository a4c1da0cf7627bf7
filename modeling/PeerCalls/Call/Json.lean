import PeerCalls.Event
import PeerCalls.Call.Transition
import PeerCalls.Signal.Json

/-!
# The written form of calls and reports

Applications that show calls elsewhere get them as compact JSON.
-/

namespace PeerCalls

open Json (Compact.natural Compact.object Compact.quoted Compact.truth Compact.optional)

def CallState.toJson (state : CallState) : List Char := Compact.quoted state.name

namespace Call

def toJson (call : Call) : List Char :=
  let rate (name : String) (value : UInt32) := (name, Compact.natural value.toNat)
  Compact.object
    [("friend_number", call.friend.toJson),
      ("direction", Compact.quoted call.direction.name),
      ("state", call.state.toJson),
      rate "audio_bit_rate" call.rates.audio,
      rate "video_bit_rate" call.rates.video,
      rate "peer_audio_bit_rate" call.peerRates.audio,
      rate "peer_video_bit_rate" call.peerRates.video,
      ("paused_from", Compact.optional CallState.toJson call.pausedFrom),
      ("audio_muted", Compact.truth call.withheld.audio),
      ("video_hidden", Compact.truth call.withheld.video)]

end Call

namespace RateReport

def toJson (report : RateReport) : List Char :=
  Compact.object
    [("friend_number", report.friend.toJson),
      ("kind", report.kind.toJson),
      ("stable", Compact.truth report.stable),
      ("bit_rate", Compact.natural report.rate.toNat)]

end RateReport

end PeerCalls
