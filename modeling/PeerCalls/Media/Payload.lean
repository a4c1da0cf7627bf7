import PeerCalls.Media.Audio
import PeerCalls.Media.Video

/-!
# What the media channel carries

A payload is a frame of either stream.
-/

namespace PeerCalls

/-- A frame of one of the two streams. -/
inductive Payload where
  | audio (frame : AudioFrame)
  | video (frame : VideoFrame)
  deriving DecidableEq

namespace Payload

def kind : Payload → MediaKind
  | audio _ => .audio
  | video _ => .video

/-- The first mandatory part that holds nothing. -/
def missingPart? : Payload → Option String
  | audio frame => if frame.pcm.isEmpty then some "pcm" else none
  | video frame => frame.missingPlane?

/-- Whether the frame may be sent, played or shown. -/
def validate (config : Config) : Payload → Except FrameError Unit
  | audio frame => frame.validate config
  | video frame => frame.validate

/-- The frame cut to the bytes or samples it needs, or its first fault. -/
def owned (config : Config) : Payload → Except FrameError Payload
  | audio frame => (frame.owned config).map audio
  | video frame => frame.owned.map video

end Payload

end PeerCalls
