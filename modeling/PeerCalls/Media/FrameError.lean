/-!
# What can be wrong with a frame

The structural faults of audio and video frames, found before a frame is sent
and again before a received one is handed to the application.
-/

namespace PeerCalls

/-- A fault of a frame. -/
inductive FrameError where
  /-- A mandatory part holds nothing. -/
  | missing (part : String)
  | zeroDimension (width height : UInt32)
  /-- A plane is shorter than its layout needs. -/
  | planeTooShort (plane : String) (length required : Nat)
  /-- The size that a layout needs does not fit a machine word. -/
  | dimensionOverflow
  | unsupportedChannels (channels : UInt8)
  | unsupportedSamplingRate (rate : UInt32)
  /-- The samples do not last one of the allowed frame durations. -/
  | invalidSampleCount (count : Nat) (rate : UInt32)
  | pcmTooShort (length required : Nat)
  | outOfMemory
  deriving DecidableEq

namespace FrameError

def message : FrameError → String
  | missing part => part ++ " missing"
  | zeroDimension width height =>
    "zero frame dimension " ++ Nat.repr width.toNat ++ "x" ++ Nat.repr height.toNat
  | planeTooShort plane length required =>
    plane ++ " plane has " ++ Nat.repr length ++ " bytes, needs " ++ Nat.repr required
  | dimensionOverflow => "frame dimensions overflow"
  | unsupportedChannels channels => "unsupported channel count " ++ Nat.repr channels.toNat
  | unsupportedSamplingRate rate => "unsupported sampling rate " ++ Nat.repr rate.toNat ++ " Hz"
  | invalidSampleCount count rate =>
    Nat.repr count ++ " samples at " ++ Nat.repr rate.toNat ++ " Hz is not a valid frame duration"
  | pcmTooShort length required =>
    "pcm has " ++ Nat.repr length ++ " samples, needs " ++ Nat.repr required
  | outOfMemory => "allocation failed"

end FrameError

end PeerCalls
