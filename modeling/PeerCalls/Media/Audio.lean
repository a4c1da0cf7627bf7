import PeerCalls.Config
import PeerCalls.Media.Plane

/-!
# Audio frames

Interleaved 16-bit samples.  A frame lasts one of six durations, checked in
whole tenths of a millisecond; counts are 64-bit machine words and products
that could leave them are checked.
-/

namespace PeerCalls

/-- Interleaved 16-bit samples; `sampleCount` counts them per channel. -/
structure AudioFrame where
  pcm : Array Int16
  sampleCount : UInt64
  channels : UInt8
  samplingRate : UInt32
  deriving DecidableEq

namespace AudioFrame

/-- The frame durations that are allowed, in tenths of a millisecond. -/
def durations : List UInt64 := [25, 50, 100, 200, 400, 600]

/-- How long the frame plays, in whole microseconds; at most what a 64-bit word
holds, and 0 at a sampling rate of 0. -/
def microseconds (frame : AudioFrame) : Nat :=
  if frame.samplingRate = 0 then 0
  else min (frame.sampleCount.toNat * 1000000 / frame.samplingRate.toNat) (UInt64.size - 1)

/-- The samples of all channels that the frame covers. -/
def requiredLength? (frame : AudioFrame) : Option UInt64 :=
  checkedProduct frame.sampleCount frame.channels.toUInt64

/-- Whether the samples last one of the allowed durations. -/
def hasAllowedDuration (frame : AudioFrame) : Bool :=
  match checkedProduct frame.sampleCount 10000 with
  | none => false
  | some scaled =>
    scaled % frame.samplingRate.toUInt64 = 0 &&
      durations.contains (scaled / frame.samplingRate.toUInt64)

/-- The number of samples the frame needs, or the first fault of the frame. -/
def check (frame : AudioFrame) (config : Config) : Except FrameError Nat :=
  if frame.pcm.isEmpty then
    .error (.missing "pcm")
  else if frame.channels ≠ 1 ∧ frame.channels ≠ 2 then
    .error (.unsupportedChannels frame.channels)
  else if !config.supportsSamplingRate frame.samplingRate then
    .error (.unsupportedSamplingRate frame.samplingRate)
  else if !frame.hasAllowedDuration then
    .error (.invalidSampleCount frame.sampleCount.toNat frame.samplingRate)
  else
    match frame.requiredLength? with
    | none => .error (.invalidSampleCount frame.sampleCount.toNat frame.samplingRate)
    | some required =>
      if frame.pcm.size < required.toNat then
        .error (.pcmTooShort frame.pcm.size required.toNat)
      else
        .ok required.toNat

/-- Whether the frame may be sent or played. -/
def validate (frame : AudioFrame) (config : Config) : Except FrameError Unit :=
  (frame.check config).map fun _ => ()

/-- The frame with its samples cut to those it covers, or its first fault. -/
def owned (frame : AudioFrame) (config : Config) : Except FrameError AudioFrame :=
  (frame.check config).map fun required => { frame with pcm := frame.pcm.take required }

end AudioFrame

end PeerCalls
