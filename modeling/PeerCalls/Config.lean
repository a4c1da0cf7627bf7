import PeerCalls.Media.Streams
import PeerCalls.Text.Record

/-!
# Configuration of a session

Which rates a call may use, how long to wait between rounds, and how many
inbound items one round takes.  A configuration is usable when `defect?` finds
nothing; sessions are opened with usable ones only.
-/

namespace PeerCalls

/-- The settings of a session.  Intervals are in milliseconds. -/
structure Config where
  /-- The rates in kb/s that a stream may use besides 0. -/
  bitRates : Streams (List UInt32)
  /-- The sampling rates of audio frames. -/
  samplingRates : List UInt32
  /-- The wait while no stream flows. -/
  idleInterval : UInt64
  /-- The wait while some call sends the stream. -/
  frameIntervals : Streams UInt64
  /-- The most inbound items that one round takes. -/
  inboundLimit : UInt64
  deriving DecidableEq

/-- The lists of rates that a configuration holds. -/
inductive RateSet where
  | audioBitRates
  | videoBitRates
  | samplingRates
  deriving DecidableEq

namespace RateSet

def name : RateSet → String
  | audioBitRates => "audio_bit_rates"
  | videoBitRates => "video_bit_rates"
  | samplingRates => "sampling_rates"

end RateSet

/-- Why a configuration is not usable. -/
inductive ConfigDefect where
  | emptySet (set : RateSet)
  | zeroInSet (set : RateSet)
  | zeroInterval
  | zeroInboundLimit
  deriving DecidableEq

namespace ConfigDefect

def message : ConfigDefect → String
  | emptySet set => set.name ++ " is empty"
  | zeroInSet set => set.name ++ " contains 0"
  | zeroInterval => "intervals must be non-zero"
  | zeroInboundLimit => "max_inbound_per_iteration must be non-zero"

end ConfigDefect

namespace Config

/-- What is used where nothing is set. -/
def standard : Config where
  bitRates := ⟨[8, 16, 24, 32, 48, 64, 96, 128], [100, 250, 500, 1000, 2500, 5000]⟩
  samplingRates := [8000, 12000, 16000, 24000, 48000]
  idleInterval := 200
  frameIntervals := ⟨20, 40⟩
  inboundLimit := 64

def rates (config : Config) : RateSet → List UInt32
  | .audioBitRates => config.bitRates.audio
  | .videoBitRates => config.bitRates.video
  | .samplingRates => config.samplingRates

/-- What is wrong with one list of rates. -/
def rateDefect? (config : Config) (set : RateSet) : Option ConfigDefect :=
  if config.rates set = [] then some (.emptySet set)
  else if 0 ∈ config.rates set then some (.zeroInSet set)
  else none

/-- The first thing wrong with the configuration. -/
def defect? (config : Config) : Option ConfigDefect :=
  match config.rateDefect? .audioBitRates, config.rateDefect? .videoBitRates,
      config.rateDefect? .samplingRates with
  | some defect, _, _ => some defect
  | none, some defect, _ => some defect
  | none, none, some defect => some defect
  | none, none, none =>
    if config.idleInterval = 0 ∨ config.frameIntervals.audio = 0 ∨
        config.frameIntervals.video = 0 then
      some .zeroInterval
    else if config.inboundLimit = 0 then
      some .zeroInboundLimit
    else
      none

/-- A configuration that sessions may use. -/
abbrev Usable (config : Config) : Prop := config.defect? = none

theorem standard_usable : standard.Usable := by decide

/-- A stream may be off or use one of its rates. -/
def supportsBitRate (config : Config) (kind : MediaKind) (rate : UInt32) : Bool :=
  rate = 0 || (config.bitRates.get kind).contains rate

/-- The first of two rates that the configuration does not allow, audio first. -/
def unsupportedRate? (config : Config) (rates : Rates) : Option UInt32 :=
  if !config.supportsBitRate .audio rates.audio then some rates.audio
  else if !config.supportsBitRate .video rates.video then some rates.video
  else none

def supportsSamplingRate (config : Config) (rate : UInt32) : Bool :=
  config.samplingRates.contains rate

/-- How a log line describes the configuration. -/
def description (config : Config) : String :=
  let rates (set : RateSet) := Text.naturals ((config.rates set).map UInt32.toNat)
  Text.record "AvConfig"
    [(RateSet.audioBitRates.name, rates .audioBitRates),
      (RateSet.videoBitRates.name, rates .videoBitRates),
      (RateSet.samplingRates.name, rates .samplingRates),
      ("idle_interval_ms", Nat.repr config.idleInterval.toNat),
      ("audio_interval_ms", Nat.repr config.frameIntervals.audio.toNat),
      ("video_interval_ms", Nat.repr config.frameIntervals.video.toNat),
      ("max_inbound_per_iteration", Nat.repr config.inboundLimit.toNat)]

end Config

end PeerCalls
