import PeerCalls.Config
import PeerCalls.Json.Compact
import PeerCalls.Json.Decoding

/-!
# Reading a configuration

A configuration is a record; a field that is not given has its standard value.
What is read is also checked, so a configuration that comes from a text is
usable.  `toJson` writes every field.
-/

namespace PeerCalls

open Json (Value Compact.array Compact.natural Compact.object)

/-- Why the contents of a file cannot be had as a text. -/
inductive ReadFailure where
  | notFound
  | isDirectory
  | notUtf8
  deriving DecidableEq

namespace ReadFailure

def message : ReadFailure → String
  | notFound => "No such file or directory (os error 2)"
  | isDirectory => "Is a directory (os error 21)"
  | notUtf8 => "stream did not contain valid UTF-8"

end ReadFailure

/-- Why no configuration can be read. -/
inductive ConfigError where
  | unreadable (path : String) (failure : ReadFailure)
  /-- The text is no JSON, or not the JSON of a configuration. -/
  | malformed
  | defective (defect : ConfigDefect)
  deriving DecidableEq

namespace ConfigError

def message : ConfigError → String
  | unreadable path failure => path ++ ": " ++ failure.message
  | malformed => "not a configuration in JSON"
  | defective defect => defect.message

end ConfigError

namespace Config

/-- The names of the fields, in their order. -/
def fieldNames : List String :=
  [RateSet.audioBitRates.name, RateSet.videoBitRates.name, RateSet.samplingRates.name,
    "idle_interval_ms", "audio_interval_ms", "video_interval_ms", "max_inbound_per_iteration"]

/-- A list of rates, or what is used without it. -/
def rateField? (fields : Value.Fields) (set : RateSet) : Option (List UInt32) :=
  Value.optional? fields set.name (Value.list? Value.uint32?) (standard.rates set)

/-- The configuration of a record. -/
def ofFields? (fields : Value.Fields) : Option Config := do
  let audio ← rateField? fields .audioBitRates
  let video ← rateField? fields .videoBitRates
  let sampling ← rateField? fields .samplingRates
  let idle ← Value.optional? fields "idle_interval_ms" Value.uint64? standard.idleInterval
  let audioInterval ←
    Value.optional? fields "audio_interval_ms" Value.uint64? standard.frameIntervals.audio
  let videoInterval ←
    Value.optional? fields "video_interval_ms" Value.uint64? standard.frameIntervals.video
  let limit ←
    Value.optional? fields "max_inbound_per_iteration" Value.uint64? standard.inboundLimit
  return ⟨⟨audio, video⟩, sampling, idle, ⟨audioInterval, videoInterval⟩, limit⟩

/-- The configuration that a value spells, usable or not. -/
def ofJson? (value : Value) : Option Config := (value.fields? fieldNames).bind ofFields?

/-- The compact form of a configuration, with all fields in order. -/
def toJson (config : Config) : List Char :=
  let rates (set : RateSet) :=
    (set.name, Compact.array ((config.rates set).map fun rate => Compact.natural rate.toNat))
  let word (name : String) (value : UInt64) := (name, Compact.natural value.toNat)
  Compact.object
    [rates .audioBitRates, rates .videoBitRates, rates .samplingRates,
      word "idle_interval_ms" config.idleInterval,
      word "audio_interval_ms" config.frameIntervals.audio,
      word "video_interval_ms" config.frameIntervals.video,
      word "max_inbound_per_iteration" config.inboundLimit]

/-- The usable configuration that a text spells. -/
def ofText (text : String) : Except ConfigError Config :=
  match (Value.ofText? text).bind ofJson? with
  | none => .error .malformed
  | some config =>
    match config.defect? with
    | some defect => .error (.defective defect)
    | none => .ok config

/-- The usable configuration in a file, given what reading the file gave. -/
def ofFile (path : String) (contents : Except ReadFailure ByteArray) :
    Except ConfigError Config :=
  match contents with
  | .error failure => .error (.unreadable path failure)
  | .ok bytes =>
    match String.fromUTF8? bytes with
    | none => .error (.unreadable path .notUtf8)
    | some text => ofText text

end Config

end PeerCalls
