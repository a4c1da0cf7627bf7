import PeerCalls.Friend
import PeerCalls.Json.Compact
import PeerCalls.Json.Decoding
import PeerCalls.Signal

/-!
# The written form of signals

A signal is an object with one member, whose name is the type of the signal; a
command and a stream are their names, a friend is its number.  `toJson` writes
the one compact form; reading takes any spelling of it and, for signals with
fields, an array of the fields in order.
-/

namespace PeerCalls

open Json (Value Compact.object Compact.quoted Compact.natural)

namespace MediaKind

def ofJson? (value : Value) : Option MediaKind := value.choice? all name

def toJson (kind : MediaKind) : List Char := Compact.quoted kind.name

end MediaKind

namespace Control

def ofJson? (value : Value) : Option Control := value.choice? all name

def toJson (command : Control) : List Char := Compact.quoted command.name

end Control

namespace ConnectionStatus

def ofJson? (value : Value) : Option ConnectionStatus := value.choice? all name

def toJson (status : ConnectionStatus) : List Char := Compact.quoted status.name

end ConnectionStatus

namespace Friend

def ofJson? (value : Value) : Option Friend := value.uint32?.map Friend.mk

def toJson (friend : Friend) : List Char := Compact.natural friend.number.toNat

end Friend

namespace Rates

/-- The rates of an invitation or an answer; both must be there. -/
def ofJson? (value : Value) : Option Rates :=
  match value.fields? ["audio_bit_rate", "video_bit_rate"] with
  | none => none
  | some fields =>
    match Value.required? fields "audio_bit_rate" Value.uint32?,
        Value.required? fields "video_bit_rate" Value.uint32? with
    | some audio, some video => some ⟨audio, video⟩
    | _, _ => none

def toJson (rates : Rates) : List Char :=
  Compact.object
    [("audio_bit_rate", Compact.natural rates.audio.toNat),
      ("video_bit_rate", Compact.natural rates.video.toNat)]

end Rates

namespace Signal

/-- A change of a rate, by its fields. -/
def rateOfJson? (value : Value) : Option Signal :=
  match value.fields? ["kind", "bit_rate"] with
  | none => none
  | some fields =>
    match Value.required? fields "kind" MediaKind.ofJson?,
        Value.required? fields "bit_rate" Value.uint32? with
    | some kind, some rate => some (bitRate kind rate)
    | _, _ => none

/-- The signal whose type has this name, by its fields or its command. -/
def ofMember? (name : String) (value : Value) : Option Signal :=
  if name = "Invite" then (Rates.ofJson? value).map invite
  else if name = "Answer" then (Rates.ofJson? value).map answer
  else if name = "Control" then (Control.ofJson? value).map control
  else if name = "BitRate" then rateOfJson? value
  else none

def ofJson? : Value → Option Signal
  | .object [(some name, value)] => ofMember? name value
  | _ => none

def toJson : Signal → List Char
  | invite rates => Compact.object [("Invite", rates.toJson)]
  | answer rates => Compact.object [("Answer", rates.toJson)]
  | control command => Compact.object [("Control", command.toJson)]
  | bitRate kind rate =>
    Compact.object
      [("BitRate", Compact.object
        [("kind", kind.toJson), ("bit_rate", Compact.natural rate.toNat)])]

end Signal

end PeerCalls
