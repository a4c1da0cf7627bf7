import PeerCalls.Media.Streams
import PeerCalls.Text.Record

/-!
# Signals

What two sides of a call say to each other over the reliable channel.  How a
signal travels is left to the network; its written form is in
`PeerCalls.Signal.Json`.
-/

namespace PeerCalls

/-- A command for a call that exists. -/
inductive Control where
  | resume
  | pause
  /-- Refuses a ringing call and hangs up a running one. -/
  | cancel
  | muteAudio
  | unmuteAudio
  | hideVideo
  | showVideo
  deriving DecidableEq

namespace Control

/-- Every command, in the order of its codes. -/
def all : List Control :=
  [resume, pause, cancel, muteAudio, unmuteAudio, hideVideo, showVideo]

/-- The number of the command. -/
def code : Control → UInt8
  | resume => 0
  | pause => 1
  | cancel => 2
  | muteAudio => 3
  | unmuteAudio => 4
  | hideVideo => 5
  | showVideo => 6

/-- The command with a number. -/
def ofCode? (code : UInt8) : Option Control := all[code.toNat]?

/-- How messages call the command. -/
def label : Control → String
  | resume => "resume"
  | pause => "pause"
  | cancel => "cancel"
  | muteAudio => "mute_audio"
  | unmuteAudio => "unmute_audio"
  | hideVideo => "hide_video"
  | showVideo => "show_video"

/-- The written name of the command. -/
def name : Control → String
  | resume => "Resume"
  | pause => "Pause"
  | cancel => "Cancel"
  | muteAudio => "MuteAudio"
  | unmuteAudio => "UnmuteAudio"
  | hideVideo => "HideVideo"
  | showVideo => "ShowVideo"

theorem ofCode?_code (control : Control) : ofCode? control.code = some control := by
  cases control <;> rfl

end Control

/-- A message from one side of a call to the other. -/
inductive Signal where
  /-- Starts a call; the caller means to send at these rates. -/
  | invite (rates : Rates)
  /-- Accepts a call; the callee sends at these rates. -/
  | answer (rates : Rates)
  | control (command : Control)
  /-- The sender changed the rate of one of its streams. -/
  | bitRate (kind : MediaKind) (rate : UInt32)
  deriving DecidableEq

/-- The kinds of signals. -/
inductive SignalType where
  | invite
  | answer
  | control
  | bitRate
  deriving DecidableEq

namespace SignalType

def code : SignalType → UInt8
  | invite => 1
  | answer => 2
  | control => 3
  | bitRate => 4

def label : SignalType → String
  | invite => "invite"
  | answer => "answer"
  | control => "control"
  | bitRate => "bit_rate"

end SignalType

namespace Signal

def type : Signal → SignalType
  | invite _ => .invite
  | answer _ => .answer
  | control _ => .control
  | bitRate _ _ => .bitRate

/-- Ends a call. -/
def hangUp : Signal := control .cancel

/-- How log lines describe the signal. -/
def description : Signal → String
  | invite rates => Text.record "Invite" rates.fields
  | answer rates => Text.record "Answer" rates.fields
  | control command => Text.wrapped "Control" command.name
  | bitRate kind rate =>
    Text.record "BitRate" [("kind", kind.name), ("bit_rate", Nat.repr rate.toNat)]

end Signal

end PeerCalls
