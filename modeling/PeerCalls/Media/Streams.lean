/-!
# The two streams of a call

A call carries an audio and a video stream.  `Streams α` holds one value for
each of them: a sending rate, whether the stream flows, whether it is withheld.
Functions over `MediaKind` treat the two streams alike.
-/

namespace PeerCalls

/-- Which of the two streams is meant. -/
inductive MediaKind where
  | audio
  | video
  deriving DecidableEq

namespace MediaKind

def all : List MediaKind := [audio, video]

/-- How messages call the stream. -/
def label : MediaKind → String
  | audio => "audio"
  | video => "video"

/-- The written name of the stream. -/
def name : MediaKind → String
  | audio => "Audio"
  | video => "Video"

end MediaKind

/-- One value for each stream of a call. -/
structure Streams (α : Type) where
  audio : α
  video : α
  deriving DecidableEq

namespace Streams

variable {α β : Type}

def get (streams : Streams α) : MediaKind → α
  | .audio => streams.audio
  | .video => streams.video

def set (streams : Streams α) (value : α) : MediaKind → Streams α
  | .audio => { streams with audio := value }
  | .video => { streams with video := value }

def map (f : α → β) (streams : Streams α) : Streams β :=
  ⟨f streams.audio, f streams.video⟩

/-- The same value for both streams. -/
def both (value : α) : Streams α := ⟨value, value⟩

@[simp] theorem get_set_self (streams : Streams α) (value : α) (kind : MediaKind) :
    (streams.set value kind).get kind = value := by
  cases kind <;> rfl

theorem get_set_of_ne (streams : Streams α) (value : α) {kind other : MediaKind}
    (h : other ≠ kind) : (streams.set value kind).get other = streams.get other := by
  cases kind <;> cases other <;> simp_all [get, set]

@[simp] theorem get_map (f : α → β) (streams : Streams α) (kind : MediaKind) :
    (streams.map f).get kind = f (streams.get kind) := by
  cases kind <;> rfl

@[simp] theorem get_both (value : α) (kind : MediaKind) : (both value).get kind = value := by
  cases kind <;> rfl

end Streams

/-- A sending rate in kb/s for each stream; a rate of 0 turns the stream off. -/
abbrev Rates := Streams UInt32

namespace Rates

/-- No stream is sent. -/
def zero : Rates := Streams.both 0

/-- Which streams have a rate above 0. -/
def flow (rates : Rates) : Streams Bool := rates.map (0 < ·)

/-- The two rates as named fields of a description. -/
def fields (rates : Rates) : List (String × String) :=
  [("audio_bit_rate", Nat.repr rates.audio.toNat), ("video_bit_rate", Nat.repr rates.video.toNat)]

end Rates

end PeerCalls
