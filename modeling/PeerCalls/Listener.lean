import PeerCalls.Event

/-!
# Listeners

A listener reacts to each kind of event; a reaction that is not given does
nothing.  Reactions change a state of the application's own choice.
-/

namespace PeerCalls

/-- The reactions of an application with state `σ`. -/
structure Listener (σ : Type) where
  onCall : Friend → Streams Bool → σ → σ := fun _ _ state => state
  onCallState : Friend → CallState → σ → σ := fun _ _ state => state
  onRateReport : RateReport → σ → σ := fun _ state => state
  onAudioFrame : Friend → AudioFrame → σ → σ := fun _ _ state => state
  onVideoFrame : Friend → VideoFrame → σ → σ := fun _ _ state => state
  onAudioRequest : Friend → σ → σ := fun _ state => state
  onVideoRequest : Friend → σ → σ := fun _ state => state

namespace Listener

variable {σ : Type}

/-- The listener that ignores everything. -/
def silent : Listener σ := {}

/-- The reaction to an event. -/
def react (listener : Listener σ) : Event → σ → σ
  | .call friend offered => listener.onCall friend offered
  | .callState friend state => listener.onCallState friend state
  | .rateReport report => listener.onRateReport report
  | .frame friend (.audio frame) => listener.onAudioFrame friend frame
  | .frame friend (.video frame) => listener.onVideoFrame friend frame
  | .frameRequest friend .audio => listener.onAudioRequest friend
  | .frameRequest friend .video => listener.onVideoRequest friend

@[simp] theorem react_silent (event : Event) (state : σ) : silent.react event state = state := by
  unfold react
  split <;> rfl

end Listener

end PeerCalls
