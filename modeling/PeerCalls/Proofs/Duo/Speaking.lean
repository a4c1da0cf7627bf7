import PeerCalls.Proofs.Duo.Wiring

/-!
# What an operation says to the other side

Seen from the line between two linked sessions, an operation other than a round and
other than closing is silent or says one signal, and what it says is what its call
allows.  Operations on other friends are silent, and so is everything that is
refused: on a connected link no push to the other side fails.

Along the way the calls of a session stay `Kept`: with friends that can be reached,
coherent, and not failed.
-/

namespace PeerCalls

/-! ## Calls that have come to no harm -/

/-- The call is with a friend that the node reaches, it is coherent, and it has not failed. -/
structure Call.Kept (config : Config) (node : Node) (call : Call) : Prop where
  known : node.knows call.friend = true
  connected : (node.status call.friend).isConnected = true
  coherent : call.Coherent config
  unfailed : call.state ≠ .failed

/-- All calls of the registry are kept. -/
def Registry.Kept (config : Config) (node : Node) (registry : Registry) : Prop :=
  ∀ call ∈ registry.calls, call.Kept config node

namespace Registry

variable {config : Config} {node later : Node} {registry : Registry} {call : Call}

theorem Kept.set (h : registry.Kept config node) (hcall : call.Kept config node) :
    (registry.set call).Kept config node := by
  intro other hother
  rcases mem_place hother with rfl | hbefore
  · exact hcall
  · exact h other hbefore

theorem Kept.filter (h : registry.Kept config node) (keep : Call → Bool) :
    (registry.filter keep).Kept config node :=
  fun call hcall => h call (List.mem_filter.mp hcall).1

theorem Kept.of_live? (h : registry.Kept config node) {friend : Friend}
    (hlive : registry.live? friend = some call) : call.Kept config node :=
  h call (mem_of_get? (get?_of_live? hlive))

theorem Kept.of_links (h : registry.Kept config node) (hlinks : later.links = node.links) :
    registry.Kept config later := by
  intro call hcall
  obtain ⟨hknown, hconnected, hcoherent, hunfailed⟩ := h call hcall
  have hlink : later.link? call.friend = node.link? call.friend := by
    rw [Node.link?, Node.link?, hlinks]
  refine ⟨?_, ?_, hcoherent, hunfailed⟩
  · rwa [Node.knows, hlink]
  · rwa [Node.status, hlink]

end Registry

namespace Call

variable {config : Config} {node : Node} {call after : Call}

theorem Kept.changed (h : call.Kept config node) (hfriend : after.friend = call.friend)
    (hcoherent : after.Coherent config) (hunfailed : after.state ≠ .failed) :
    after.Kept config node :=
  ⟨hfriend ▸ h.known, hfriend ▸ h.connected, hcoherent, hunfailed⟩

theorem state_ne_failed_of_isLive (h : call.isLive = true) : call.state ≠ .failed := by
  intro hfailed
  rw [isLive_iff, hfailed] at h
  cases h

theorem isLive_of_isEstablished (h : call.state.isEstablished = true) : call.isLive = true := by
  rw [isLive_iff]
  cases hstate : call.state <;> simp_all [CallState.isEstablished, CallState.isTerminal]

/-- A command makes no call fail, and only a hang-up ends one. -/
theorem Kept.obeyed (h : call.Kept config node) (hlive : call.isLive = true) {command : Control}
    (hring : call.state.isRinging = true → command = .cancel)
    (hrefusal : call.refusal? command = none) (hobey : call.obey? command = some after) :
    after.Kept config node ∧ (after.isLive = true ↔ command ≠ .cancel) := by
  rcases obey?_of_not_refused hlive hring hrefusal with
    ⟨kind, withheld, hwithholding, hobeyed⟩ | ⟨transition, obeyed, htransition, hfits, hobeyed⟩
  · obtain rfl : after = call.withholding kind withheld :=
      Option.some.inj (hobey.symm.trans hobeyed)
    have hrunning : call.state.isRinging = false := by
      refine Bool.eq_false_iff.mpr fun hringing => ?_
      cases hring hringing
      cases hwithholding
    refine ⟨h.changed rfl (h.coherent.withholding hrunning kind withheld) h.unfailed, ?_⟩
    refine iff_of_true hlive ?_
    rintro rfl
    cases hwithholding
  · obtain rfl : after = obeyed := Option.some.inj (hobey.symm.trans hobeyed)
    have hforeign : ∀ rates, transition ≠ .localAnswered rates := by
      rintro rates rfl
      cases command <;> cases htransition
    have hcoherent : after.Coherent config := h.coherent.after? hforeign hfits
    have hfriend : after.friend = call.friend := friend_of_after? hfits
    cases command with
    | cancel =>
        cases htransition
        obtain rfl : after = call.finish .ended :=
          Option.some.inj (hfits.symm.trans (after?_cancel hlive))
        refine ⟨h.changed hfriend hcoherent (by simp [finish]), ?_⟩
        simp [isLive, finish, CallState.isTerminal]
    | pause =>
        cases htransition
        obtain ⟨-, rfl⟩ := of_pause hfits
        exact ⟨h.changed hfriend hcoherent (by simp), iff_of_true rfl (by simp)⟩
    | resume =>
        cases htransition
        have hlive' : after.isLive = true :=
          isLive_of_isEstablished (isEstablished_of_resume h.coherent hfits)
        exact ⟨h.changed hfriend hcoherent (state_ne_failed_of_isLive hlive'),
          iff_of_true hlive' (by simp)⟩
    | muteAudio => cases htransition
    | unmuteAudio => cases htransition
    | hideVideo => cases htransition
    | showVideo => cases htransition

theorem isLive_withRate (hlive : call.isLive = true) (hring : call.state.isRinging = false)
    (kind : MediaKind) (rate : UInt32) : (call.withRate kind rate).isLive = true := by
  rcases isEstablished_or_isPaused hlive hring with hstate | hstate
  · rw [withRate_of_isEstablished hstate]
    rfl
  · rw [withRate_of_isPaused hstate]
    exact hlive

end Call

/-! ## Silence and speech -/

namespace Wiring

variable (wiring : Wiring) (side : Side) (session : Session) (hub : Hub) {α : Type}
  (outcome : Outcome Hub α)

/-- The operation leaves the call with the other side as it is, and sends frames at most. -/
structure Silent : Prop where
  kept : outcome.session.registry.Kept session.config (hub.get (wiring.place side))
  same : outcome.session.registry.live? (wiring.number side) =
    session.registry.live? (wiring.number side)
  carries : ∃ items, wiring.Carries side items hub outcome.network ∧
    ∀ item ∈ items, ∃ payload, item = .media (wiring.number side.other) payload

/-- The operation says the signal to the other side. -/
structure Said (signal : Signal) : Prop where
  kept : outcome.session.registry.Kept session.config (hub.get (wiring.place side))
  speech : Says (wiring.number side) (session.registry.live? (wiring.number side)) signal
    (outcome.session.registry.live? (wiring.number side))
  carries : wiring.Carries side [.signal (wiring.number side.other) signal] hub outcome.network

/-- The operation is silent or says one signal. -/
def Speaks : Prop :=
  wiring.Silent side session hub outcome ∨ ∃ signal, wiring.Said side session hub outcome signal

variable {wiring side session hub}

theorem Silent.of_carries {outcome : Outcome Hub α}
    (hkept : outcome.session.registry.Kept session.config (hub.get (wiring.place side)))
    (hsame : outcome.session.registry.live? (wiring.number side) =
      session.registry.live? (wiring.number side))
    (hcarries : wiring.Carries side [] hub outcome.network) :
    wiring.Silent side session hub outcome :=
  ⟨hkept, hsame, [], hcarries, by simp⟩

theorem Speaks.map {β : Type} {outcome : Outcome Hub α}
    (h : wiring.Speaks side session hub outcome) (f : α → β) :
    wiring.Speaks side session hub (outcome.map f) := by
  rcases h with hsilent | ⟨signal, hsaid⟩
  · exact Or.inl ⟨hsilent.kept, hsilent.same, hsilent.carries⟩
  · exact Or.inr ⟨signal, hsaid.kept, hsaid.speech, hsaid.carries⟩

end Wiring

/-! ## The operations one by one -/

namespace Session

variable {wiring : Wiring} {side : Side} {session : Session} {hub : Hub}

theorem speaks_call (hjoins : wiring.Joins hub)
    (hkept : session.registry.Kept session.config (hub.get (wiring.place side)))
    (friend : Friend) (rates : Rates) :
    wiring.Speaks side session hub
      (session.call (wiring.network side) hub friend rates) := by
  rcases call_cases (wiring.network side) session hub friend rates with
    ⟨refusal, -, houtcome⟩ | ⟨hnone, cause, after, hpush, houtcome⟩ |
      ⟨hnone, after, hpush, houtcome⟩
  · rw [houtcome]
    exact Or.inl (.of_carries hkept rfl .refl)
  · -- the call with somebody else is entered and taken out again
    obtain ⟨hfriend, hcarries⟩ := Wiring.carries_of_refused hjoins hpush
    rw [houtcome]
    refine Or.inl (.of_carries (fun call hcall => ?_) ?_ hcarries)
    · obtain ⟨hmem, hne⟩ := List.mem_filter.mp hcall
      rcases Registry.mem_place hmem with rfl | hbefore
      · simp [Call.outgoing] at hne
      · exact hkept call hbefore
    · have hother : (Call.outgoing friend rates).friend ≠ wiring.number side := hfriend
      rw [Registry.live?_remove, if_neg hfriend.symm, Registry.live?_set_of_ne _ hother]
  · obtain ⟨-, hknows, hlive, hconnected, hrates⟩ := callRefusal?_eq_none_iff.mp hnone
    have hplaced : (Call.outgoing friend rates).Kept session.config (hub.get (wiring.place side)) :=
      ⟨hknows, hconnected, .outgoing friend hrates, by simp [Call.outgoing]⟩
    rw [houtcome]
    rcases Wiring.sendSignal_cases hjoins hpush with ⟨hfriend, -, hcarries⟩ | ⟨hfriend, hcarries⟩
    · refine Or.inr ⟨.invite rates, hkept.set hplaced, ?_, hcarries⟩
      have hentered : (session.registry.set (.outgoing friend rates)).live? friend =
          some (.outgoing friend rates) :=
        Registry.live?_set_self _ rfl rfl
      rw [← hfriend, hlive, registry_setCall, hentered]
      exact .invite rates
    · exact Or.inl (.of_carries (hkept.set hplaced) (Registry.live?_set_of_ne _ hfriend) hcarries)

theorem speaks_answer (hjoins : wiring.Joins hub)
    (hkept : session.registry.Kept session.config (hub.get (wiring.place side)))
    (friend : Friend) (rates : Rates) :
    wiring.Speaks side session hub
      (session.answer (wiring.network side) hub friend rates) := by
  have hcodecs : ∀ hub change, (∀ node : Node, (change node).links = node.links) →
      (∀ node : Node, (change node).inbox = node.inbox) →
      wiring.Carries side [] hub (hub.update (wiring.place side) change) :=
    fun _ _ hlinks hinbox => .of_update hlinks hinbox
  rcases answer_cases (wiring.network side) session hub friend rates with
    ⟨_, houtcome⟩ | ⟨call, hcall, ⟨cause, after, hopen, houtcome⟩ | ⟨opened, hopen,
      ⟨cause, after, hpush, houtcome⟩ | ⟨after, hpush, houtcome⟩⟩⟩
  · rw [houtcome]
    exact Or.inl (.of_carries hkept rfl .refl)
  · -- a node never refuses to prepare codecs
    cases hopen
  all_goals
    have hopened : wiring.Carries side [] hub opened := by
      cases hopen
      exact hcodecs _ _ (fun _ => rfl) fun _ => rfl
    have hjoined : wiring.Joins opened := hjoins.of_links hopened.links
    rw [houtcome]
  · obtain ⟨-, hcarries⟩ := Wiring.carries_of_refused hjoined hpush
    have hreleased := hcodecs after (fun node => node.closeCodecs friend) (fun _ => rfl)
      fun _ => rfl
    exact Or.inl (.of_carries hkept rfl ((hopened.trans hcarries).trans hreleased))
  · obtain ⟨-, -, hlive, hanswerable, hrates⟩ := answerable_eq_ok hcall
    have hbefore := hkept.of_live? hlive
    have hanswered : (call.answered rates).Kept session.config (hub.get (wiring.place side)) :=
      hbefore.changed rfl (hbefore.coherent.answered hanswerable hrates)
        (by simp [Call.answered, CallState.running])
    have hsame : (call.answered rates).friend = friend :=
      (Call.friend_answered call rates).trans (Registry.friend_of_live? hlive)
    rcases Wiring.sendSignal_cases hjoined hpush with ⟨hfriend, -, hcarries⟩ | ⟨hfriend, hcarries⟩
    · refine Or.inr ⟨.answer rates, hkept.set hanswered, ?_, hopened.trans hcarries⟩
      have hentered : (session.registry.set (call.answered rates)).live? friend =
          some (call.answered rates) :=
        Registry.live?_set_self _ hsame rfl
      rw [← hfriend, hlive, registry_setCall, hentered]
      exact .answer hanswerable rates
    · refine Or.inl (.of_carries (hkept.set hanswered) ?_ (hopened.trans hcarries))
      exact Registry.live?_set_of_ne _ (hsame ▸ hfriend)

theorem speaks_control (hjoins : wiring.Joins hub)
    (hkept : session.registry.Kept session.config (hub.get (wiring.place side)))
    (friend : Friend) (command : Control) :
    wiring.Speaks side session hub
      (session.control (wiring.network side) hub friend command) := by
  rcases control_cases (wiring.network side) session hub friend command with
    ⟨_, houtcome⟩ | ⟨call, hcall, ⟨cause, after, -, hpush, houtcome⟩ |
      ⟨result, after, obeyed, hpush, -, hobey, houtcome⟩⟩
  · rw [houtcome]
    exact Or.inl (.of_carries hkept rfl .refl)
  · obtain ⟨-, hcarries⟩ := Wiring.carries_of_refused hjoins hpush
    rw [houtcome]
    exact Or.inl (.of_carries hkept rfl hcarries)
  · obtain ⟨-, -, hlive, hring, hrefusal⟩ := controllable_eq_ok hcall
    have hcalllive : call.isLive = true := Registry.isLive_of_live? hlive
    obtain ⟨hobeyed, hobeyedlive⟩ :=
      (hkept.of_live? hlive).obeyed hcalllive hring hrefusal hobey
    have hsame : obeyed.friend = friend :=
      (Call.friend_of_obey? hobey).trans (Registry.friend_of_live? hlive)
    rw [houtcome]
    rcases Wiring.sendSignal_cases hjoins hpush with ⟨hfriend, -, hcarries⟩ | ⟨hfriend, hcarries⟩
    · refine Or.inr ⟨.control command, hkept.set hobeyed, ?_, hcarries⟩
      rw [← hfriend, hlive, registry_setCall, Registry.live?_set, if_pos hsame]
      -- a hang-up leaves a call that is over, and every other command a live one
      by_cases hcancel : command = .cancel
      · have hover : obeyed.isLive = false := by
          refine Bool.eq_false_iff.mpr fun hobeyedlive' => ?_
          exact hobeyedlive.mp hobeyedlive' hcancel
        subst hcancel
        rw [Option.filter_some_neg (by simp [hover])]
        exact .hangUp call
      · rw [Option.filter_some_pos (hobeyedlive.mpr hcancel)]
        have hrunning : call.state.isRinging = false :=
          Bool.eq_false_iff.mpr fun hringing => hcancel (hring hringing)
        exact .command hrunning hcancel hrefusal hobey
    · refine Or.inl (.of_carries (hkept.set hobeyed) ?_ hcarries)
      exact Registry.live?_set_of_ne _ (hsame ▸ hfriend)

/-- A node answers whether a link carries a rate without a change of the hub. -/
theorem hub_of_linkCarries {friend : Friend} {kind : MediaKind} {rate : UInt32}
    {force carries : Bool} {asked : Hub}
    (h : linkCarries (wiring.network side) hub friend kind rate force = (carries, asked)) :
    asked = hub := by
  unfold linkCarries at h
  split at h <;> cases h <;> rfl

theorem speaks_setRate (hjoins : wiring.Joins hub)
    (hkept : session.registry.Kept session.config (hub.get (wiring.place side)))
    (friend : Friend) (kind : MediaKind) (rate : UInt32) (force : Bool) :
    wiring.Speaks side session hub
      (session.setRate (wiring.network side) hub friend kind rate force) := by
  rcases setRate_cases (wiring.network side) session hub friend kind rate force with
    ⟨_, houtcome⟩ | ⟨call, hcall, ⟨asked, hlink, houtcome⟩ | ⟨asked, hlink,
      ⟨cause, after, hpush, houtcome⟩ | ⟨after, hpush, houtcome⟩⟩⟩
  · rw [houtcome]
    exact Or.inl (.of_carries hkept rfl .refl)
  all_goals
    obtain rfl := hub_of_linkCarries hlink
    rw [houtcome]
  · refine Or.inl (.of_carries ?_ ?_ .refl)
    · simpa [reporting] using hkept
    · simp [reporting]
  · obtain ⟨-, hcarries⟩ := Wiring.carries_of_refused hjoins hpush
    exact Or.inl (.of_carries hkept rfl hcarries)
  · obtain ⟨-, -, hlive, hring, hrate⟩ := rateChangeable_eq_ok hcall
    have hcalllive : call.isLive = true := Registry.isLive_of_live? hlive
    have hbefore := hkept.of_live? hlive
    have hratedlive : (call.withRate kind rate).isLive = true :=
      Call.isLive_withRate hcalllive hring kind rate
    have hrated : (call.withRate kind rate).Kept session.config (asked.get (wiring.place side)) :=
      hbefore.changed (Call.friend_withRate call kind rate)
        (hbefore.coherent.withRate hcalllive hring hrate)
        (Call.state_ne_failed_of_isLive hratedlive)
    have hsame : (call.withRate kind rate).friend = friend :=
      (Call.friend_withRate call kind rate).trans (Registry.friend_of_live? hlive)
    have hkept' := hkept.set hrated
    rcases Wiring.sendSignal_cases hjoins hpush with ⟨hfriend, -, hcarries⟩ | ⟨hfriend, hcarries⟩
    · refine Or.inr ⟨.bitRate kind rate, by simpa [reporting] using hkept', ?_, hcarries⟩
      have hentered := Registry.live?_set_self session.registry hsame hratedlive
      simp only [reporting, registry_dispatch, registry_setCall]
      rw [← hfriend, hlive, hentered]
      exact .rate hring kind rate
    · refine Or.inl (.of_carries (by simpa [reporting] using hkept') ?_ hcarries)
      simp only [reporting, registry_dispatch, registry_setCall]
      exact Registry.live?_set_of_ne _ (hsame ▸ hfriend)

/-- Sending a frame sends frames, at most. -/
theorem carries_sendFrame (hjoins : wiring.Joins hub) (session : Session) (friend : Friend)
    (payload : Payload) :
    ∃ items, wiring.Carries side items hub
        (session.sendFrame (wiring.network side) hub friend payload).network ∧
      ∀ item ∈ items, ∃ payload, item = .media (wiring.number side.other) payload := by
  unfold sendFrame
  split
  · exact ⟨[], .refl, by simp⟩
  · rename_i owned _
    have hcarries := Wiring.sendMedia_cases hjoins side friend owned
    split <;> rename_i heq <;> rwa [heq] at hcarries

theorem speaks_sendFrame (hjoins : wiring.Joins hub)
    (hkept : session.registry.Kept session.config (hub.get (wiring.place side)))
    (friend : Friend) (payload : Payload) :
    wiring.Speaks side session hub
      (session.sendFrame (wiring.network side) hub friend payload) := by
  have hsession := session_sendFrame (wiring.network side) session hub friend payload
  refine Or.inl ⟨by rwa [hsession], by rw [hsession], ?_⟩
  exact carries_sendFrame hjoins session friend payload

/-- Every operation other than a round and closing is silent or says one signal. -/
theorem speaks_perform (hjoins : wiring.Joins hub)
    (hkept : session.registry.Kept session.config (hub.get (wiring.place side)))
    {command : Command} (hround : command ≠ .iterate) (hclose : command ≠ .close) :
    wiring.Speaks side session hub
      (session.perform (wiring.network side) hub command) := by
  cases command with
  | call friend rates => exact (speaks_call hjoins hkept friend rates).map _
  | answer friend rates => exact (speaks_answer hjoins hkept friend rates).map _
  | control friend command => exact (speaks_control hjoins hkept friend command).map _
  | setRate friend kind rate force =>
      exact (speaks_setRate hjoins hkept friend kind rate force).map _
  | sendFrame friend payload => exact (speaks_sendFrame hjoins hkept friend payload).map _
  | iterate => exact absurd rfl hround
  | close => exact absurd rfl hclose
  | listen listener => exact Or.inl (.of_carries hkept rfl .refl)

end Session

end PeerCalls
