import PeerCalls.Proofs.Duo.Speaking

/-!
# What a round hears

A round of one of two linked sessions takes items from its inbox, and each of them
comes from the other side.  A frame leaves the line between the two as it is, and a
signal is heard.  As long as no answer comes unexpected, no call fails on the way, so
the rest of the round finds every friend in reach and leaves the line alone.

`Wiring.Good` gathers what is known of both sides between two steps; the property of
the line that is carried along is a parameter.
-/

namespace PeerCalls

/-- The event tells of no fault. -/
def Event.Faultless (event : Event) : Prop := ∀ friend, event ≠ .callState friend .failed

namespace Event

theorem faultless_call (friend : Friend) (offered : Streams Bool) :
    (Event.call friend offered).Faultless := by
  intro other hfault
  cases hfault

theorem faultless_rateReport (report : RateReport) : (Event.rateReport report).Faultless := by
  intro other hfault
  cases hfault

theorem faultless_frame (friend : Friend) (payload : Payload) :
    (Event.frame friend payload).Faultless := by
  intro other hfault
  cases hfault

theorem faultless_frameRequest (friend : Friend) (kind : MediaKind) :
    (Event.frameRequest friend kind).Faultless := by
  intro other hfault
  cases hfault

end Event

namespace Progress

/-- No call has come to harm, and no fault is reported. -/
structure Sound (config : Config) (node : Node) (progress : Progress) : Prop where
  kept : progress.registry.Kept config node
  faultless : ∀ event ∈ progress.events, event.Faultless

variable {config : Config} {node : Node} {progress : Progress} {call : Call} {friend : Friend}

theorem Sound.report (h : progress.Sound config node) {event : Event} (hevent : event.Faultless) :
    (progress.report event).Sound config node where
  kept := h.kept
  faultless other hother := by
    rcases List.mem_append.mp hother with hbefore | hnew
    · exact h.faultless other hbefore
    · rwa [List.mem_singleton.mp hnew]

theorem Sound.change (h : progress.Sound config node) (hcall : call.Kept config node) :
    (progress.change call).Sound config node where
  kept := h.kept.set hcall
  faultless other hother := by
    rcases List.mem_append.mp hother with hbefore | hnew
    · exact h.faultless other hbefore
    · rw [List.mem_singleton.mp hnew]
      intro friend hfault
      exact hcall.unfailed (Event.callState.inj hfault).2

/-! ## Signals -/

theorem sound_invited (h : progress.Sound config node) (hknown : node.knows friend = true)
    (hconnected : (node.status friend).isConnected = true) (rates : Rates) :
    (progress.invited friend rates).Sound config node ∧
      (progress.invited friend rates).registry.live? friend =
        heard friend (progress.registry.live? friend) (.invite rates) := by
  unfold invited Registry.create
  cases hlive : progress.registry.live? friend with
  | some call =>
      have hbusy : progress.registry.isInCall friend = true := by
        simp [Registry.isInCall, hlive]
      simp only [Call.incoming, hbusy, if_true]
      exact ⟨h, by rw [hlive]; rfl⟩
  | none =>
      have hfree : progress.registry.isInCall friend = false :=
        Registry.isInCall_eq_false_iff.mpr hlive
      have hincoming : (Call.incoming friend rates).Kept config node :=
        ⟨hknown, hconnected, .incoming_call friend rates, by simp [Call.incoming]⟩
      have hentered : Sound config node
          ⟨progress.registry.set (.incoming friend rates), progress.events⟩ :=
        ⟨h.kept.set hincoming, h.faultless⟩
      simp only [Call.incoming, hfree]
      exact ⟨hentered.report (Event.faultless_call friend rates.flow),
        Registry.live?_set_self _ rfl rfl⟩

theorem sound_answered (h : progress.Sound config node) {rates : Rates}
    (hfits : ∀ call ∈ progress.registry.live? friend,
      (call.after? (.remoteAnswered rates)).isSome) :
    (progress.answered friend rates).Sound config node ∧
      (progress.answered friend rates).registry.live? friend =
        heard friend (progress.registry.live? friend) (.answer rates) := by
  unfold answered
  cases hlive : progress.registry.live? friend with
  | none => exact ⟨h, hlive⟩
  | some call =>
      obtain ⟨running, hrunning⟩ := Option.isSome_iff_exists.mp (hfits call hlive)
      have hbefore := h.kept.of_live? hlive
      have hestablished : running.state.isEstablished = true := by
        obtain ⟨-, -, rfl⟩ := Call.of_remoteAnswered hrunning
        rfl
      have hrunninglive : running.isLive = true := Call.isLive_of_isEstablished hestablished
      have hfriend : running.friend = call.friend := Call.friend_of_after? hrunning
      have hkept : running.Kept config node :=
        hbefore.changed hfriend (hbefore.coherent.after? (by simp) hrunning)
          (Call.state_ne_failed_of_isLive hrunninglive)
      simp only [hrunning, heard, Option.bind_some]
      exact ⟨h.change hkept, Registry.live?_set_self _
        (hfriend.trans (Registry.friend_of_live? hlive)) hrunninglive⟩

/-- A hang-up ends the call, and a pause or its end keeps it. -/
theorem sound_transitioned (h : progress.Sound config node) (friend : Friend)
    (transition : Transition) (hforeign : ∀ rates, transition ≠ .localAnswered rates)
    (hunfailed : ∀ call ∈ progress.registry.live? friend, ∀ after,
      call.after? transition = some after → after.state ≠ .failed) :
    (progress.transitioned friend transition).Sound config node ∧
      (progress.transitioned friend transition).registry.live? friend =
        (progress.registry.live? friend).bind fun call =>
          (some ((call.after? transition).getD call)).filter Call.isLive := by
  unfold transitioned
  cases hlive : progress.registry.live? friend with
  | none => exact ⟨h, hlive⟩
  | some call =>
      have hcalllive : call.isLive = true := Registry.isLive_of_live? hlive
      cases hafter : call.after? transition with
      | none =>
          -- a transition that does not fit is ignored, and the call goes on
          simp only [hafter, Option.bind_some, Option.getD_none,
            Option.filter_some_pos hcalllive]
          exact ⟨h, hlive⟩
      | some after =>
          have hbefore := h.kept.of_live? hlive
          have hfriend : after.friend = call.friend := Call.friend_of_after? hafter
          have hkept : after.Kept config node :=
            hbefore.changed hfriend (hbefore.coherent.after? hforeign hafter)
              (hunfailed call hlive after hafter)
          simp only [hafter, Option.bind_some, Option.getD_some]
          refine ⟨h.change hkept, ?_⟩
          have hsame : after.friend = friend := hfriend.trans (Registry.friend_of_live? hlive)
          change (progress.registry.set after).live? friend = _
          rw [Registry.live?_set, if_pos hsame]

/-- What the friend's pause or resumption comes to, when it leaves a live call. -/
theorem sound_suspending (h : progress.Sound config node) {transition : Transition}
    (hlives : ∀ call ∈ progress.registry.live? friend, ∀ after,
      call.after? transition = some after → after.isLive = true)
    (hforeign : ∀ rates, transition ≠ .localAnswered rates) :
    (progress.transitioned friend transition).Sound config node ∧
      (progress.transitioned friend transition).registry.live? friend =
        (progress.registry.live? friend).map fun call => (call.after? transition).getD call := by
  obtain ⟨hsound, hlive⟩ := sound_transitioned h friend transition hforeign
    fun call hcall after hafter => Call.state_ne_failed_of_isLive (hlives call hcall after hafter)
  refine ⟨hsound, ?_⟩
  rw [hlive]
  cases hentry : progress.registry.live? friend with
  | none => rfl
  | some call =>
      have hresult : ((call.after? transition).getD call).isLive = true := by
        cases hafter : call.after? transition with
        | none => exact Registry.isLive_of_live? hentry
        | some after => exact hlives call hentry after hafter
      rw [Option.bind_some, Option.filter_some_pos hresult, Option.map_some]

theorem sound_commanded (h : progress.Sound config node) (friend : Friend) (command : Control) :
    (progress.commanded friend command).Sound config node ∧
      (progress.commanded friend command).registry.live? friend =
        heard friend (progress.registry.live? friend) (.control command) := by
  cases command with
  | cancel =>
      have hcancel : ∀ call ∈ progress.registry.live? friend,
          call.after? .cancel = some (call.finish .ended) :=
        fun call hcall => Call.after?_cancel (Registry.isLive_of_live? hcall)
      obtain ⟨hsound, hlive⟩ := sound_transitioned h friend .cancel (by simp)
        fun call hcall after hafter => by
          obtain rfl := Option.some.inj ((hcancel call hcall).symm.trans hafter)
          simp [Call.finish]
      refine ⟨hsound, ?_⟩
      rw [show (progress.commanded friend .cancel).registry.live? friend = _ from hlive]
      cases hentry : progress.registry.live? friend with
      | none => rfl
      | some call =>
          rw [Option.bind_some, hcancel call hentry, Option.getD_some]
          rfl
  | pause =>
      have hlives : ∀ call ∈ progress.registry.live? friend, ∀ after,
          call.after? .pause = some after → after.isLive = true := by
        intro call _ after hafter
        obtain ⟨-, rfl⟩ := Call.of_pause hafter
        rfl
      exact sound_suspending h hlives (by simp)
  | resume =>
      have hlives : ∀ call ∈ progress.registry.live? friend, ∀ after,
          call.after? .resume = some after → after.isLive = true := by
        intro call hcall after hafter
        have hcoherent : call.Coherent config := (h.kept.of_live? hcall).coherent
        exact Call.isLive_of_isEstablished (Call.isEstablished_of_resume hcoherent hafter)
      exact sound_suspending h hlives (by simp)
  | muteAudio => exact ⟨h, rfl⟩
  | unmuteAudio => exact ⟨h, rfl⟩
  | hideVideo => exact ⟨h, rfl⟩
  | showVideo => exact ⟨h, rfl⟩

theorem sound_announced (h : progress.Sound config node) (friend : Friend) (kind : MediaKind)
    (rate : UInt32) :
    (progress.announced friend kind rate).Sound config node ∧
      (progress.announced friend kind rate).registry.live? friend =
        heard friend (progress.registry.live? friend) (.bitRate kind rate) := by
  unfold announced
  cases hlive : progress.registry.live? friend with
  | none => exact ⟨h, hlive⟩
  | some call =>
      have hbefore := h.kept.of_live? hlive
      have hkept : (call.withPeerRate kind rate).Kept config node :=
        hbefore.changed rfl (hbefore.coherent.withPeerRate kind rate) hbefore.unfailed
      refine ⟨⟨h.kept.set hkept, h.faultless⟩, ?_⟩
      have hsame : (call.withPeerRate kind rate).friend = friend :=
        (Call.friend_withPeerRate call kind rate).trans (Registry.friend_of_live? hlive)
      have hcalllive : call.isLive = true := Registry.isLive_of_live? hlive
      exact Registry.live?_set_self _ hsame hcalllive

/-- Handling a signal is hearing it, and no call fails if no answer comes unexpected. -/
theorem sound_handle_signal (h : progress.Sound config node) (hknown : node.knows friend = true)
    (hconnected : (node.status friend).isConnected = true) (signal : Signal)
    (hfits : ∀ rates, signal = .answer rates → ∀ call ∈ progress.registry.live? friend,
      (call.after? (.remoteAnswered rates)).isSome) :
    (progress.handle config (.signal friend signal)).Sound config node ∧
      (progress.handle config (.signal friend signal)).registry.live? friend =
        heard friend (progress.registry.live? friend) signal := by
  cases signal with
  | invite rates => exact sound_invited h hknown hconnected rates
  | answer rates => exact sound_answered h (hfits rates rfl)
  | control command => exact sound_commanded h friend command
  | bitRate kind rate => exact sound_announced h friend kind rate

/-- Handling a frame changes no call. -/
theorem sound_handle_media (h : progress.Sound config node) (friend : Friend)
    (payload : Payload) :
    (progress.handle config (.media friend payload)).Sound config node ∧
      (progress.handle config (.media friend payload)).registry = progress.registry := by
  simp only [handle, framed]
  split
  · exact ⟨h.report (Event.faultless_frame friend payload), rfl⟩
  · exact ⟨h, rfl⟩

/-- A round finds nothing wrong with the friends of calls that have come to no harm. -/
theorem checkConnectivity_of_kept {hub : Hub} {place : NodeId}
    (h : progress.registry.Kept config (hub.get place)) :
    progress.checkConnectivity (Hub.node place) hub = progress := by
  refine checkConnectivity_induction (P := fun checked => checked = progress) ?_ rfl
  rintro _ friend rfl
  unfold checkFriend
  split
  · rfl
  · rename_i call hlive
    have hkept := h.of_live? hlive
    have hsame : call.friend = friend := Registry.friend_of_live? hlive
    have hknown : (Hub.node place).knows hub friend = true := hsame ▸ hkept.known
    have hconnected : ((Hub.node place).status hub friend).isConnected = true :=
      hsame ▸ hkept.connected
    simp [hknown, hconnected]

end Progress

/-! ## Both sides between two steps -/

namespace Wiring

/-- The line between the two sides. -/
def line (wiring : Wiring) (registries : Side → Registry) (hub : Hub) : Line where
  call side := (registries side).live? (wiring.number side)
  waiting side := (hub.get (wiring.place side)).inbox.filterMap Inbound.signal?

/-- The sides are linked, what waits for a side comes from the other one, no call has come
to harm, and the line between the sides is as `P` says. -/
structure Good (wiring : Wiring) (P : Line → Prop) (configs : Side → Config)
    (registries : Side → Registry) (hub : Hub) : Prop where
  joins : wiring.Joins hub
  addressed : ∀ side, ∀ item ∈ (hub.get (wiring.place side)).inbox,
    item.friend = wiring.number side
  kept : ∀ side, (registries side).Kept (configs side) (hub.get (wiring.place side))
  holds : P (wiring.line registries hub)

variable {wiring : Wiring} {P : Line → Prop} {configs : Side → Config}
  {registries : Side → Registry} {hub later : Hub} {side : Side}

theorem Good.sound (h : wiring.Good P configs registries hub) :
    (wiring.line registries hub).Sound := by
  intro side call hcall
  exact ⟨Registry.isLive_of_live? hcall, configs side, ((h.kept side).of_live? hcall).coherent⟩

/-- Lines are the same when the live calls and the waiting signals are. -/
theorem line_congr {others : Side → Registry}
    (hcalls : ∀ side, (others side).live? (wiring.number side) =
      (registries side).live? (wiring.number side))
    (hwaiting : ∀ side, (later.get (wiring.place side)).inbox.filterMap Inbound.signal? =
      (hub.get (wiring.place side)).inbox.filterMap Inbound.signal?) :
    wiring.line others later = wiring.line registries hub :=
  Line.ext (funext hcalls) (funext hwaiting)

theorem kept_update {registry : Registry} (h : ∀ side, (registries side).Kept (configs side)
      (hub.get (wiring.place side)))
    (hregistry : registry.Kept (configs side) (hub.get (wiring.place side)))
    (hlinks : ∀ place, (later.get place).links = (hub.get place).links) (own : Side) :
    (Function.update registries side registry own).Kept (configs own)
      (later.get (wiring.place own)) := by
  rcases own.eq_or_eq_other side with rfl | rfl
  · rw [Function.update_self]
    exact hregistry.of_links (hlinks _)
  · rw [Function.update_of_ne (Side.other_ne side)]
    exact (h side.other).of_links (hlinks _)

theorem addressed_of_carries (h : ∀ side, ∀ item ∈ (hub.get (wiring.place side)).inbox,
      item.friend = wiring.number side) {items : List Inbound}
    (hcarries : wiring.Carries side items hub later)
    (hitems : ∀ item ∈ items, item.friend = wiring.number side.other) (own : Side) :
    ∀ item ∈ (later.get (wiring.place own)).inbox, item.friend = wiring.number own := by
  rcases own.eq_or_eq_other side with rfl | rfl
  · rw [hcarries.own]
    exact h own
  · rw [hcarries.other]
    intro item hitem
    rcases List.mem_append.mp hitem with hbefore | hnew
    · exact h side.other item hbefore
    · exact hitems item hnew

/-! ## Speaking and hearing on the line -/

/-- What is silent leaves the line as it is. -/
theorem line_of_carries {registry : Registry} {items : List Inbound}
    (hsame : registry.live? (wiring.number side) =
      (registries side).live? (wiring.number side))
    (hcarries : wiring.Carries side items hub later)
    (hitems : ∀ item ∈ items, ∃ payload, item = .media (wiring.number side.other) payload) :
    wiring.line (Function.update registries side registry) later = wiring.line registries hub := by
  refine line_congr (fun own => ?_) fun own => ?_
  all_goals rcases own.eq_or_eq_other side with rfl | rfl
  · rw [Function.update_self, hsame]
  · rw [Function.update_of_ne (Side.other_ne side)]
  · rw [hcarries.own]
  · have hframes : items.filterMap Inbound.signal? = [] := by
      refine List.filterMap_eq_nil_iff.mpr fun item hitem => ?_
      obtain ⟨payload, rfl⟩ := hitems item hitem
      rfl
    rw [hcarries.other, List.filterMap_append, hframes, List.append_nil]

theorem line_of_said {registry : Registry} {signal : Signal}
    (hcarries : wiring.Carries side [.signal (wiring.number side.other) signal] hub later) :
    wiring.line (Function.update registries side registry) later =
      (wiring.line registries hub).say side signal (registry.live? (wiring.number side)) := by
  refine Line.ext (funext fun own => ?_) (funext fun own => ?_)
  all_goals rcases own.eq_or_eq_other side with rfl | rfl
  · simp [line]
  · simp [line]
  · simp [line, hcarries.own]
  · simp [line, hcarries.other, Inbound.signal?]

theorem Good.silent (h : wiring.Good P configs registries hub) {session : Session} {α : Type}
    {outcome : Outcome Hub α} (hsilent : wiring.Silent side session hub outcome)
    (hregistry : session.registry = registries side) (hconfig : session.config = configs side) :
    wiring.Good P configs (Function.update registries side outcome.session.registry)
      outcome.network := by
  obtain ⟨items, hcarries, hitems⟩ := hsilent.carries
  have hsame := hsilent.same
  rw [hregistry] at hsame
  refine ⟨h.joins.of_links hcarries.links, fun own => ?_, fun own => ?_, ?_⟩
  · refine addressed_of_carries h.addressed hcarries (fun item hitem => ?_) own
    obtain ⟨payload, rfl⟩ := hitems item hitem
    rfl
  · exact kept_update h.kept (hconfig ▸ hsilent.kept) hcarries.links own
  · rw [line_of_carries hsame hcarries hitems]
    exact h.holds

/-- An operation that says something keeps everything in order, if what it says does. -/
theorem Good.said (h : wiring.Good P configs registries hub) {session : Session} {α : Type}
    {outcome : Outcome Hub α} {signal : Signal}
    (hsaid : wiring.Said side session hub outcome signal) (hconfig : session.config = configs side)
    (hsay : P ((wiring.line registries hub).say side signal
      (outcome.session.registry.live? (wiring.number side)))) :
    wiring.Good P configs (Function.update registries side outcome.session.registry)
      outcome.network := by
  have hcarries := hsaid.carries
  refine ⟨h.joins.of_links hcarries.links, fun own => ?_, fun own => ?_, ?_⟩
  · exact addressed_of_carries h.addressed hcarries (by simp [Inbound.friend]) own
  · exact kept_update h.kept (hconfig ▸ hsaid.kept) hcarries.links own
  · rw [line_of_said hcarries]
    exact hsay

/-- Taking one item from the inbox keeps everything in order, if hearing a signal does. -/
theorem Good.take (h : wiring.Good P configs registries hub)
    (hear : ∀ line side signal later, line.Sound → P line →
      line.waiting side = signal :: later → P (line.hear wiring.number side signal later))
    (fits : ∀ line side, line.Sound → P line → line.Fits side)
    {progress : Progress} (hregistry : registries side = progress.registry)
    (hfaultless : ∀ event ∈ progress.events, event.Faultless) {item : Inbound}
    (hpoll : (wiring.network side).poll hub = (some item, later)) :
    wiring.Good P configs
        (Function.update registries side (progress.handle (configs side) item).registry) later ∧
      ∀ event ∈ (progress.handle (configs side) item).events, event.Faultless := by
  rcases poll_cases h.joins side with ⟨-, hnone⟩ | ⟨first, rest, after, hinbox, hsome, hlinks, hown,
    hother⟩
  · cases hnone.symm.trans hpoll
  -- the item comes from the other side, so it is heard in the call that the line shows
  obtain ⟨hitem, rfl⟩ := Prod.mk.inj (hsome.symm.trans hpoll)
  obtain rfl : first = item := Option.some.inj hitem
  have hfriend : first.friend = wiring.number side :=
    h.addressed side first (by rw [hinbox]; exact List.mem_cons_self)
  have hsound : progress.Sound (configs side) (hub.get (wiring.place side)) :=
    ⟨hregistry ▸ h.kept side, hfaultless⟩
  have haddressed : ∀ own, ∀ item ∈ (after.get (wiring.place own)).inbox,
      item.friend = wiring.number own := by
    intro own item hmem
    rcases own.eq_or_eq_other side with rfl | rfl
    · rw [hown] at hmem
      exact h.addressed own item (by rw [hinbox]; exact List.mem_cons_of_mem first hmem)
    · rw [hother] at hmem
      exact h.addressed side.other item hmem
  cases first with
  | media friend payload =>
      obtain ⟨hafter, hsame⟩ := Progress.sound_handle_media hsound friend payload
      refine ⟨⟨h.joins.of_links hlinks, haddressed,
        fun own => kept_update h.kept hafter.kept hlinks own, ?_⟩, hafter.faultless⟩
      rw [hsame, ← hregistry, Function.update_eq_self]
      have hline : wiring.line registries after = wiring.line registries hub := by
        refine line_congr (fun _ => rfl) fun own => ?_
        rcases own.eq_or_eq_other side with rfl | rfl
        · rw [hown, hinbox]
          rfl
        · rw [hother]
      rw [hline]
      exact h.holds
  | signal friend signal =>
      obtain rfl : friend = wiring.number side := hfriend
      have hwaiting : (wiring.line registries hub).waiting side =
          signal :: rest.filterMap Inbound.signal? := by
        simp [line, hinbox, Inbound.signal?]
      obtain ⟨hknown, hconnected⟩ := h.joins.reaches side
      obtain ⟨hafter, hheard⟩ :=
        Progress.sound_handle_signal hsound hknown hconnected signal fun rates hanswer => by
          rw [← hregistry]
          exact fits _ side h.sound h.holds rates _ (hanswer ▸ hwaiting)
      refine ⟨⟨h.joins.of_links hlinks, haddressed,
        fun own => kept_update h.kept hafter.kept hlinks own, ?_⟩, hafter.faultless⟩
      have hline : wiring.line (Function.update registries side
            (progress.handle (configs side) (.signal (wiring.number side) signal)).registry) after =
          (wiring.line registries hub).hear wiring.number side signal
            (rest.filterMap Inbound.signal?) := by
        refine Line.ext (funext fun own => ?_) (funext fun own => ?_)
        all_goals rcases own.eq_or_eq_other side with rfl | rfl
        · simp [line, hheard, hregistry]
        · simp [line]
        · simp [line, hown]
        · simp [line, hother]
      rw [hline]
      exact hear _ side signal _ h.sound h.holds hwaiting

end Wiring

end PeerCalls
