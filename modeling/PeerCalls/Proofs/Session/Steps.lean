import PeerCalls.Proofs.Session.Rounds

/-!
# What a step of a round looks at, and what it tells

A step of a round is the handling of an inbound item or the check of a friend.  It looks at
the live call with one friend and at no other entry, so an old call plays no part in it.
What it does is to put in a call with that friend, at most, and to add events: this is
`Progress.enter`.  Which call and which events go together is listed in `Tells`.  That a step
is like this is `Progress.Minds`, and all that has to be known of the steps follows from it,
so `Session.checked_induction` carries a property through a round without a look at the
single steps.

`Alike` is what follows for two rounds that begin with the same live calls: step by step
they do the same.
-/

namespace PeerCalls

/-- Whether only our own operations make the transition. -/
def Transition.isOurs : Transition → Bool
  | .localAnswered _ => true
  | .ratesChanged => true
  | _ => false

theorem Transition.ne_localAnswered {transition : Transition} (theirs : transition.isOurs = false)
    (rates : Rates) : transition ≠ .localAnswered rates := by
  rintro rfl
  cases theirs

/-- The call that a step of a round puts in and the events that it adds, by the live call
that it finds with its friend. -/
inductive Tells (friend : Friend) : Option Call → Option Call → List Event → Prop where
  /-- Nothing becomes of the calls; the friend may have sent a frame. -/
  | unheard (found : Option Call) {news : List Event}
      (silent : ∀ event ∈ news, event.phase ≠ .calls) : Tells friend found none news
  /-- The friend calls us. -/
  | called (rates : Rates) :
      Tells friend none (some (.incoming friend rates)) [.call friend rates.flow]
  /-- The call makes a transition on the friend's side or on the network's. -/
  | moved {call after : Call} {transition : Transition} (theirs : transition.isOurs = false)
      (fits : call.after? transition = some after) :
      Tells friend (some call) (some after) [.callState after.friend after.state]
  /-- The friend announces a rate, which is no event. -/
  | announced (call : Call) (kind : MediaKind) (rate : UInt32) :
      Tells friend (some call) (some (call.withPeerRate kind rate)) []

/-- The call that a step puts in is with the friend that the step is about. -/
theorem Tells.friend_entered {friend : Friend} {found entered : Option Call} {news : List Event}
    (h : Tells friend found entered news) (hfound : ∀ call ∈ found, call.friend = friend)
    {call : Call} (hentered : entered = some call) : call.friend = friend := by
  cases h with
  | unheard found silent => cases hentered
  | called rates =>
      cases hentered
      rfl
  | moved theirs fits =>
      cases hentered
      exact (Call.friend_of_after? fits).trans (hfound _ rfl)
  | announced before kind rate =>
      cases hentered
      exact hfound before rfl

namespace Progress

/-- The progress with a call put in, if there is one, and with further events. -/
def enter (progress : Progress) (entered : Option Call) (news : List Event) : Progress where
  registry := entered.elim progress.registry progress.registry.set
  events := progress.events ++ news

@[simp] theorem enter_none_nil (progress : Progress) : progress.enter none [] = progress := by
  simp [enter]

theorem change_eq_enter (progress : Progress) (call : Call) :
    progress.change call = progress.enter (some call) [.callState call.friend call.state] := rfl

/-- The step looks at nothing but the live call with the friend, and does what fits it. -/
def Minds (friend : Friend) (step : Progress → Progress) : Prop :=
  ∀ progress : Progress, ∃ entered news,
    Tells friend (progress.registry.live? friend) entered news ∧
      ∀ other : Progress, other.registry.live? friend = progress.registry.live? friend →
        step other = other.enter entered news

/-! ## Inbound items -/

variable (friend : Friend)

theorem minds_id : Minds friend id := fun progress =>
  ⟨none, [], .unheard _ (by simp), fun other _ => (enter_none_nil other).symm⟩

theorem minds_invited (rates : Rates) : Minds friend (invited · friend rates) := by
  intro progress
  cases hlive : progress.registry.live? friend with
  | none =>
      refine ⟨_, _, .called rates, fun other hother => ?_⟩
      have hfree : other.registry.isInCall friend = false :=
        Registry.isInCall_eq_false_iff.mpr hother
      simp [invited, Registry.create, Call.incoming, hfree, report, enter]
  | some call =>
      refine ⟨none, [], .unheard _ (by simp), fun other hother => ?_⟩
      have hbusy : other.registry.isInCall friend = true := by
        rw [Registry.isInCall, hother]
        rfl
      simp [invited, Registry.create, Call.incoming, hbusy]

theorem minds_answered (rates : Rates) : Minds friend (answered · friend rates) := by
  intro progress
  cases hlive : progress.registry.live? friend with
  | none => exact ⟨none, [], .unheard _ (by simp), fun other hother => by simp [answered, hother]⟩
  | some call =>
      cases hfits : call.after? (.remoteAnswered rates) with
      | some running =>
          refine ⟨_, _, .moved rfl hfits, fun other hother => ?_⟩
          simp [answered, hother, hfits, change_eq_enter]
      -- an answer that does not fit makes the call fail
      | none =>
          have hcall : call.isLive = true := Registry.isLive_of_live? hlive
          refine ⟨_, _, .moved rfl (Call.after?_fault hcall), fun other hother => ?_⟩
          simp [answered, hother, hfits, change_eq_enter]

theorem minds_transitioned {transition : Transition} (theirs : transition.isOurs = false) :
    Minds friend (transitioned · friend transition) := by
  intro progress
  cases hlive : progress.registry.live? friend with
  | none =>
      exact ⟨none, [], .unheard _ (by simp), fun other hother => by simp [transitioned, hother]⟩
  | some call =>
      cases hfits : call.after? transition with
      | some after =>
          refine ⟨_, _, .moved theirs hfits, fun other hother => ?_⟩
          simp [transitioned, hother, hfits, change_eq_enter]
      | none =>
          refine ⟨none, [], .unheard _ (by simp), fun other hother => ?_⟩
          simp [transitioned, hother, hfits]

theorem minds_commanded (command : Control) : Minds friend (commanded · friend command) := by
  cases command with
  | cancel => exact minds_transitioned friend rfl
  | pause => exact minds_transitioned friend rfl
  | resume => exact minds_transitioned friend rfl
  | muteAudio => exact minds_id friend
  | unmuteAudio => exact minds_id friend
  | hideVideo => exact minds_id friend
  | showVideo => exact minds_id friend

theorem minds_announced (kind : MediaKind) (rate : UInt32) :
    Minds friend (announced · friend kind rate) := by
  intro progress
  cases hlive : progress.registry.live? friend with
  | none => exact ⟨none, [], .unheard _ (by simp), fun other hother => by simp [announced, hother]⟩
  | some call =>
      refine ⟨_, _, .announced call kind rate, fun other hother => ?_⟩
      simp [announced, hother, enter, Call.withPeerRate]

theorem minds_framed (config : Config) (payload : Payload) :
    Minds friend (framed · config friend payload) := by
  intro progress
  have hadmits : ∀ other : Progress,
      other.registry.live? friend = progress.registry.live? friend →
        admits other.registry config friend payload =
          admits progress.registry config friend payload := by
    intro other hother
    rw [admits, admits, hother]
  cases hcase : admits progress.registry config friend payload with
  | false =>
      refine ⟨none, [], .unheard _ (by simp), fun other hother => ?_⟩
      simp [framed, hadmits other hother, hcase]
  | true =>
      refine ⟨none, [.frame friend payload], .unheard _ (by simp [Event.phase]),
        fun other hother => ?_⟩
      simp [framed, hadmits other hother, hcase, report, enter]

theorem minds_handle (config : Config) (item : Inbound) :
    Minds item.friend (handle · config item) := by
  cases item with
  | media friend payload => exact minds_framed friend config payload
  | signal friend signal =>
      cases signal with
      | invite rates => exact minds_invited friend rates
      | answer rates => exact minds_answered friend rates
      | control command => exact minds_commanded friend command
      | bitRate kind rate => exact minds_announced friend kind rate

/-! ## Checks of friends -/

variable {σ : Type} (network : Network σ) (state : σ)

theorem minds_checkFriend : Minds friend (checkFriend network state · friend) := by
  intro progress
  cases hlive : progress.registry.live? friend with
  | none =>
      exact ⟨none, [], .unheard _ (by simp), fun other hother => by simp [checkFriend, hother]⟩
  | some call =>
      have hcall : call.isLive = true := Registry.isLive_of_live? hlive
      cases hknown : network.knows state friend with
      | false =>
          have hcancel := Call.after?_cancel hcall
          refine ⟨_, _, .moved rfl hcancel, fun other hother => ?_⟩
          simp [checkFriend, hother, hknown, hcancel, change_eq_enter]
      | true =>
          cases hconnected : (network.status state friend).isConnected with
          | false =>
              refine ⟨_, _, .moved rfl (Call.after?_fault hcall), fun other hother => ?_⟩
              simp [checkFriend, hother, hknown, hconnected, change_eq_enter]
          | true =>
              refine ⟨none, [], .unheard _ (by simp), fun other hother => ?_⟩
              simp [checkFriend, hother, hknown, hconnected]

/-! ## What follows for every step -/

variable {friend network state}

/-- A step puts in a call with its friend, at most. -/
theorem registry_of_minds {step : Progress → Progress} (hminds : Minds friend step)
    (progress : Progress) :
    (step progress).registry = progress.registry ∨
      ∃ call : Call, call.friend = friend ∧
        (step progress).registry = progress.registry.set call := by
  obtain ⟨entered, news, htells, hstep⟩ := hminds progress
  rw [hstep progress rfl]
  cases entered with
  | none => exact Or.inl rfl
  | some call =>
      exact Or.inr ⟨call, htells.friend_entered (fun _ => Registry.friend_of_live?) rfl, rfl⟩

end Progress

/-- What holds when a round begins and survives every step of it, holds when it reaps. -/
theorem Session.checked_induction {σ : Type} (network : Network σ) {session : Session} (state : σ)
    {P : Progress → Prop}
    (step : ∀ friend step progress, Progress.Minds friend step → P progress → P (step progress))
    (h : P ⟨session.registry, []⟩) : P (session.checked network state) := by
  have htaken : P (session.taken network state).1 :=
    Progress.takeInbound_induction (P := fun progress _ => P progress) (fun _ _ _ h _ => h)
      (fun progress _ item _ h _ =>
        step item.friend _ progress (Progress.minds_handle session.config item) h) _ h
  exact Progress.checkConnectivity_induction
    (fun progress friend h =>
      step friend _ progress (Progress.minds_checkFriend friend network _) h) htaken

/-! ## Rounds that begin with the same live calls -/

/-- Two stages of a round that differ in an old call with the friend, at most. -/
structure Alike (friend : Friend) (progress other : Progress) : Prop where
  events : other.events = progress.events
  live : ∀ someone, other.registry.live? someone = progress.registry.live? someone
  others : ∀ someone, someone ≠ friend →
    other.registry.get? someone = progress.registry.get? someone

namespace Alike

variable {friend : Friend} {progress other : Progress}

theorem enter (h : Alike friend progress other) (entered : Option Call) (news : List Event) :
    Alike friend (progress.enter entered news) (other.enter entered news) := by
  cases entered with
  | none => exact ⟨congrArg (· ++ news) h.events, h.live, h.others⟩
  | some call =>
      refine ⟨congrArg (· ++ news) h.events, fun someone => ?_, fun someone hne => ?_⟩
      · simp only [Progress.enter, Option.elim_some, Registry.live?_set, h.live]
      · simp only [Progress.enter, Option.elim_some, Registry.get?_set, h.others someone hne]

/-- A step does the same at both stages. -/
theorem step {someone : Friend} {step : Progress → Progress}
    (hminds : Progress.Minds someone step) (h : Alike friend progress other) :
    Alike friend (step progress) (step other) := by
  obtain ⟨entered, news, -, hstep⟩ := hminds progress
  rw [hstep progress rfl, hstep other (h.live someone)]
  exact h.enter entered news

/-- Once what is over has been reaped, no difference is left. -/
theorem reap (h : Alike friend progress other) :
    other.registry.reap.2 = progress.registry.reap.2 :=
  Registry.ext_get? fun someone => by
    rw [Registry.get?_reap, Registry.get?_reap, h.live]

variable {σ : Type} (network : Network σ)

theorem takeInbound (config : Config) (limit : Nat) (h : Alike friend progress other)
    (state : σ) :
    Alike friend (Progress.takeInbound network config limit progress state).1
        (Progress.takeInbound network config limit other state).1 ∧
      (Progress.takeInbound network config limit other state).2 =
        (Progress.takeInbound network config limit progress state).2 := by
  induction limit generalizing progress other state with
  | zero => exact ⟨h, rfl⟩
  | succ limit ih =>
      unfold Progress.takeInbound
      rcases network.poll state with ⟨received, after⟩
      cases received with
      | none => exact ⟨h, rfl⟩
      | some item => exact ih (h.step (Progress.minds_handle config item)) after

theorem foldl_checkFriend (state : σ) (friends : List Friend) (h : Alike friend progress other) :
    Alike friend (friends.foldl (Progress.checkFriend network state) progress)
      (friends.foldl (Progress.checkFriend network state) other) := by
  induction friends generalizing progress other with
  | nil => exact h
  | cons someone rest ih => exact ih (h.step (Progress.minds_checkFriend someone network state))

end Alike

namespace Progress

variable {σ : Type} (network : Network σ) (state : σ)

/-- The check of a friend leaves alone whoever has no live call. -/
theorem get?_checkFriend_of_none {progress : Progress} {someone : Friend}
    (h : progress.registry.live? someone = none) (friend : Friend) :
    (checkFriend network state progress friend).registry.get? someone =
      progress.registry.get? someone := by
  by_cases hsame : someone = friend
  · subst hsame
    simp [checkFriend, h]
  · rcases registry_of_minds (minds_checkFriend friend network state) progress with
      hkept | ⟨call, hfriend, hset⟩
    · rw [hkept]
    · rw [hset]
      exact Registry.get?_set_of_ne _ fun heq => hsame (heq.symm.trans hfriend)

/-- A friend without a live call need not be checked. -/
theorem foldl_checkFriend_filter (inCall : Friend → Bool) (friends : List Friend)
    {progress : Progress}
    (hnone : ∀ friend, inCall friend = false → progress.registry.live? friend = none) :
    friends.foldl (checkFriend network state) progress =
      (friends.filter inCall).foldl (checkFriend network state) progress := by
  induction friends generalizing progress with
  | nil => rfl
  | cons friend rest ih =>
      cases hin : inCall friend with
      | false =>
          have hunchanged : checkFriend network state progress friend = progress := by
            simp [checkFriend, hnone friend hin]
          rw [List.filter_cons_of_neg (by simp [hin]), List.foldl_cons, hunchanged]
          exact ih hnone
      | true =>
          rw [List.filter_cons_of_pos hin, List.foldl_cons, List.foldl_cons]
          refine ih fun someone hout => ?_
          rw [Registry.live?, get?_checkFriend_of_none network state (hnone someone hout) friend]
          exact hnone someone hout

theorem checkConnectivity_eq (progress : Progress) :
    progress.checkConnectivity network state =
      progress.registry.reap.2.friends.foldl (checkFriend network state) progress := by
  rw [Registry.friends_reap]
  exact foldl_checkFriend_filter network state _ _ fun friend =>
    Registry.isInCall_eq_false_iff.mp

end Progress

theorem Alike.checkConnectivity {friend : Friend} {progress other : Progress} {σ : Type}
    (network : Network σ) (h : Alike friend progress other) (state : σ) :
    Alike friend (progress.checkConnectivity network state)
      (other.checkConnectivity network state) := by
  rw [Progress.checkConnectivity_eq, Progress.checkConnectivity_eq, h.reap]
  exact h.foldl_checkFriend network state _

end PeerCalls
