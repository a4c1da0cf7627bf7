import PeerCalls.Proofs.Session.Steps

/-!
# Friends do not interfere

All calls of a session live in one registry, and the items of all friends come in through one
inbox.  Still, what an item of one friend does is decided by the live call with that friend
alone, and it touches nothing else.  So a friend cannot tell whether items of others were
handled in between: `Agrees` holds between a list of items and those of the friend among them.

Two items of different friends may therefore change places.  The calls are the same
afterwards, and so is what is told about each friend, in the same order.
-/

namespace PeerCalls

namespace Event

/-- The events about a friend, in the order in which they arose. -/
def about (friend : Friend) (events : List Event) : List Event :=
  events.filter fun event => event.friend = friend

@[simp] theorem about_append (friend : Friend) (earlier later : List Event) :
    about friend (earlier ++ later) = about friend earlier ++ about friend later :=
  List.filter_append earlier later

theorem about_eq_nil {friend other : Friend} {events : List Event}
    (h : ∀ event ∈ events, event.friend = other) (hne : other ≠ friend) :
    about friend events = [] := by
  refine List.filter_eq_nil_iff.mpr fun event hmem => ?_
  rw [h event hmem]
  simpa using hne

theorem about_eq_self {friend : Friend} {events : List Event}
    (h : ∀ event ∈ events, event.friend = friend) : about friend events = events := by
  refine List.filter_eq_self.mpr fun event hmem => ?_
  simpa using h event hmem

/-- Events that tell the same about each friend are the same events, in another order. -/
theorem perm_of_about {events others : List Event}
    (h : ∀ friend, about friend events = about friend others) : events.Perm others := by
  refine List.perm_iff_count.mpr fun event => ?_
  have hcount : ∀ list : List Event, list.count event = (about event.friend list).count event := by
    intro list
    rw [about, List.count_filter (by simp)]
  rw [hcount events, hcount others, h event.friend]

end Event

/-- The items of a friend, in the order in which they came in. -/
def Inbound.ofFriend (friend : Friend) (items : List Inbound) : List Inbound :=
  items.filter fun item => item.friend = friend

namespace Progress

/-- The progress after a list of inbound items. -/
def handleAll (config : Config) (progress : Progress) (items : List Inbound) : Progress :=
  items.foldl (fun progress item => progress.handle config item) progress

variable {config : Config} {progress other : Progress} {friend : Friend} {item : Inbound}

@[simp] theorem handleAll_nil (config : Config) (progress : Progress) :
    progress.handleAll config [] = progress := rfl

@[simp] theorem handleAll_cons (config : Config) (progress : Progress) (item : Inbound)
    (later : List Inbound) :
    progress.handleAll config (item :: later) =
      (progress.handle config item).handleAll config later := rfl

theorem handleAll_append (config : Config) (progress : Progress) (earlier later : List Inbound) :
    progress.handleAll config (earlier ++ later) =
      (progress.handleAll config earlier).handleAll config later :=
  List.foldl_append

/-! ## Whom an item concerns -/

theorem friend_of_mem_change {call : Call} {event : Event}
    (h : event ∈ (progress.change call).events) :
    event ∈ progress.events ∨ event.friend = call.friend := by
  rcases List.mem_append.mp h with hbefore | hnew
  · exact Or.inl hbefore
  · rw [List.mem_singleton.mp hnew]
    exact Or.inr rfl

/-- A transition of the live call with a friend is told about that friend. -/
theorem friend_of_mem_moved {call after : Call} {transition : Transition} {event : Event}
    (hlive : progress.registry.live? friend = some call)
    (hfits : call.after? transition = some after)
    (h : event ∈ (progress.change after).events) :
    event ∈ progress.events ∨ event.friend = friend := by
  have hfriend : after.friend = friend :=
    (Call.friend_of_after? hfits).trans (Registry.friend_of_live? hlive)
  rw [← hfriend]
  exact friend_of_mem_change h

theorem friend_of_mem_transitioned {transition : Transition} {event : Event}
    (h : event ∈ (progress.transitioned friend transition).events) :
    event ∈ progress.events ∨ event.friend = friend := by
  unfold transitioned at h
  split at h
  · exact Or.inl h
  · rename_i call hlive
    split at h
    · rename_i after hfits
      exact friend_of_mem_moved hlive hfits h
    · exact Or.inl h

/-- An item adds events about its own friend only. -/
theorem friend_of_mem_handle {event : Event} (h : event ∈ (progress.handle config item).events) :
    event ∈ progress.events ∨ event.friend = item.friend := by
  cases item with
  | media friend payload =>
      simp only [handle, framed] at h
      split at h
      · rcases List.mem_append.mp h with hbefore | hnew
        · exact Or.inl hbefore
        · rw [List.mem_singleton.mp hnew]
          exact Or.inr rfl
      · exact Or.inl h
  | signal friend signal =>
      cases signal with
      | invite rates =>
          simp only [handle, invited] at h
          split at h
          · rcases List.mem_append.mp h with hbefore | hnew
            · exact Or.inl hbefore
            · rw [List.mem_singleton.mp hnew]
              exact Or.inr rfl
          · exact Or.inl h
      | answer rates =>
          simp only [handle, answered] at h
          split at h
          · exact Or.inl h
          · rename_i call hlive
            split at h
            · rename_i running hfits
              exact friend_of_mem_moved hlive hfits h
            · have hfault := Call.after?_fault (Registry.isLive_of_live? hlive)
              exact friend_of_mem_moved hlive hfault h
      | control command =>
          cases command with
          | cancel => exact friend_of_mem_transitioned h
          | pause => exact friend_of_mem_transitioned h
          | resume => exact friend_of_mem_transitioned h
          | muteAudio => exact Or.inl h
          | unmuteAudio => exact Or.inl h
          | hideVideo => exact Or.inl h
          | showVideo => exact Or.inl h
      | bitRate kind rate =>
          simp only [handle, announced] at h
          split at h <;> exact Or.inl h

/-- An item puts in a call with its friend, at most, and adds events about its friend; which
ones, is decided by the live call with the friend. -/
theorem handle_eq_enter (config : Config) (progress : Progress) (item : Inbound) :
    ∃ entered news, (∀ call ∈ entered, call.friend = item.friend) ∧
      (∀ event ∈ news, event.friend = item.friend) ∧
      ∀ other : Progress,
        other.registry.live? item.friend = progress.registry.live? item.friend →
          other.handle config item = other.enter entered news := by
  obtain ⟨entered, news, htells, hstep⟩ := minds_handle config item progress
  refine ⟨entered, news, fun call hcall => ?_, fun event hmem => ?_, hstep⟩
  · exact htells.friend_entered (fun _ => Registry.friend_of_live?) hcall
  · -- with no events before, the news are all that is told
    have hnews : ((⟨progress.registry, []⟩ : Progress).handle config item).events = news :=
      congrArg Progress.events (hstep ⟨progress.registry, []⟩ rfl)
    rw [← hnews] at hmem
    exact (friend_of_mem_handle hmem).resolve_left (by simp)

/-! ## What a friend can tell apart -/

/-- Two stages of a round that are the same for a friend. -/
structure Agrees (friend : Friend) (progress other : Progress) : Prop where
  entry : other.registry.get? friend = progress.registry.get? friend
  told : Event.about friend other.events = Event.about friend progress.events

theorem Agrees.refl (friend : Friend) (progress : Progress) : Agrees friend progress progress :=
  ⟨rfl, rfl⟩

theorem Agrees.symm (h : Agrees friend progress other) : Agrees friend other progress :=
  ⟨h.entry.symm, h.told.symm⟩

theorem Agrees.trans {third : Progress} (h : Agrees friend progress other)
    (h' : Agrees friend other third) : Agrees friend progress third :=
  ⟨h'.entry.trans h.entry, h'.told.trans h.told⟩

/-- An item of the friend does the same at both stages. -/
theorem Agrees.handle (h : Agrees friend progress other) (hitem : item.friend = friend) :
    Agrees friend (progress.handle config item) (other.handle config item) := by
  obtain ⟨entered, news, -, -, hstep⟩ := handle_eq_enter config progress item
  have hlive : other.registry.live? item.friend = progress.registry.live? item.friend := by
    rw [Registry.live?, Registry.live?, hitem, h.entry]
  rw [hstep progress rfl, hstep other hlive]
  constructor
  · cases entered with
    | none => exact h.entry
    | some call => simp only [enter, Option.elim_some, Registry.get?_set, h.entry]
  · simp only [enter, Event.about_append, h.told]

/-- An item of somebody else makes no difference. -/
theorem Agrees.handle_other (h : Agrees friend progress other) (hitem : item.friend ≠ friend) :
    Agrees friend (progress.handle config item) other := by
  obtain ⟨entered, news, hentered, hnews, hstep⟩ := handle_eq_enter config progress item
  rw [hstep progress rfl]
  constructor
  · rw [h.entry]
    cases entered with
    | none => rfl
    | some call =>
        have hcall : call.friend ≠ friend := fun heq => hitem ((hentered call rfl).symm.trans heq)
        exact (Registry.get?_set_of_ne progress.registry hcall).symm
  · simp only [enter, Event.about_append, Event.about_eq_nil hnews hitem, List.append_nil, h.told]

/-- Among all items only those of the friend make a difference to the friend. -/
theorem Agrees.handleAll_ofFriend (h : Agrees friend progress other) (config : Config)
    (items : List Inbound) :
    Agrees friend (progress.handleAll config items)
      (other.handleAll config (Inbound.ofFriend friend items)) := by
  induction items generalizing progress other with
  | nil => exact h
  | cons item later ih =>
      by_cases hitem : item.friend = friend
      · rw [Inbound.ofFriend, List.filter_cons_of_pos (by simpa using hitem)]
        exact ih (h.handle hitem)
      · rw [Inbound.ofFriend, List.filter_cons_of_neg (by simpa using hitem)]
        exact ih (h.handle_other hitem)

/-- Items of one friend alone tell of nobody else. -/
theorem friend_of_mem_handleAll {items : List Inbound} {event : Event}
    (hitems : ∀ item ∈ items, item.friend = friend)
    (h : event ∈ (progress.handleAll config items).events) :
    event ∈ progress.events ∨ event.friend = friend := by
  induction items generalizing progress with
  | nil => exact Or.inl h
  | cons item later ih =>
      obtain ⟨hitem, hlater⟩ := List.forall_mem_cons.mp hitems
      rcases ih hlater h with hbefore | hfriend
      · rw [← hitem]
        exact friend_of_mem_handle hbefore
      · exact Or.inr hfriend

/-- Two adjacent items of different friends are the same to every friend in either order. -/
theorem agrees_swap (config : Config) (progress : Progress) (friend : Friend)
    {first second : Inbound} (hdifferent : first.friend ≠ second.friend)
    (earlier later : List Inbound) :
    Agrees friend (progress.handleAll config (earlier ++ first :: second :: later))
      (progress.handleAll config (earlier ++ second :: first :: later)) := by
  have hsame : Inbound.ofFriend friend (earlier ++ first :: second :: later) =
      Inbound.ofFriend friend (earlier ++ second :: first :: later) := by
    by_cases hfirst : first.friend = friend
    · have hsecond : second.friend ≠ friend := fun h => hdifferent (hfirst.trans h.symm)
      simp [Inbound.ofFriend, hfirst, hsecond]
    · simp [Inbound.ofFriend, List.filter_cons, hfirst]
  have hone := (Agrees.refl friend progress).handleAll_ofFriend config
    (earlier ++ first :: second :: later)
  have hother := (Agrees.refl friend progress).handleAll_ofFriend config
    (earlier ++ second :: first :: later)
  rw [hsame] at hone
  exact hone.trans hother.symm

/-- Handling the items of all friends leaves for each friend the call that the friend's own
items leave, and tells about the friend what those tell.  Two adjacent items of different
friends may change places: the calls are the same, and of the events only those about
different friends change their order. -/
theorem friends_isolated (config : Config) (registry : Registry) :
    (∀ (items : List Inbound) (friend : Friend),
      let all := handleAll config ⟨registry, []⟩ items
      let alone := handleAll config ⟨registry, []⟩ (Inbound.ofFriend friend items)
      all.registry.get? friend = alone.registry.get? friend ∧
        Event.about friend all.events = alone.events) ∧
    ∀ (earlier later : List Inbound) (first second : Inbound), first.friend ≠ second.friend →
      let one := handleAll config ⟨registry, []⟩ (earlier ++ first :: second :: later)
      let other := handleAll config ⟨registry, []⟩ (earlier ++ second :: first :: later)
      one.registry = other.registry ∧ one.events.Perm other.events ∧
        ∀ friend, Event.about friend one.events = Event.about friend other.events := by
  constructor
  · intro items friend all alone
    have hagrees : Agrees friend all alone :=
      (Agrees.refl friend ⟨registry, []⟩).handleAll_ofFriend config items
    have halone : Event.about friend alone.events = alone.events := by
      refine Event.about_eq_self fun event hmem => ?_
      have hitems : ∀ item ∈ Inbound.ofFriend friend items, item.friend = friend := by
        intro item hitem
        simpa using (List.mem_filter.mp hitem).2
      exact (friend_of_mem_handleAll hitems hmem).resolve_left (by simp)
    exact ⟨hagrees.entry.symm, hagrees.told.symm.trans halone⟩
  · intro earlier later first second hdifferent one other
    have hagrees : ∀ friend, Agrees friend one other := fun friend =>
      agrees_swap config ⟨registry, []⟩ friend hdifferent earlier later
    have htold : ∀ friend, Event.about friend one.events = Event.about friend other.events :=
      fun friend => (hagrees friend).told.symm
    have hregistry : one.registry = other.registry :=
      Registry.ext_get? fun friend => (hagrees friend).entry.symm
    exact ⟨hregistry, Event.perm_of_about htold, htold⟩

/-- Two friends call, the first one hangs up and calls again, and the second one answers a call
that it placed itself. -/
def crowdedInbox : List Inbound :=
  [.signal ⟨1⟩ (.invite ⟨48, 0⟩), .signal ⟨2⟩ (.invite ⟨0, 500⟩), .signal ⟨1⟩ (.control .cancel),
    .signal ⟨2⟩ (.answer ⟨48, 0⟩), .signal ⟨1⟩ (.invite ⟨64, 500⟩)]

/-- The first friend's call rings again, and the fault of the second one is not told about it;
nor does it matter which of the two is heard first in the end. -/
theorem friends_isolated_in_crowd :
    let all := handleAll .standard ⟨.empty, []⟩ crowdedInbox
    let swapped := handleAll .standard ⟨.empty, []⟩
      (crowdedInbox.take 3 ++ [crowdedInbox[4], crowdedInbox[3]])
    all.registry.get? ⟨1⟩ = some (.incoming ⟨1⟩ ⟨64, 500⟩) ∧
      Event.about ⟨1⟩ all.events =
        [.call ⟨1⟩ ⟨true, false⟩, .callState ⟨1⟩ .ended, .call ⟨1⟩ ⟨true, true⟩] ∧
      crowdedInbox[3].friend ≠ crowdedInbox[4].friend ∧ all.registry = swapped.registry ∧
      all.events ≠ swapped.events := by
  intro all swapped
  obtain ⟨hcall, htold⟩ := (friends_isolated .standard .empty).1 crowdedInbox ⟨1⟩
  have hdifferent : crowdedInbox[3].friend ≠ crowdedInbox[4].friend := by decide
  have hswap := (friends_isolated .standard .empty).2 (crowdedInbox.take 3) []
    crowdedInbox[3] crowdedInbox[4] hdifferent
  refine ⟨hcall.trans (by decide), htold.trans (by decide), hdifferent, hswap.1, by decide⟩

end Progress

end PeerCalls
