import PeerCalls.Network.Recorded
import PeerCalls.Proofs.Duo.Agreement
import PeerCalls.Proofs.Loopback.Channels
import PeerCalls.Proofs.Registry.Map
import PeerCalls.Session.Closing
import PeerCalls.Session.Inbound

/-!
# Parting from every call

A session that closes parts from its calls one after the other, in the order of their friends.
The results below are about a session that parts from the same calls in any order.

What the network is asked about a friend is decided by the friend's call alone (`Parted`), also
if a push fails.  The proofs are inductions on the calls that are still to be parted from.  No
two of them are with one friend, so once the friend's own call is reached the rest asks nothing
about the friend.

What becomes of the network shows the order in one way only.  Friends of different numbers may be
one node, which then hears a hang-up from each of the numbers that it knows us by, and hears them
in the order of the calls (`Hub.inbox_partFrom`).  As long as every node hears from one number at
most, any order gives the same (`Hub.partFrom_eq_iff`).
-/

namespace PeerCalls

/-- The exchanges about a friend, in their order. -/
def Exchange.about (friend : Friend) (exchanges : List Exchange) : List Exchange :=
  exchanges.filter fun exchange => exchange.friend? = some friend

theorem Exchange.about_append (friend : Friend) (earlier later : List Exchange) :
    about friend (earlier ++ later) = about friend earlier ++ about friend later :=
  List.filter_append earlier later

/-- What the network is asked about a friend by a session that parts from the friend's call:
without a call nothing, otherwise to release the codecs, and before that, if the call is not over,
to hang up once.  The answer makes no difference. -/
inductive Parted (friend : Friend) : Option Call → List Exchange → Prop where
  | absent : Parted friend none []
  | finished {call : Call} (h : call.isLive = false) :
      Parted friend (some call) [.closeMedia friend]
  | live {call : Call} (h : call.isLive = true) (result : Except NetworkError Unit) :
      Parted friend (some call) [.signal friend .hangUp result, .closeMedia friend]

namespace Parted

variable {friend other : Friend} {call? : Option Call} {made : List Exchange}

theorem friend?_eq (h : Parted friend call? made) :
    ∀ exchange ∈ made, exchange.friend? = some friend := by
  intro exchange hmem
  cases h with
  | absent => cases hmem
  | finished => rw [List.mem_singleton.mp hmem, Exchange.friend?]
  | live =>
      rcases List.mem_pair.mp hmem with rfl | rfl
      · rfl
      · rfl

theorem about_eq (h : Parted friend call? made) : Exchange.about friend made = made := by
  refine List.filter_eq_self.mpr fun exchange hmem => ?_
  simpa using h.friend?_eq exchange hmem

theorem about_eq_nil (h : Parted friend call? made) (hne : friend ≠ other) :
    Exchange.about other made = [] := by
  refine List.filter_eq_nil_iff.mpr fun exchange hmem => ?_
  rw [h.friend?_eq exchange hmem]
  simpa using hne

/-- Without a call nothing is asked. -/
theorem eq_nil (h : Parted friend none made) : made = [] := by
  cases h
  rfl

/-- For a call that is over only the release is asked. -/
theorem eq_of_finished {call : Call} (h : Parted friend (some call) made)
    (hover : call.isLive = false) : made = [.closeMedia friend] := by
  cases h with
  | finished => rfl
  | live hlive => cases hlive.symm.trans hover

end Parted

namespace Network

variable {σ : Type}

/-- Parts from calls, in the order given, and gives the network back. -/
def partFrom (network : Network σ) (order : List Call) (state : σ) : σ :=
  network.detach (order.foldl (Call.release network) state)

/-! ## What is asked about a friend -/

theorem exchanges_release (network : Network σ) (state : Recorded σ) (call : Call) :
    ∃ made, (Call.release network.recorded state call).exchanges = state.exchanges ++ made ∧
      Parted call.friend (some call) made := by
  cases hlive : call.isLive with
  | false =>
      refine ⟨[.closeMedia call.friend], ?_, .finished hlive⟩
      simp [Call.release, hlive, recorded]
  | true =>
      have hasked : (Call.release network.recorded state call).exchanges = state.exchanges ++
          [.signal call.friend .hangUp (network.sendSignal call.friend .hangUp state.network).1,
            .closeMedia call.friend] := by
        simp [Call.release, hlive, recorded]
      exact ⟨_, hasked, .live hlive _⟩

/-- What is asked about each friend, when calls with different friends are parted from. -/
theorem exchanges_release_all (network : Network σ) {calls : List Call}
    (hdistinct : calls.Pairwise fun call next => call.friend ≠ next.friend)
    (state : Recorded σ) :
    ∃ made, (calls.foldl (Call.release network.recorded) state).exchanges =
        state.exchanges ++ made ∧
      (∀ exchange ∈ made, exchange.friend?.isSome) ∧
      ∀ friend, Parted friend (calls.find? fun call => call.friend = friend)
        (Exchange.about friend made) := by
  induction calls generalizing state with
  | nil => exact ⟨[], (List.append_nil _).symm, by simp, fun friend => .absent⟩
  | cons call rest ih =>
      obtain ⟨hcall, hrest⟩ := List.pairwise_cons.mp hdistinct
      obtain ⟨own, hown, hparted⟩ := exchanges_release network state call
      obtain ⟨later, hlater, hconcerns, heach⟩ :=
        ih hrest (Call.release network.recorded state call)
      refine ⟨own ++ later, ?_, fun exchange hmem => ?_, fun friend => ?_⟩
      · rw [List.foldl_cons, hlater, hown, List.append_assoc]
      · rcases List.mem_append.mp hmem with hmem | hmem
        · rw [hparted.friend?_eq exchange hmem]
          rfl
        · exact hconcerns exchange hmem
      · rw [Exchange.about_append]
        by_cases hfriend : call.friend = friend
        · subst hfriend
          -- no later call is with this friend
          have hnone : Exchange.about call.friend later = [] := by
            have hasked := heach call.friend
            rw [Registry.find?_eq_none_of_distinct hcall] at hasked
            exact hasked.eq_nil
          rw [List.find?_cons_of_pos (by simp), hnone, List.append_nil, hparted.about_eq]
          exact hparted
        · rw [List.find?_cons_of_neg (by simpa using hfriend), hparted.about_eq_nil hfriend]
          exact heach friend

end Network

/-! ## Hearing of the end -/

/-- A friend's hang-up ends the live call with the friend. -/
theorem Progress.handle_hangUp (config : Config) {progress : Progress} {friend : Friend}
    {call : Call} (hlive : progress.registry.live? friend = some call) :
    (progress.handle config (.signal friend .hangUp)).registry.get? friend =
      some (call.finish .ended) := by
  have hfits : call.after? .cancel = some (call.finish .ended) := by
    simp only [Call.after?, Registry.isLive_of_live? hlive, if_true]
  have hfriend : call.friend = friend := Registry.friend_of_live? hlive
  simp only [Signal.hangUp, handle, commanded, transitioned, hlive, hfits, change]
  rw [← hfriend]
  exact Registry.get?_set_self progress.registry (call.finish .ended)

/-! ## In whatever order the calls come -/

namespace Network

variable {σ : Type} {registry : Registry} {order : List Call}

theorem Separates.partFrom_perm {network : Network σ} {Same : σ → σ → Prop} {state : σ}
    (h : network.Separates Same) (hperm : order.Perm registry.calls) (hstate : Same state state) :
    Same (network.partFrom order state) (network.partFrom registry.calls state) :=
  h.detach (h.release_perm hperm (Registry.distinct_of_perm hperm) hstate)

end Network

namespace Hub

variable {hub other : Hub} {place remote : NodeId} {friend : Friend}
  {refusal? : Friend → Option NetworkError} {registry : Registry} {order : List Call}

/-- On a node of a hub the order shows at most in how the inboxes merge what they are sent. -/
theorem sameChannels_partFrom (hperm : order.Perm registry.calls)
    (refusal? : Friend → Option NetworkError) (place : NodeId) (hub : Hub) :
    let network := (node place).refusing refusal?
    SameChannels (network.partFrom order hub) (network.partFrom registry.calls hub) := by
  intro network
  have hseparates := (separates place).refusing refusal?
  exact hseparates.partFrom_perm hperm (.refl hub)

/-! ## What a node hears -/

/-- The hang-up that a node hears when the friend is told to hang up: this has to be the node
behind the friend. -/
def hangUpAt? (hub : Hub) (place remote : NodeId) (friend : Friend) : Option Inbound :=
  (hub.target? place friend).bind fun target =>
    if target.1 = remote then some (.signal target.2 .hangUp) else none

/-- What a node hears when a call is parted from: a hang-up, if the call is not over and the
friend may be told of that. -/
def toldAt? (hub : Hub) (place : NodeId) (refusal? : Friend → Option NetworkError)
    (remote : NodeId) (call : Call) : Option Inbound :=
  if call.isLive && (refusal? call.friend).isNone then hub.hangUpAt? place remote call.friend
  else none

theorem toldAt?_congr (hlinks : (hub.get place).links = (other.get place).links) :
    hub.toldAt? place refusal? remote = other.toldAt? place refusal? remote := by
  funext call
  simp only [toldAt?, hangUpAt?, target?_congr hlinks]

theorem inbox_hangUp (hremote : remote < hub.nodes.length) (place : NodeId) (friend : Friend) :
    (((node place).hangUp friend hub).get remote).inbox =
      (hub.get remote).inbox ++ (hub.hangUpAt? place remote friend).toList := by
  cases htarget : hub.target? place friend with
  | none => simp [hangUp_of_target?_none htarget, hangUpAt?, htarget]
  | some target =>
      rw [hangUp_of_target? htarget]
      by_cases hhere : target.1 = remote
      · subst hhere
        rw [get_update_self hremote]
        simp [Node.receive, hangUpAt?, htarget]
      · rw [get_update_of_ne (Ne.symm hhere)]
        simp [hangUpAt?, htarget, hhere]

theorem length_hangUp (hub : Hub) (place : NodeId) (friend : Friend) :
    ((node place).hangUp friend hub).nodes.length = hub.nodes.length := by
  cases htarget : hub.target? place friend with
  | none => rw [hangUp_of_target?_none htarget]
  | some target => rw [hangUp_of_target? htarget, length_update]

theorem release_refusing (refusal? : Friend → Option NetworkError) (place : NodeId)
    (hub : Hub) (call : Call) :
    Call.release ((node place).refusing refusal?) hub call =
      (node place).closeMedia call.friend
        (if call.isLive && (refusal? call.friend).isNone then (node place).hangUp call.friend hub
        else hub) := by
  cases hlive : call.isLive with
  | false => simp [Call.release, hlive, Network.refusing]
  | true =>
      cases hrefusal : refusal? call.friend <;>
        simp [Call.release, hlive, hrefusal, Network.refusing, Network.hangUp]

/-- Parting from a call adds to the inboxes what the friend is told, and keeps the links. -/
theorem inbox_release (refusal? : Friend → Option NetworkError) (place : NodeId)
    (hub : Hub) (call : Call) :
    let parted := Call.release ((node place).refusing refusal?) hub call
    parted.nodes.length = hub.nodes.length ∧
      (parted.get place).links = (hub.get place).links ∧
      ∀ remote < hub.nodes.length, (parted.get remote).inbox =
        (hub.get remote).inbox ++ (hub.toldAt? place refusal? remote call).toList := by
  intro parted
  have hclosed : ∀ (told : Hub) (remote : NodeId),
      (((node place).closeMedia call.friend told).get remote).inbox = (told.get remote).inbox :=
    fun told remote => field_update Node.inbox fun _ => rfl
  simp only [parted, release_refusing]
  refine ⟨(length_update ..).trans ?_, ?_, fun remote hremote => ?_⟩
  · split
    · exact length_hangUp ..
    · rfl
  · rw [links_closeMedia]
    split
    · exact links_hangUp ..
    · rfl
  · rw [hclosed, toldAt?]
    split
    · exact inbox_hangUp hremote ..
    · simp

theorem inbox_release_all (refusal? : Friend → Option NetworkError) (place : NodeId)
    (order : List Call) (hub : Hub) :
    let parted := order.foldl (Call.release ((node place).refusing refusal?)) hub
    parted.nodes.length = hub.nodes.length ∧
      ∀ remote < hub.nodes.length, (parted.get remote).inbox =
        (hub.get remote).inbox ++ order.filterMap (hub.toldAt? place refusal? remote) := by
  induction order generalizing hub with
  | nil => exact ⟨rfl, fun remote _ => (List.append_nil _).symm⟩
  | cons call rest ih =>
      obtain ⟨hlength, hlinks, hinbox⟩ := inbox_release refusal? place hub call
      obtain ⟨hlater, hinboxes⟩ := ih (Call.release ((node place).refusing refusal?) hub call)
      refine ⟨hlater.trans hlength, fun remote hremote => ?_⟩
      rw [List.foldl_cons, hinboxes remote (hlength.symm ▸ hremote), hinbox remote hremote,
        toldAt?_congr hlinks, List.append_assoc]
      cases htold : hub.toldAt? place refusal? remote call <;> simp [htold]

/-- Every node hears the hang-ups that arrive there in the order of the calls. -/
theorem inbox_partFrom (refusal? : Friend → Option NetworkError) (place : NodeId)
    (order : List Call) (hub : Hub) :
    let parted := ((node place).refusing refusal?).partFrom order hub
    parted.nodes.length = hub.nodes.length ∧
      ∀ remote < hub.nodes.length, (parted.get remote).inbox =
        (hub.get remote).inbox ++ order.filterMap (hub.toldAt? place refusal? remote) := by
  obtain ⟨hlength, hinbox⟩ := inbox_release_all refusal? place order hub
  refine ⟨(length_update ..).trans hlength, fun remote hremote => ?_⟩
  rw [← hinbox remote hremote]
  exact field_update Node.inbox fun _ => rfl

/-- The calls may be parted from in any order exactly if no node is told different things. -/
theorem partFrom_eq_iff (registry : Registry) (refusal? : Friend → Option NetworkError)
    (place : NodeId) (hub : Hub) :
    let network := (node place).refusing refusal?
    (∀ order : List Call, order.Perm registry.calls →
      network.partFrom order hub = network.partFrom registry.calls hub) ↔
    ∀ remote < hub.nodes.length,
      ∀ told ∈ registry.calls.filterMap (hub.toldAt? place refusal? remote),
        ∀ told' ∈ registry.calls.filterMap (hub.toldAt? place refusal? remote), told = told' := by
  intro network
  constructor
  · intro hsame remote hremote told htold told' htold'
    obtain ⟨call, hcall, hat⟩ := List.mem_filterMap.mp htold
    obtain ⟨next, hnext, hat'⟩ := List.mem_filterMap.mp htold'
    by_cases hone : next = call
    · subst hone
      exact Option.some.inj (hat.symm.trans hat')
    · -- part from the two calls first, the one before the other or the other way round
      have hperm : registry.calls.Perm
          (call :: next :: (registry.calls.erase call).erase next) :=
        (List.perm_cons_erase hcall).trans
          ((List.perm_cons_erase ((List.mem_erase_of_ne hone).mpr hnext)).cons call)
      have horders := (hsame _ hperm.symm).trans
        (hsame _ ((List.Perm.swap call next _).trans hperm.symm)).symm
      have hinboxes := congrArg (fun hub : Hub => (hub.get remote).inbox) horders
      simp only [network, (inbox_partFrom refusal? place _ hub).2 remote hremote,
        List.filterMap_cons_some hat, List.filterMap_cons_some hat'] at hinboxes
      exact (List.cons.inj (List.append_cancel_left hinboxes)).1
  · intro hone order hperm
    obtain ⟨hlength, hinbox⟩ := inbox_partFrom refusal? place order hub
    obtain ⟨-, hinbox'⟩ := inbox_partFrom refusal? place registry.calls hub
    refine (sameChannels_partFrom hperm refusal? place hub).eq_of_inboxes fun remote hplace => ?_
    have hremote : remote < hub.nodes.length := hlength ▸ hplace
    rw [hinbox remote hremote, hinbox' remote hremote]
    -- what the node is told is the same list, since it is the same thing over and over
    have htold := hperm.filterMap (hub.toldAt? place refusal? remote)
    have htrivial : ∀ list : List Inbound, list.Pairwise fun _ _ => True :=
      fun list => List.pairwise_of_forall fun _ _ => trivial
    refine congrArg _ (htold.eq_of_pairwise ?_ (htrivial _) (htrivial _))
    intro told told' hmem hmem' _ _
    exact hone remote hremote told (htold.mem_iff.mp hmem) told' hmem'

end Hub

namespace Wiring

variable {wiring : Wiring} {side : Side} {hub : Hub} {call : Call}

/-! ## What the other side hears -/

theorem toldAt?_of_number (h : wiring.Joins hub) (hlive : call.isLive = true)
    (hfriend : call.friend = wiring.number side) :
    hub.toldAt? (wiring.place side) (fun _ => none) (wiring.place side.other) call =
      some (.signal (wiring.number side.other) .hangUp) := by
  obtain ⟨status, hconnected, hlink⟩ := h.linked side
  have htarget : hub.target? (wiring.place side) call.friend =
      some (wiring.place side.other, wiring.number side.other) := by
    simp [Hub.target?, Node.route, hfriend, hlink, hconnected]
  simp [Hub.toldAt?, Hub.hangUpAt?, hlive, htarget]

/-- No other friend is the other side. -/
theorem toldAt?_of_ne (h : wiring.Joins hub) (hfriend : call.friend ≠ wiring.number side) :
    hub.toldAt? (wiring.place side) (fun _ => none) (wiring.place side.other) call = none := by
  cases htarget : hub.target? (wiring.place side) call.friend with
  | none => simp [Hub.toldAt?, Hub.hangUpAt?, htarget]
  | some target =>
      obtain ⟨link, hlink, hremote⟩ := Hub.link_of_target? htarget
      have haway := h.elsewhere side call.friend link target.1 target.2 hfriend hlink hremote
      simp [Hub.toldAt?, Hub.hangUpAt?, htarget, haway side.other]

/-- The inbox of the other side ends with one hang-up more, if the call with it is not over. -/
theorem inbox_partFrom {registry : Registry} {order : List Call} (h : wiring.Joins hub)
    (hperm : order.Perm registry.calls)
    (hcall : registry.isInCall (wiring.number side) = true) :
    (((wiring.network side).partFrom order hub).get (wiring.place side.other)).inbox =
      (hub.get (wiring.place side.other)).inbox ++
        [.signal (wiring.number side.other) .hangUp] := by
  obtain ⟨call, hlive⟩ := Option.isSome_iff_exists.mp hcall
  have hmem := List.perm_cons_erase (Registry.mem_of_get? (Registry.get?_of_live? hlive))
  have hfriend := Registry.friend_of_live? hlive
  obtain ⟨hothers, -⟩ := List.pairwise_cons.mp (Registry.distinct_of_perm hmem.symm)
  -- the other calls are with other friends, and so nothing comes of them
  have hnothing : (registry.calls.erase call).filterMap (hub.toldAt? (wiring.place side)
      (fun _ => none) (wiring.place side.other)) = [] := by
    refine List.filterMap_eq_nil_iff.mpr fun next hnext => toldAt?_of_ne h ?_
    rw [← hfriend]
    exact (hothers next hnext).symm
  have htold := (hperm.trans hmem).filterMap (hub.toldAt? (wiring.place side)
    (fun _ => none) (wiring.place side.other))
  rw [List.filterMap_cons_some (toldAt?_of_number h (Registry.isLive_of_live? hlive) hfriend),
    hnothing] at htold
  rw [← List.perm_singleton.mp htold]
  exact (Hub.inbox_partFrom (fun _ => none) _ order hub).2 _ (h.place_lt side.other)

end Wiring

namespace Session

theorem close_eq {σ : Type} {session : Session} (hopen : session.closed = false)
    (network : Network σ) (state : σ) : session.close network state =
      ⟨(), { session with registry := .empty, closed := true, listener := none },
        network.partFrom session.registry.calls state⟩ := by
  simp only [close, hopen, Bool.false_eq_true, if_false, Registry.drain, Network.partFrom]

/-- Closing leaves no call and no listener, whatever the network answers, and the network is
asked about each friend what the friend's call alone decides, before it is given back.  The calls
may be parted from in any order: on a network that keeps friends apart this makes no difference.
On a node of a hub all channels are the same whichever pushes are refused, and every inbox gets
the hang-ups that arrive there in the order of the calls; so the whole hub is the same in any
order exactly if no node is told by different numbers.  A linked friend with a live call finds one
hang-up more in its inbox, and it ends the call when it hears that. -/
theorem parted_by_close (session : Session) (hopen : session.closed = false) :
    (∀ (σ : Type) (network : Network σ) (state : σ), session.close network state =
      ⟨(), { session with registry := .empty, closed := true, listener := none },
        network.partFrom session.registry.calls state⟩) ∧
    (∀ order : List Call, order.Perm session.registry.calls →
      (∀ (σ : Type) (network : Network σ) (state : Recorded σ), ∃ made,
        (network.recorded.partFrom order state).exchanges =
          state.exchanges ++ made ++ [.detach] ∧
        (∀ exchange ∈ made, exchange.friend?.isSome) ∧
        ∀ friend, Parted friend (session.call? friend) (Exchange.about friend made)) ∧
      (∀ (σ : Type) (network : Network σ) (Same : σ → σ → Prop), network.Separates Same →
        ∀ state, Same state state →
          Same (network.partFrom order state) (session.close network state).network) ∧
      (∀ (refusal? : Friend → Option NetworkError) (place : NodeId) (hub : Hub),
        let network := (Hub.node place).refusing refusal?
        Hub.SameChannels (network.partFrom order hub) (session.close network hub).network ∧
          ∀ remote < hub.nodes.length, ((network.partFrom order hub).get remote).inbox =
            (hub.get remote).inbox ++ order.filterMap (hub.toldAt? place refusal? remote)) ∧
      ∀ (wiring : Wiring) (side : Side) (hub : Hub), wiring.Joins hub →
        session.registry.isInCall (wiring.number side) = true →
        let told : Inbound := .signal (wiring.number side.other) .hangUp
        (((wiring.network side).partFrom order hub).get (wiring.place side.other)).inbox =
            (hub.get (wiring.place side.other)).inbox ++ [told] ∧
          ∀ (config : Config) (progress : Progress) (call : Call),
            progress.registry.live? told.friend = some call →
              (progress.handle config told).registry.get? told.friend =
                some (call.finish .ended)) ∧
    ∀ (refusal? : Friend → Option NetworkError) (place : NodeId) (hub : Hub),
      let network := (Hub.node place).refusing refusal?
      (∀ order : List Call, order.Perm session.registry.calls →
        network.partFrom order hub = (session.close network hub).network) ↔
      ∀ remote < hub.nodes.length,
        ∀ told ∈ session.registry.calls.filterMap (hub.toldAt? place refusal? remote),
          ∀ told' ∈ session.registry.calls.filterMap (hub.toldAt? place refusal? remote),
            told = told' := by
  refine ⟨fun σ network state => close_eq hopen network state, fun order hperm => ?_,
    fun refusal? place hub => ?_⟩
  · refine ⟨fun σ network state => ?_, fun σ network Same hseparates state hstate => ?_,
      fun refusal? place hub => ?_, fun wiring side hub hjoins hcall => ⟨?_, ?_⟩⟩
    · obtain ⟨made, hmade, hconcerns, heach⟩ :=
        network.exchanges_release_all (Registry.distinct_of_perm hperm) state
      refine ⟨made, ?_, hconcerns, fun friend => ?_⟩
      · rw [← hmade]
        rfl
      · rw [call?, ← Registry.find?_of_perm hperm]
        exact heach friend
    · rw [close_eq hopen]
      exact hseparates.partFrom_perm hperm hstate
    · intro network
      rw [close_eq hopen]
      exact ⟨Hub.sameChannels_partFrom hperm refusal? place hub,
        (Hub.inbox_partFrom refusal? place order hub).2⟩
    · exact Wiring.inbox_partFrom hjoins hperm hcall
    · intro config progress call hlive
      exact progress.handle_hangUp config hlive
  · intro network
    rw [close_eq hopen]
    exact Hub.partFrom_eq_iff session.registry refusal? place hub

/-- Two friends are in calls, and the call with the one between them is over. -/
def crowded : Session :=
  let ended : Call := (Call.incoming ⟨2⟩ ⟨48, 0⟩).finish .ended
  { fresh .standard Config.standard_usable with
    registry := ((Registry.empty.set (.outgoing ⟨1⟩ ⟨48, 0⟩)).set ended).set
      (.incoming ⟨3⟩ ⟨0, 500⟩)
    listener := some ⟨7⟩ }

/-- Three linked nodes; the first one knows the others as its friends 1 and 3. -/
def threeNodes : Hub := ((Hub.fresh 3).connect 0 ⟨3⟩ 2 ⟨0⟩).connect 0 ⟨1⟩ 1 ⟨0⟩

theorem joins_threeNodes : Duo.pairWiring.Joins threeNodes := by
  refine Duo.pairWiring.joins_connect (fun side => ?_)
    fun side friend link remote asSeen _ hlink hremote own => ?_
  · cases side <;> decide
  · have hmem := Node.mem_links_of_link? hlink
    have haway : ∀ side own, ∀ entry ∈ (((Hub.fresh 3).connect 0 ⟨3⟩ 2 ⟨0⟩).get
        (Duo.pairWiring.place side)).links, ∀ target ∈ entry.2.remote,
          target.1 ≠ Duo.pairWiring.place own := by
      intro side own
      cases side <;> cases own <;> decide
    exact haway side own _ hmem _ hremote

/-- One of the two friends in calls cannot be told, and the calls are parted from backwards. -/
theorem parted_by_close_crowd :
    let network := (Hub.node 0).refusing fun friend =>
      if friend = ⟨3⟩ then some .queueFull else none
    let backwards := crowded.registry.calls.reverse
    (crowded.close network threeNodes).session.registry = .empty ∧
      network.partFrom backwards threeNodes = (crowded.close network threeNodes).network ∧
      (∃ made, (network.recorded.partFrom backwards ⟨threeNodes, []⟩).exchanges =
          made ++ [.detach] ∧
        Exchange.about ⟨2⟩ made = [.closeMedia ⟨2⟩] ∧ Exchange.about ⟨4⟩ made = []) ∧
      (((Hub.node 0).partFrom backwards threeNodes).get 1).inbox = [.signal ⟨0⟩ .hangUp] := by
  intro network backwards
  obtain ⟨hclose, hparted, hexact⟩ := parted_by_close crowded rfl
  have hperm : backwards.Perm crowded.registry.calls := List.reverse_perm _
  obtain ⟨hasked, -, -, hheard⟩ := hparted backwards hperm
  refine ⟨?_, ?_, ?_, ?_⟩
  · rw [hclose]
  · exact (hexact _ 0 threeNodes).mpr (by decide) backwards hperm
  · obtain ⟨made, hmade, -, heach⟩ := hasked Hub network ⟨threeNodes, []⟩
    refine ⟨made, hmade, ?_, ?_⟩
    · have hover : crowded.call? ⟨2⟩ = some ((Call.incoming ⟨2⟩ ⟨48, 0⟩).finish .ended) := by
        decide
      have hasked := heach ⟨2⟩
      rw [hover] at hasked
      exact hasked.eq_of_finished rfl
    · exact (heach ⟨4⟩).eq_nil
  · exact (hheard Duo.pairWiring .left threeNodes joins_threeNodes (by decide)).1

/-- Two nodes that are friends of each other twice: the first one knows the second one as 1 and as
2, and is known as 5 and as 6. -/
def linkedTwice : Hub := ((Hub.fresh 2).connect 0 ⟨1⟩ 1 ⟨5⟩).connect 0 ⟨2⟩ 1 ⟨6⟩

/-- The first of these nodes in calls with both of its friends. -/
def inTwoCalls : Station Hub :=
  let start : Station Hub := ⟨fresh .standard Config.standard_usable,
    ((Hub.node 0).attach linkedTwice).2⟩
  start.run (Hub.node 0) [.perform (.call ⟨1⟩ ⟨48, 0⟩), .perform (.call ⟨2⟩ ⟨48, 0⟩)]

/-- The one node behind both friends hears a hang-up for each call, in the order of the calls. -/
theorem order_shows_inTwoCalls :
    let backwards := inTwoCalls.session.registry.calls.reverse
    let closed := (inTwoCalls.session.close (Hub.node 0) inTwoCalls.state).network
    let parted := (Hub.node 0).partFrom backwards inTwoCalls.state
    inTwoCalls.session.closed = false ∧ backwards.Perm inTwoCalls.session.registry.calls ∧
      (closed.get 1).inbox = (inTwoCalls.state.get 1).inbox ++
        [.signal ⟨5⟩ .hangUp, .signal ⟨6⟩ .hangUp] ∧
      (parted.get 1).inbox = (inTwoCalls.state.get 1).inbox ++
        [.signal ⟨6⟩ .hangUp, .signal ⟨5⟩ .hangUp] ∧
      parted ≠ closed := by
  intro backwards closed parted
  exact ⟨rfl, List.reverse_perm _, by decide, by decide, by decide⟩

end Session

end PeerCalls
