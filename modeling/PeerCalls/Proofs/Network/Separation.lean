import PeerCalls.Session.Closing

/-!
# Networks that keep friends apart

To part from a call asks two things of the network: to tell the friend, and to release the
codecs.  A network keeps friends apart if what is asked about one friend and what is asked about
another may change places.  States are compared by a relation `Same`, which may be blind to what
does not matter, such as how the items of different friends are interleaved.  It may also ask for
more than that two states look alike, and then does not hold of every state and itself; whatever
is said of a state below is said of one that it does hold of.

On such a network the calls of a session may be parted from in any order (`release_perm`).  The
induction is on the permutation; parting from two calls is a composition of four requests, so
that these may change places rests on `interchange_comp` alone.
-/

namespace PeerCalls

namespace Network

variable {σ : Type}

/-- Tells a friend that the call is over.  Whether the friend can be told does not matter. -/
def hangUp (network : Network σ) (friend : Friend) (state : σ) : σ :=
  (network.sendSignal friend .hangUp state).2

/-- The network, with the signals to some friends refused. -/
def refusing (network : Network σ) (refusal? : Friend → Option NetworkError) : Network σ :=
  { network with
    sendSignal := fun friend signal state =>
      match refusal? friend with
      | some cause => (.error cause, state)
      | none => network.sendSignal friend signal state }

/-- The change does not tell apart what is the same. -/
def Respects (Same : σ → σ → Prop) (change : σ → σ) : Prop :=
  ∀ {state other}, Same state other → Same (change state) (change other)

/-- The two changes may change places. -/
def Interchange (Same : σ → σ → Prop) (first second : σ → σ) : Prop :=
  ∀ {state}, Same state state → Same (second (first state)) (first (second state))

/-- What is asked about one friend does not get in the way of what is asked about another. -/
structure Separates (network : Network σ) (Same : σ → σ → Prop) : Prop where
  symm : ∀ {state other}, Same state other → Same other state
  trans : ∀ {state other third}, Same state other → Same other third → Same state third
  hangUp : ∀ friend, Respects Same (network.hangUp friend)
  closeMedia : ∀ friend, Respects Same (network.closeMedia friend)
  detach : Respects Same network.detach
  hangUp_hangUp : ∀ {friend other}, friend ≠ other →
    Interchange Same (network.hangUp friend) (network.hangUp other)
  hangUp_closeMedia : ∀ {friend other}, friend ≠ other →
    Interchange Same (network.hangUp friend) (network.closeMedia other)
  closeMedia_closeMedia : ∀ {friend other}, friend ≠ other →
    Interchange Same (network.closeMedia friend) (network.closeMedia other)

namespace Separates

variable {network : Network σ} {Same : σ → σ → Prop} {state other : σ} {call next : Call}

theorem left (h : network.Separates Same) (hsame : Same state other) : Same state state :=
  h.trans hsame (h.symm hsame)

/-! ## Two changes, one after the other -/

theorem interchange_symm (h : network.Separates Same) {first second : σ → σ}
    (hswap : Interchange Same first second) : Interchange Same second first :=
  fun hstate => h.symm (hswap hstate)

theorem interchange_id {change : σ → σ} (hchange : Respects Same change) :
    Interchange Same id change :=
  fun hstate => hchange hstate

/-- What changes places with each of two changes does so with both of them. -/
theorem interchange_comp (h : network.Separates Same) {first second third : σ → σ}
    (hfirst : Respects Same first) (hsecond : Respects Same second)
    (hswap : Interchange Same first third) (hswap' : Interchange Same second third) :
    Interchange Same (second ∘ first) third := by
  intro state hstate
  have hinner : Same (second (third (first state))) (second (first (third state))) :=
    hsecond (hswap hstate)
  exact h.trans (hswap' (hfirst hstate)) hinner

/-! ## Parting from calls -/

/-- Tells the friend that the call is over, unless it is over already. -/
def told (network : Network σ) (call : Call) : σ → σ :=
  if call.isLive then network.hangUp call.friend else id

theorem release_eq (network : Network σ) (state : σ) (call : Call) :
    Call.release network state call =
      (network.closeMedia call.friend ∘ told network call) state := by
  unfold Call.release told
  split <;> rfl

theorem respects_told (h : network.Separates Same) (call : Call) :
    Respects Same (told network call) := by
  unfold told
  split
  · exact h.hangUp call.friend
  · exact fun hsame => hsame

theorem release_congr (h : network.Separates Same) (hsame : Same state other) (call : Call) :
    Same (Call.release network state call) (Call.release network other call) := by
  rw [release_eq, release_eq]
  exact h.closeMedia call.friend (h.respects_told call hsame)

theorem told_interchange {change : σ → σ} (hchange : Respects Same change)
    (hswap : Interchange Same (network.hangUp call.friend) change) :
    Interchange Same (told network call) change := by
  unfold told
  split
  · exact hswap
  · exact interchange_id hchange

/-- Two calls with different friends may be parted from in either order. -/
theorem release_release (h : network.Separates Same) (hne : call.friend ≠ next.friend)
    (hstate : Same state state) :
    Same (Call.release network (Call.release network state call) next)
      (Call.release network (Call.release network state next) call) := by
  have htold := h.respects_told
  -- each of the two requests of the one call changes places with each of the other
  have hhangUps : Interchange Same (told network call) (told network next) := by
    refine told_interchange (htold next) (h.interchange_symm ?_)
    exact told_interchange (h.hangUp _) (h.hangUp_hangUp hne.symm)
  have hfirst : Interchange Same (told network call) (network.closeMedia next.friend) :=
    told_interchange (h.closeMedia _) (h.hangUp_closeMedia hne)
  have hsecond : Interchange Same (told network next) (network.closeMedia call.friend) :=
    told_interchange (h.closeMedia _) (h.hangUp_closeMedia hne.symm)
  have hpart : Interchange Same (network.closeMedia call.friend ∘ told network call)
      (told network next) :=
    h.interchange_comp (htold call) (h.closeMedia _) hhangUps (h.interchange_symm hsecond)
  have hclose : Interchange Same (network.closeMedia call.friend ∘ told network call)
      (network.closeMedia next.friend) :=
    h.interchange_comp (htold call) (h.closeMedia _) hfirst (h.closeMedia_closeMedia hne)
  have hboth : Interchange Same (network.closeMedia next.friend ∘ told network next)
      (network.closeMedia call.friend ∘ told network call) :=
    h.interchange_comp (htold next) (h.closeMedia _) (h.interchange_symm hpart)
      (h.interchange_symm hclose)
  simp only [release_eq]
  exact h.interchange_symm hboth hstate

/-- The calls of different friends may be parted from in any order. -/
theorem release_perm (h : network.Separates Same) {calls order : List Call}
    (hperm : calls.Perm order)
    (hdistinct : calls.Pairwise fun call next => call.friend ≠ next.friend)
    (hsame : Same state other) :
    Same (calls.foldl (Call.release network) state)
      (order.foldl (Call.release network) other) := by
  induction hperm generalizing state other with
  | nil => exact hsame
  | cons call hperm ih =>
      obtain ⟨-, hrest⟩ := List.pairwise_cons.mp hdistinct
      exact ih hrest (h.release_congr hsame call)
  | swap call next rest =>
      obtain ⟨hnext, hrest⟩ := List.pairwise_cons.mp hdistinct
      -- what comes after the two calls keeps the same what is the same
      have hcongr : ∀ {state other}, Same state other →
          Same (rest.foldl (Call.release network) state)
            (rest.foldl (Call.release network) other) := by
        clear hdistinct hnext hrest
        induction rest with
        | nil => exact fun hsame => hsame
        | cons call rest ih => exact fun hsame => ih (h.release_congr hsame call)
      have hswap := h.release_release (hnext call List.mem_cons_self) (h.left hsame)
      have hlater := h.release_congr (h.release_congr hsame call) next
      exact hcongr (h.trans hswap hlater)
  | trans hperm _ ih ih' =>
      have hmiddle := hperm.pairwise hdistinct fun hne => hne.symm
      exact h.trans (ih hdistinct (h.left hsame)) (ih' hmiddle hsame)

/-! ## Refused signals -/

theorem hangUp_refusing (network : Network σ) (refusal? : Friend → Option NetworkError)
    (friend : Friend) :
    (network.refusing refusal?).hangUp friend = network.hangUp friend ∨
      (network.refusing refusal?).hangUp friend = id := by
  cases hrefusal : refusal? friend with
  | none =>
      left
      funext state
      simp only [Network.hangUp, refusing, hrefusal]
  | some cause =>
      right
      funext state
      simp only [Network.hangUp, refusing, hrefusal, id]

/-- Friends are kept apart whichever of them cannot be told anything. -/
theorem refusing (h : network.Separates Same) (refusal? : Friend → Option NetworkError) :
    (network.refusing refusal?).Separates Same where
  symm := h.symm
  trans := h.trans
  hangUp friend := by
    rcases hangUp_refusing network refusal? friend with heq | heq <;> rw [heq]
    · exact h.hangUp friend
    · exact fun hsame => hsame
  closeMedia := h.closeMedia
  detach := h.detach
  hangUp_hangUp {friend other} hne := by
    rcases hangUp_refusing network refusal? friend with heq | heq <;>
      rcases hangUp_refusing network refusal? other with heq' | heq' <;> rw [heq, heq']
    · exact h.hangUp_hangUp hne
    · exact h.interchange_symm (interchange_id (h.hangUp friend))
    · exact interchange_id (h.hangUp other)
    · exact fun hstate => hstate
  hangUp_closeMedia {friend other} hne := by
    rcases hangUp_refusing network refusal? friend with heq | heq <;> rw [heq]
    · exact h.hangUp_closeMedia hne
    · exact interchange_id (h.closeMedia other)
  closeMedia_closeMedia := h.closeMedia_closeMedia

end Separates

end Network

end PeerCalls
