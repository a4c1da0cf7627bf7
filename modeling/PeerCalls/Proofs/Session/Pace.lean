import PeerCalls.Proofs.Session.Draining
import PeerCalls.Proofs.Session.Reached

/-!
# The wait between rounds

A round tells how long to wait: the shortest interval among some streams, or the idle interval
if there are none (`Config.shortest`).  Two passes over the calls that are left decide which
streams count, and they do not agree.  Frames are asked for in the streams that flow and are not
withheld, but the wait is that of all streams that flow, withheld or not.

So the wait is right as long as each kind of stream that flows in some call is asked for in some
call (`paced_by_flowing`), and it is never longer than the interval of a kind that is asked for.
A call that is muted keeps the rounds at the pace of its frames all the same.
-/

namespace PeerCalls

/-! ## The shortest of some intervals -/

/-- Only what is in a list matters for its least element. -/
theorem min?_eq_of_mem_iff {first second : List UInt64}
    (h : ∀ interval, interval ∈ first ↔ interval ∈ second) : first.min? = second.min? := by
  refine Option.ext fun least => ?_
  simp only [List.min?_eq_some_iff, h]

namespace Config

/-- The intervals of the kinds of streams that are active. -/
def activeIntervals (config : Config) (active : MediaKind → Bool) : List UInt64 :=
  (MediaKind.all.filter active).map config.frameIntervals.get

/-- The shortest interval of the kinds of streams that are active; the idle one if none is. -/
def shortest (config : Config) (active : MediaKind → Bool) : UInt64 :=
  (config.activeIntervals active).min?.getD config.idleInterval

variable {config : Config} {active : MediaKind → Bool}

theorem mem_activeIntervals_iff (config : Config) {interval : UInt64} :
    interval ∈ config.activeIntervals active ↔
      ∃ kind, active kind = true ∧ config.frameIntervals.get kind = interval := by
  simp only [activeIntervals, List.mem_map, List.mem_filter]
  exact exists_congr fun kind => by cases kind <;> simp [MediaKind.all]

theorem shortest_of_inactive (h : ∀ kind, active kind = false) :
    config.shortest active = config.idleInterval := by
  simp [shortest, activeIntervals, MediaKind.all, h]

theorem shortest_isLeast (config : Config) {kind : MediaKind} (h : active kind = true) :
    config.shortest active ∈ config.activeIntervals active ∧
      ∀ interval ∈ config.activeIntervals active, config.shortest active ≤ interval := by
  have hmem := (mem_activeIntervals_iff config).mpr ⟨kind, h, rfl⟩
  unfold shortest
  cases hleast : (config.activeIntervals active).min? with
  | none => simp [List.min?_eq_none_iff.mp hleast] at hmem
  | some least => exact List.min?_eq_some_iff.mp hleast

theorem shortest_le {kind : MediaKind} (h : active kind = true) :
    config.shortest active ≤ config.frameIntervals.get kind :=
  (shortest_isLeast config h).2 _ ((mem_activeIntervals_iff config).mpr ⟨kind, h, rfl⟩)

/-- The shortest interval is that of an active kind, or the idle one if there is none. -/
theorem shortest_cases (config : Config) (active : MediaKind → Bool) :
    (∃ kind, active kind = true ∧ config.shortest active = config.frameIntervals.get kind) ∨
      (∀ kind, active kind = false) ∧ config.shortest active = config.idleInterval := by
  by_cases hactive : ∃ kind, active kind = true
  · obtain ⟨kind, hkind⟩ := hactive
    have hamong := (shortest_isLeast config hkind).1
    obtain ⟨least, hleast, hinterval⟩ := (mem_activeIntervals_iff config).mp hamong
    exact Or.inl ⟨least, hleast, hinterval.symm⟩
  · have hnone : ∀ kind, active kind = false := fun kind => by
      simpa using fun hkind => hactive ⟨kind, hkind⟩
    exact Or.inr ⟨hnone, shortest_of_inactive hnone⟩

/-- No interval of a usable configuration is zero. -/
theorem Usable.shortest_ne_zero (h : config.Usable) : config.shortest active ≠ 0 := by
  obtain ⟨-, ⟨hidle, haudio, hvideo⟩, -⟩ := usable_iff.mp h
  rcases shortest_cases config active with ⟨kind, -, hinterval⟩ | ⟨-, hinterval⟩
  · rw [hinterval]
    cases kind with
    | audio => exact haudio
    | video => exact hvideo
  · rw [hinterval]
    exact hidle

section Fewer

variable {fewer : MediaKind → Bool}

/-- With more kinds the shortest interval gets shorter if and only if a new one has a shorter
one. -/
theorem shortest_lt_iff (h : ∀ kind, fewer kind = true → active kind = true) :
    config.shortest active < config.shortest fewer ↔
      ∃ kind, active kind = true ∧ fewer kind = false ∧
        config.frameIntervals.get kind < config.shortest fewer := by
  constructor
  · intro hlt
    rcases shortest_cases config active with ⟨least, hleast, hinterval⟩ | ⟨hnone, hinterval⟩
    · rw [hinterval] at hlt
      refine ⟨least, hleast, ?_, hlt⟩
      -- a kind that is among the fewer ones bounds their shortest interval
      by_contra hamong
      exact UInt64.not_le.mpr hlt (shortest_le (by simpa using hamong))
    · have hfewer : ∀ kind, fewer kind = false := fun kind => by
        by_contra hamong
        have hkind := h kind (by simpa using hamong)
        rw [hnone kind] at hkind
        cases hkind
      rw [hinterval, shortest_of_inactive hfewer] at hlt
      exact absurd hlt (UInt64.lt_irrefl _)
  · rintro ⟨kind, hkind, -, hlt⟩
    exact UInt64.lt_of_le_of_lt (shortest_le hkind) hlt

/-- With more kinds the shortest interval gets longer if and only if there were none before, and
all new ones have a longer interval than the idle one. -/
theorem lt_shortest_iff (h : ∀ kind, fewer kind = true → active kind = true) :
    config.shortest fewer < config.shortest active ↔
      (∀ kind, fewer kind = false) ∧ (∃ kind, active kind = true) ∧
        ∀ kind, active kind = true → config.idleInterval < config.frameIntervals.get kind := by
  constructor
  · intro hlt
    rcases shortest_cases config fewer with ⟨least, hleast, hinterval⟩ | ⟨hfewer, hidle⟩
    · rw [hinterval] at hlt
      exact absurd (shortest_le (h least hleast)) (UInt64.not_le.mpr hlt)
    rw [hidle] at hlt
    rcases shortest_cases config active with ⟨least, hleast, -⟩ | ⟨-, hinterval⟩
    · exact ⟨hfewer, ⟨least, hleast⟩, fun kind hkind =>
        UInt64.lt_of_lt_of_le hlt (shortest_le hkind)⟩
    · rw [hinterval] at hlt
      exact absurd hlt (UInt64.lt_irrefl _)
  · rintro ⟨hfewer, ⟨kind, hkind⟩, hlonger⟩
    rw [shortest_of_inactive hfewer]
    rcases shortest_cases config active with ⟨least, hleast, hinterval⟩ | ⟨hnone, -⟩
    · rw [hinterval]
      exact hlonger least hleast
    · rw [hnone kind] at hkind
      cases hkind

end Fewer

/-! ## The calls in any order -/

/-- The shorter of what was found so far, if anything, and one more interval. -/
def sooner (found : Option UInt64) (interval : UInt64) : Option UInt64 :=
  some (found.elim interval (min · interval))

/-- The wait as it is found by going through the calls one by one, in whatever order. -/
def paceAlong (config : Config) (calls : List Call) : UInt64 :=
  (calls.foldl (fun found call => (config.activeIntervals call.state.sends).foldl sooner found)
    none).getD config.idleInterval

theorem foldl_sooner_some (intervals : List UInt64) (least : UInt64) :
    intervals.foldl sooner (some least) = some (intervals.foldl min least) := by
  induction intervals generalizing least with
  | nil => rfl
  | cons interval later ih => exact ih (min least interval)

theorem foldl_sooner (intervals : List UInt64) :
    intervals.foldl sooner none = intervals.min? := by
  cases intervals with
  | nil => rfl
  | cons first later => exact foldl_sooner_some later first

/-- Going through the calls finds the shortest interval of a kind that flows in some of them. -/
theorem paceAlong_eq (config : Config) (calls : List Call) :
    config.paceAlong calls =
      config.shortest fun kind => calls.any fun call => call.state.sends kind := by
  rw [paceAlong, ← List.foldl_flatMap, foldl_sooner, shortest]
  congr 1
  refine min?_eq_of_mem_iff fun interval => ?_
  rw [List.mem_flatMap, mem_activeIntervals_iff]
  simp only [mem_activeIntervals_iff, List.any_eq_true]
  constructor
  · rintro ⟨call, hmem, kind, hsends, hinterval⟩
    exact ⟨kind, ⟨call, hmem, hsends⟩, hinterval⟩
  · rintro ⟨kind, ⟨call, hmem, hsends⟩, hinterval⟩
    exact ⟨call, hmem, kind, hsends, hinterval⟩

theorem pace_eq (config : Config) (registry : Registry) :
    config.pace registry =
      config.shortest fun kind => registry.calls.any fun call => call.state.sends kind := by
  unfold pace shortest activeIntervals
  cases haudio : registry.calls.any fun call => call.state.sends .audio <;>
    cases hvideo : registry.calls.any fun call => call.state.sends .video <;>
      simp [MediaKind.all, haudio, hvideo, Streams.get, List.min?]

end Config

/-- Whether the event asks for a frame of the kind. -/
def Event.asksFor (kind : MediaKind) : Event → Bool
  | .frameRequest _ asked => asked = kind
  | _ => false

namespace Session

variable {σ : Type} (network : Network σ) (session : Session) (state : σ)

/-- A round asks for the kinds of frames that may be sent in some call that is left. -/
theorem any_asksFor_batch (kind : MediaKind) :
    (session.batch network state).any (Event.asksFor kind) =
      (session.round network state).session.registry.calls.any fun call => call.canSend kind := by
  refine Bool.eq_iff_iff.mpr ?_
  simp only [List.any_eq_true]
  constructor
  · rintro ⟨event, hmem, hasks⟩
    cases event with
    | frameRequest friend asked =>
        obtain rfl : asked = kind := of_decide_eq_true hasks
        have hrequest : .frameRequest friend asked ∈ session.requests network state := by
          rw [← session.inPhase_requests_batch network state]
          exact List.mem_filter.mpr ⟨hmem, rfl⟩
        obtain ⟨call, hcall, hsend⟩ := (session.mem_requests_iff network state).mp hrequest
        exact ⟨call, Registry.mem_of_get? hcall, hsend⟩
    | _ => cases hasks
  · rintro ⟨call, hmem, hsend⟩
    have hrequest := (session.mem_requests_iff network state).mpr
      ⟨call, Registry.mem_calls_iff.mp hmem, hsend⟩
    exact ⟨_, List.mem_append_right _ hrequest, decide_eq_true rfl⟩

/-- The wait that a round of an open session asks for is the shortest interval of a kind of
stream that flows in some call that is left, withheld or not, and the idle interval if there is
none.  In whatever order the calls are gone through, the wait is the same, and it is not zero.

Every kind that is asked for flows, so the wait is never longer than the interval of a kind
that is asked for, and it is the shortest of these intervals if all kinds that flow are asked
for.  It is too short if and only if a kind that flows but is not asked for has a shorter
interval, and too long if and only if nothing is asked for although some streams flow, and the
intervals of these are longer than the idle one. -/
theorem paced_by_flowing (hopen : session.closed = false) (hidle : session.isIterating = false) :
    let outcome := session.iterate network state
    let kept := outcome.session.registry.calls
    let flowing kind := kept.any fun call => call.state.sends kind
    let asked kind := (session.batch network state).any (Event.asksFor kind)
    let intervals := session.config.frameIntervals
    outcome.answer = session.config.shortest flowing ∧
    (∀ order, order.Perm kept → session.config.paceAlong order = outcome.answer) ∧
    outcome.answer ≠ 0 ∧
    (∀ kind, asked kind = true →
      flowing kind = true ∧ outcome.answer ≤ intervals.get kind) ∧
    ((∀ kind, flowing kind = true → asked kind = true) →
      outcome.answer = session.config.shortest asked) ∧
    (outcome.answer < session.config.shortest asked ↔
      ∃ kind, flowing kind = true ∧ asked kind = false ∧
        intervals.get kind < session.config.shortest asked) ∧
    (session.config.shortest asked < outcome.answer ↔
      (∀ kind, asked kind = false) ∧ (∃ kind, flowing kind = true) ∧
        ∀ kind, flowing kind = true → session.config.idleInterval < intervals.get kind) := by
  intro outcome kept flowing asked intervals
  have hround : outcome = session.round network state := iterate_of_open network state hopen hidle
  have hanswer : outcome.answer = session.config.shortest flowing := by
    have hpace : outcome.answer = session.config.pace outcome.session.registry := by
      rw [hround, registry_round, round_eq]
    rw [hpace, Config.pace_eq]
  have hflowing : ∀ kind, asked kind = true → flowing kind = true := by
    intro kind hasked
    have hsend : kept.any (fun call => call.canSend kind) = true := by
      rw [← hasked, show asked kind = _ from session.any_asksFor_batch network state kind, ← hround]
    obtain ⟨call, hmem, hcan⟩ := List.any_eq_true.mp hsend
    exact List.any_eq_true.mpr ⟨call, hmem, (Bool.and_eq_true_iff.mp hcan).1⟩
  refine ⟨hanswer, fun order hperm => ?_, ?_, fun kind hasked => ?_, fun hall => ?_, ?_, ?_⟩
  · rw [hanswer, Config.paceAlong_eq]
    exact congrArg _ (funext fun kind => hperm.any_eq)
  · rw [hanswer]
    exact session.usable.shortest_ne_zero
  · exact ⟨hflowing kind hasked, hanswer ▸ Config.shortest_le (hflowing kind hasked)⟩
  · rw [hanswer]
    exact congrArg _ (funext fun kind => Bool.eq_iff_iff.mpr ⟨hall kind, hflowing kind⟩)
  · rw [hanswer]
    exact Config.shortest_lt_iff hflowing
  · rw [hanswer]
    exact Config.lt_shortest_iff hflowing

/-- An audio call with one friend, muted by us, and a video call with another one. -/
def mutedTalk : Station Hub :=
  let hub := ((Hub.fresh 1).update 0 (·.addFriend ⟨1⟩ .udp)).update 0 (·.addFriend ⟨2⟩ .udp)
  let start : Station Hub :=
    ⟨.fresh .standard Config.standard_usable, ((Hub.node 0).attach hub).2⟩
  start.run (Hub.node 0)
    ([.perform (.call ⟨1⟩ ⟨48, 0⟩), .perform (.call ⟨2⟩ ⟨0, 500⟩),
      .drift fun hub => hub.update 0 (·.receive (.signal ⟨1⟩ (.answer ⟨48, 0⟩))),
      .drift fun hub => hub.update 0 (·.receive (.signal ⟨2⟩ (.answer ⟨0, 500⟩))),
      .perform .iterate, .perform (.control ⟨1⟩ .muteAudio)] ++ List.replicate 5 .deliver)

/-- The round asks for video only, which is due every 40 ms, but comes back after 20 ms. -/
theorem paced_by_flowing_mutedTalk :
    let outcome := mutedTalk.session.iterate (Hub.node 0) mutedTalk.state
    let asked kind :=
      (mutedTalk.session.batch (Hub.node 0) mutedTalk.state).any (Event.asksFor kind)
    (asked .audio = false ∧ asked .video = true) ∧
      outcome.answer < mutedTalk.session.config.shortest asked ∧ outcome.answer ≠ 0 := by
  intro outcome asked
  obtain ⟨-, -, hpositive, -, -, hshorter, -⟩ :=
    paced_by_flowing (Hub.node 0) mutedTalk.session mutedTalk.state (by decide) (by decide)
  exact ⟨by decide, hshorter.mpr ⟨.audio, by decide, by decide, by decide⟩, hpositive⟩

/-- With the video hidden as well a round asks for nothing, but still does not wait for the idle
interval. -/
theorem restless_when_withheld :
    let station := mutedTalk.after (Hub.node 0) (.perform (.control ⟨2⟩ .hideVideo))
    let outcome := station.session.iterate (Hub.node 0) station.state
    (station.session.closed = false ∧ station.session.isIterating = false) ∧
      station.session.batch (Hub.node 0) station.state = [] ∧
      station.session.config.idleInterval = 200 ∧ outcome.answer = 20 := by
  decide

end Session

end PeerCalls
