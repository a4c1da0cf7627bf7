import PeerCalls.Loopback
import PeerCalls.Proofs.Network.Exchanges
import PeerCalls.Proofs.Session.Requests
import PeerCalls.Proofs.Session.Story

/-!
# What a report of a rate says

A change of rate ends in one of three ways: it is refused or cannot be announced, and then
nothing is changed and nobody is told; the link does not carry the rate, and then the report
names the old rate; or the rate is announced and taken.  In the last two cases the listener is
told what the caller is told, and the rate in the report is the one in force.

A rate that is taken moves the call to the state that the new rates ask for.  A paused call
stays paused, and this state is the one it goes back to.
-/

namespace PeerCalls

/-- What becomes of a call whose rate changes: it runs as the new rates say, or it stays paused
and will run so after the pause. -/
theorem Call.withRate_cases {call : Call} (hlive : call.isLive = true)
    (hring : call.state.isRinging = false) (kind : MediaKind) (rate : UInt32) :
    let rates := call.rates.set rate kind
    call.state.isEstablished = true ∧
        call.withRate kind rate = { call with rates, state := .running rates } ∨
      call.state = .paused ∧
        call.withRate kind rate = { call with rates, pausedFrom := some (.running rates) } := by
  rcases isEstablished_or_isPaused hlive hring with hestablished | hpaused
  · exact Or.inl ⟨hestablished, withRate_of_isEstablished hestablished kind rate⟩
  · exact Or.inr ⟨hpaused, withRate_of_isPaused hpaused kind rate⟩

namespace Session

variable {σ : Type} {network : Network σ} {session : Session} {friend : Friend}
  {kind : MediaKind} {rate : UInt32} {force carries : Bool}

/-- The link counts as too weak if it was asked and said so. -/
theorem linkCarries_eq_false_iff {state : σ} :
    (linkCarries network state friend kind rate force).1 = false ↔
      force = false ∧ rate ≠ 0 ∧ (network.linkStable friend kind rate state).1 = false := by
  unfold linkCarries
  cases force <;> by_cases hzero : rate = 0 <;> simp [hzero]

/-- Which question the link is asked, if any. -/
theorem exchanges_of_linkCarries {state asked : Recorded σ}
    (h : linkCarries network.recorded state friend kind rate force = (carries, asked)) :
    asked.exchanges = state.exchanges ++
      if force || rate = 0 then [] else [.linkStable friend kind rate carries] := by
  unfold linkCarries at h
  split at h
  · cases h
    rename_i hforced
    rw [if_pos hforced, List.append_nil]
  · rename_i hask
    rw [if_neg hask]
    exact Network.exchanges_of_linkStable h

/-- The calls after a rate was taken. -/
theorem call?_setCall_withRate {call : Call} (hlive : session.registry.live? friend = some call)
    (kind : MediaKind) (rate : UInt32) (other : Friend) :
    (session.setCall (call.withRate kind rate)).call? other =
      if other = friend then some (call.withRate kind rate) else session.call? other := by
  have hfriend : call.friend = friend := Registry.friend_of_live? hlive
  rw [call?, setCall, Registry.get?_set, Call.friend_withRate, hfriend, call?]
  simp only [eq_comm]

/-- A change of rate that makes sense is answered with a report, unless it cannot be announced. -/
theorem setRate_answered {network : Network σ} {state : Recorded σ} {call : Call}
    (hopen : session.closed = false) (hknown : network.knows state.network friend = true)
    (hlive : session.registry.live? friend = some call) (hring : call.state.isRinging = false)
    (hrate : session.config.supportsBitRate kind rate = true) :
    let outcome := session.setRate network.recorded state friend kind rate force
    (∃ report, outcome.answer = .ok report) ∨
      ∃ cause, outcome.answer = .error (.signaling cause) ∧
        outcome.network.exchanges = state.exchanges ++
          (if force || rate = 0 then [] else [.linkStable friend kind rate true]) ++
            [.signal friend (.bitRate kind rate) (.error cause)] := by
  intro outcome
  have hcall : session.rateChangeable network.recorded state friend kind rate = .ok call := by
    have hknown : network.recorded.knows state friend = true := hknown
    simp [rateChangeable, hopen, hknown, hlive, Option.filter, hring, hrate]
  have houtcome : outcome = session.setRate network.recorded state friend kind rate force := rfl
  rw [setRate, hcall] at houtcome
  rcases hlink : linkCarries network.recorded state friend kind rate force with ⟨_ | _, asked⟩
  · rw [hlink] at houtcome
    rw [houtcome]
    exact Or.inl ⟨_, rfl⟩
  rcases hpush : network.recorded.sendSignal friend (.bitRate kind rate) asked with
    ⟨cause | _, after⟩
  · simp only [hlink, hpush] at houtcome
    rw [houtcome]
    refine Or.inr ⟨cause, rfl, ?_⟩
    rw [Network.exchanges_of_sendSignal hpush, exchanges_of_linkCarries hlink]
  · simp only [hlink, hpush] at houtcome
    rw [houtcome]
    exact Or.inl ⟨_, rfl⟩

/-- Every change of rate, on every network.  If it is answered with a report, this report is the
only event that the listener is told, and it names the rate that is in force afterwards.  It says
unstable exactly if the rate was not forced and not zero, and the link did not carry it.  Then
the calls are as before, and nothing was pushed.  Otherwise the rate is the one that was asked
for, it was announced to the friend, and only the friend's call has changed, in this rate and in
what follows from it: a running call runs as the new rates say, and a paused call stays paused
and will run so.  If the change is answered with an error, the session is as before, and nobody
is told; with a rate that the configuration allows, in a call that was answered with a friend who
is known, this happens only if the rate cannot be announced. -/
theorem report_in_force (network : Network σ) (session : Session) (state : Recorded σ)
    (friend : Friend) (kind : MediaKind) (rate : UInt32) (force : Bool) :
    let outcome := session.setRate network.recorded state friend kind rate force
    (∀ report, outcome.answer = .ok report →
      (report.friend = friend ∧ report.kind = kind) ∧
      outcome.session.deliveries =
        ⟨session.listener, [.rateReport report], false⟩ :: session.deliveries ∧
      (outcome.session.call? friend).map (fun call => call.rates.get kind) = some report.rate ∧
      (report.stable = false ↔ force = false ∧ rate ≠ 0 ∧
        (network.linkStable friend kind rate state.network).1 = false) ∧
      (report.stable = false →
        outcome.session = { session with deliveries := outcome.session.deliveries } ∧
        outcome.network.exchanges = state.exchanges ++ [.linkStable friend kind rate false]) ∧
      (report.stable = true →
        report.rate = rate ∧
        outcome.network.exchanges = state.exchanges ++
          (if force || rate = 0 then [] else [.linkStable friend kind rate true]) ++
            [.signal friend (.bitRate kind rate) (.ok ())] ∧
        ∃ before after, session.call? friend = some before ∧
          (let rates := before.rates.set rate kind
          before.state.isEstablished = true ∧
              after = { before with rates, state := .running rates } ∨
            before.state = .paused ∧
              after = { before with rates, pausedFrom := some (.running rates) }) ∧
          outcome.session =
            { session with
              registry := session.registry.set after
              deliveries := outcome.session.deliveries } ∧
          ∀ other, outcome.session.call? other =
            if other = friend then some after else session.call? other)) ∧
    (∀ cause, outcome.answer = .error cause → outcome.session = session) ∧
    ∀ call, session.registry.live? friend = some call → call.state.isRinging = false →
      session.closed = false → network.knows state.network friend = true →
      session.config.supportsBitRate kind rate = true →
      (∃ report, outcome.answer = .ok report) ∨
        ∃ cause, outcome.answer = .error (.signaling cause) ∧
          outcome.network.exchanges = state.exchanges ++
            (if force || rate = 0 then [] else [.linkStable friend kind rate true]) ++
              [.signal friend (.bitRate kind rate) (.error cause)] := by
  intro outcome
  rw [← and_assoc]
  refine ⟨?_, fun call hlive hring hopen hknown hrate =>
    setRate_answered hopen hknown hlive hring hrate⟩
  rcases setRate_cases network.recorded session state friend kind rate force with
    ⟨_, houtcome⟩ | ⟨call, hcall, ⟨asked, hlink, houtcome⟩ | ⟨asked, hlink,
      ⟨_, _, -, houtcome⟩ | ⟨after, hpush, houtcome⟩⟩⟩
  all_goals rw [show outcome = _ from houtcome]
  · exact ⟨nofun, fun _ _ => rfl⟩
  · -- the link does not carry the rate
    obtain ⟨-, -, hlive, -, -⟩ := rateChangeable_eq_ok hcall
    have hrate : (session.call? friend).map (fun call => call.rates.get kind) =
        some (call.rates.get kind) :=
      congrArg (Option.map _) (Registry.get?_of_live? hlive)
    have hweak := linkCarries_eq_false_iff.mp (congrArg Prod.fst hlink)
    have hquestion := exchanges_of_linkCarries hlink
    rw [hweak.1, if_neg (by simpa using hweak.2.1)] at hquestion
    refine ⟨fun report hanswer => ?_, nofun⟩
    obtain rfl := Except.ok.inj hanswer
    exact ⟨⟨rfl, rfl⟩, rfl, hrate, iff_of_true rfl hweak, fun _ => ⟨rfl, hquestion⟩, nofun⟩
  · exact ⟨nofun, fun _ _ => rfl⟩
  · -- the rate is taken
    obtain ⟨-, -, hlive, hring, -⟩ := rateChangeable_eq_ok hcall
    have hbefore : session.call? friend = some call := Registry.get?_of_live? hlive
    have hafter := Call.withRate_cases (Registry.isLive_of_live? hlive) hring kind rate
    have hcalls := call?_setCall_withRate hlive kind rate
    have hrate : ((session.setCall (call.withRate kind rate)).call? friend).map
        (fun call => call.rates.get kind) = some rate := by
      rw [hcalls, if_pos rfl]
      rcases hafter with ⟨-, hafter⟩ | ⟨-, hafter⟩ <;> simp [hafter]
    have hstrong : ¬ (force = false ∧ rate ≠ 0 ∧
        (network.recorded.linkStable friend kind rate state).1 = false) := by
      rw [← linkCarries_eq_false_iff, hlink]
      exact Bool.noConfusion
    have hsent := Network.exchanges_of_sendSignal hpush
    rw [exchanges_of_linkCarries hlink] at hsent
    refine ⟨fun report hanswer => ?_, nofun⟩
    obtain rfl := Except.ok.inj hanswer
    exact ⟨⟨rfl, rfl⟩, rfl, hrate, iff_of_false Bool.noConfusion hstrong, nofun,
      fun _ => ⟨rfl, hsent, call, _, hbefore, hafter, rfl, hcalls⟩⟩

/-- A paused audio call over a link that is too weak for video. -/
def weakPause : Station (Recorded Hub) :=
  let start : Station (Recorded Hub) :=
    ⟨.fresh .standard Config.standard_usable,
      ((Hub.node 0).recorded.attach ⟨(Hub.fresh 1).update 0 (·.addFriend ⟨1⟩ .udp), []⟩).2⟩
  start.run (Hub.node 0).recorded
    [.perform (.call ⟨1⟩ ⟨48, 0⟩),
      .drift fun state => { state with
        network := state.network.update 0 fun node =>
          (node.receive (.signal ⟨1⟩ (.answer ⟨48, 0⟩))).setStable ⟨1⟩ .video false },
      .perform .iterate, .perform (.control ⟨1⟩ .pause)]

/-- Video is refused, and then forced; the call stays paused, but will come back with video. -/
theorem report_in_force_weakPause :
    let refused := weakPause.session.setRate (Hub.node 0).recorded weakPause.state ⟨1⟩ .video 500
      false
    let forced := weakPause.session.setRate (Hub.node 0).recorded weakPause.state ⟨1⟩ .video 500
      true
    (refused.session.call? ⟨1⟩ = weakPause.session.call? ⟨1⟩ ∧
      refused.network.exchanges =
        weakPause.state.exchanges ++ [.linkStable ⟨1⟩ .video 500 false] ∧
      refused.session.deliveries.head? =
        some ⟨none, [.rateReport ⟨⟨1⟩, .video, false, 0⟩], false⟩) ∧
    forced.network.exchanges =
      weakPause.state.exchanges ++ [.signal ⟨1⟩ (.bitRate .video 500) (.ok ())] ∧
    ∃ after, forced.session.call? ⟨1⟩ = some after ∧ after.state = .paused ∧
      after.pausedFrom = some (.running ⟨48, 500⟩) := by
  intro refused forced
  obtain ⟨hrefused, -⟩ := report_in_force (Hub.node 0) weakPause.session weakPause.state ⟨1⟩ .video
    500 false
  obtain ⟨hforced, -⟩ := report_in_force (Hub.node 0) weakPause.session weakPause.state ⟨1⟩ .video
    500 true
  obtain ⟨-, htold, -, -, hkept, -⟩ := hrefused ⟨⟨1⟩, .video, false, 0⟩ rfl
  obtain ⟨hsame, hquestion⟩ := hkept rfl
  obtain ⟨-, -, -, -, -, htaken⟩ := hforced ⟨⟨1⟩, .video, true, 500⟩ rfl
  obtain ⟨-, hsent, before, after, hbefore, hcases, -, hcalls⟩ := htaken rfl
  have hpaused : (weakPause.session.call? ⟨1⟩).map Call.state = some .paused := by decide
  have hrates : (weakPause.session.call? ⟨1⟩).map Call.rates = some ⟨48, 0⟩ := by decide
  rw [hbefore] at hpaused hrates
  have hstate : before.state = .paused := Option.some.inj hpaused
  have hkeptCall := congrArg (Session.call? · ⟨1⟩) hsame
  refine ⟨⟨hkeptCall, hquestion, congrArg List.head? htold⟩, by simpa using hsent, after,
    hcalls ⟨1⟩, ?_⟩
  rcases hcases with ⟨hestablished, -⟩ | ⟨-, rfl⟩
  · rw [hstate] at hestablished
    cases hestablished
  · refine ⟨hstate, ?_⟩
    rw [show before.rates = ⟨48, 0⟩ from Option.some.inj hrates]
    rfl

end Session

end PeerCalls
