import Mathlib.Logic.Function.Basic

/-!
# Who knows of a call

Two sides place, answer and hang up calls with each other, and what one side says
waits in order until the other side hears it.  Only three kinds of signals decide
whether there is a call, and of a call only its standing matters, so a `Talk` keeps
for each side the standing and the marks that wait to be heard.

One side leads when its view is the newer one: if the other side hears everything
that waits for it, the two sides agree (`Follows`).  What still waits for the
leading side itself is left over from a call that is gone.  When neither side
leads, both have just called each other.  Hearing never breaks this, and speaking
breaks it exactly if what is said crosses something on the way (`Mark.crosses`):
an invitation that crosses the answer or the hang-up of another call, or the other
way round.
-/

namespace PeerCalls

/-- One end of a connection between two sessions. -/
inductive Side where
  | left
  | right
  deriving DecidableEq

namespace Side

def other : Side → Side
  | left => right
  | right => left

@[simp] theorem other_other (side : Side) : side.other.other = side := by
  cases side <;> rfl

@[simp] theorem other_ne (side : Side) : side.other ≠ side := by
  cases side <;> decide

@[simp] theorem ne_other (side : Side) : side ≠ side.other := by
  cases side <;> decide

theorem eq_or_eq_other (side own : Side) : side = own ∨ side = own.other := by
  cases side <;> cases own <;> simp [other]

end Side

/-- What a side makes of a call. -/
inductive Standing where
  /-- There is no call. -/
  | idle
  /-- We placed the call, and wait for the answer. -/
  | calling
  /-- The other side placed the call, and waits for our answer. -/
  | rung
  | joined
  deriving DecidableEq

/-- What decides about a call. -/
inductive Mark where
  | invite
  | answer
  | hangUp
  deriving DecidableEq

namespace Mark

/-- Whether the two sides lose track of each other if the first mark is said while the second
one waits for the speaker: one of the two begins a call, and the other one belongs to a call that
was there before. -/
def crosses : Mark → Mark → Bool
  | invite, answer => true
  | invite, hangUp => true
  | answer, invite => true
  | hangUp, invite => true
  | _, _ => false

theorem crosses_invite_iff {waiting : Mark} :
    invite.crosses waiting = true ↔ waiting ≠ invite := by
  cases waiting <;> simp [crosses]

/-- Whatever does not begin a call crosses invitations and nothing else. -/
theorem crosses_iff_of_ne_invite {said waiting : Mark} (h : said ≠ invite) :
    said.crosses waiting = true ↔ waiting = invite := by
  cases said <;> cases waiting <;> simp_all [crosses]

end Mark

namespace Standing

/-- The standing after a mark is heard. -/
def hear : Standing → Mark → Standing
  | idle, .invite => rung
  | standing, .invite => standing
  | calling, .answer => joined
  | _, .answer => idle
  | _, .hangUp => idle

/-- What may be said in a standing, and the standing afterwards. -/
inductive Speaks : Standing → Mark → Standing → Prop where
  | invite : Speaks idle .invite calling
  | answer : Speaks rung .answer joined
  | hangUp {standing : Standing} (h : standing ≠ idle) : Speaks standing .hangUp idle

/-- Two sides that have nothing more to hear agree about the call. -/
inductive Agree : Standing → Standing → Prop where
  | idle : Agree idle idle
  | ringing : Agree calling rung
  | rung : Agree rung calling
  /-- Both sides called each other, and wait. -/
  | waiting : Agree calling calling
  | joined : Agree joined joined

theorem Agree.symm {first second : Standing} (h : Agree first second) : Agree second first := by
  cases h <;> constructor

theorem Agree.idle_iff {first second : Standing} (h : Agree first second) :
    first = Standing.idle ↔ second = Standing.idle := by
  cases h <;> simp

/-- A side hears a mark for what it is: no invitation or answer in the middle of a call. -/
def Admits (standing : Standing) (mark : Mark) : Prop :=
  mark = .hangUp ∨ standing = idle ∨ standing = calling

/-- The listener agrees with the speaker once it has heard what waits for it. -/
def Follows : Standing → List Mark → Standing → Prop
  | listener, [], speaker => Agree listener speaker
  | listener, mark :: later, speaker =>
    listener.Admits mark ∧ Follows (listener.hear mark) later speaker

variable {listener speaker after : Standing} {marks : List Mark} {mark : Mark}

/-- What the speaker says next comes after everything else and keeps the listener in step. -/
theorem Follows.say (h : Follows listener marks speaker) (hspeech : Speaks speaker mark after) :
    Follows listener (marks ++ [mark]) after := by
  induction marks generalizing listener with
  | nil =>
      have hagree : Agree listener speaker := h
      cases hspeech with
      | invite =>
          obtain rfl : listener = idle := hagree.idle_iff.mpr rfl
          exact ⟨Or.inr (Or.inl rfl), .rung⟩
      | answer =>
          cases hagree
          exact ⟨Or.inr (Or.inr rfl), .joined⟩
      | hangUp _ =>
          refine ⟨Or.inl rfl, ?_⟩
          cases listener <;> exact .idle
  | cons first later ih => exact ⟨h.1, ih h.2⟩

/-- An idle side stays idle as long as nobody calls. -/
theorem follows_idle (h : Mark.invite ∉ marks) : Follows idle marks idle := by
  induction marks with
  | nil => exact .idle
  | cons first later ih =>
      obtain ⟨hfirst, hlater⟩ := not_or.mp (List.mem_cons.not.mp h)
      have hidle : idle.hear first = idle := by
        cases first with
        | invite => exact absurd rfl hfirst
        | answer => rfl
        | hangUp => rfl
      refine ⟨Or.inr (Or.inl rfl), ?_⟩
      rw [hidle]
      exact ih hlater

/-- Unless somebody calls, only an idle speaker is followed by a side that is idle. -/
theorem Follows.idle_of_uninvited (h : Follows idle marks speaker) (hnone : Mark.invite ∉ marks) :
    speaker = idle := by
  induction marks with
  | nil => exact Agree.idle_iff h |>.mp rfl
  | cons first later ih =>
      obtain ⟨hfirst, hlater⟩ := not_or.mp (List.mem_cons.not.mp hnone)
      have hidle : idle.hear first = idle := by
        cases first with
        | invite => exact absurd rfl hfirst
        | answer => rfl
        | hangUp => rfl
      have hfollows : Follows (idle.hear first) later speaker := h.2
      rw [hidle] at hfollows
      exact ih hfollows hlater

/-- Whatever a hang-up ends, the listener is idle when it has heard it. -/
theorem follows_hangUp (listener : Standing) : Follows listener [.hangUp] idle := by
  refine ⟨Or.inl rfl, ?_⟩
  cases listener <;> exact .idle

/-- Invitations alone bring an idle side no further than to one call that rings. -/
theorem Follows.of_invites (h : Follows idle (mark :: marks) speaker)
    (hinvites : ∀ waiting ∈ mark :: marks, waiting = .invite) :
    mark :: marks = [.invite] ∧ speaker = calling := by
  obtain rfl : mark = .invite := hinvites mark List.mem_cons_self
  have hlater : Follows rung marks speaker := h.2
  cases marks with
  | nil =>
      cases hlater
      exact ⟨rfl, rfl⟩
  | cons second later =>
      -- a ringing side hears no second invitation
      obtain rfl : second = .invite := hinvites second (by simp)
      rcases hlater.1 with hmark | hstanding | hstanding <;> cases ‹_›

end Standing

/-! ## Both sides -/

/-- The standing of each side, and the marks that wait to be heard by it, oldest first. -/
@[ext] structure Talk where
  standing : Side → Standing
  marks : Side → List Mark

namespace Talk

/-- The side hears the oldest mark that waits for it. -/
def hear (talk : Talk) (side : Side) (mark : Mark) (later : List Mark) : Talk where
  standing := Function.update talk.standing side ((talk.standing side).hear mark)
  marks := Function.update talk.marks side later

/-- The side says something, which waits for the other side from then on. -/
def say (talk : Talk) (side : Side) (mark : Mark) (after : Standing) : Talk where
  standing := Function.update talk.standing side after
  marks := Function.update talk.marks side.other (talk.marks side.other ++ [mark])

/-- The view of the side is the newer one.  What waits for the side itself is left over
from a call that both sides are done with. -/
structure Leads (talk : Talk) (side : Side) : Prop where
  follows : (talk.standing side.other).Follows (talk.marks side.other) (talk.standing side)
  remains : talk.marks side = [] ∨
    talk.standing side = .idle ∧ .invite ∉ talk.marks side ∧ .invite ∉ talk.marks side.other

/-- The two sides keep track of each other: one of them leads, or both have just called. -/
def InStep (talk : Talk) : Prop :=
  (∃ side, talk.Leads side) ∨
    ∀ side, talk.standing side = .calling ∧ talk.marks side = [.invite]

variable {talk : Talk} {side : Side} {mark : Mark} {after : Standing} {later : List Mark}

/-! ### Hearing -/

@[simp] theorem standing_hear_self :
    (talk.hear side mark later).standing side = (talk.standing side).hear mark := by
  simp [hear]

@[simp] theorem standing_hear_other :
    (talk.hear side mark later).standing side.other = talk.standing side.other := by
  simp [hear]

@[simp] theorem marks_hear_self : (talk.hear side mark later).marks side = later := by
  simp [hear]

@[simp] theorem marks_hear_other :
    (talk.hear side mark later).marks side.other = talk.marks side.other := by
  simp [hear]

/-- The side that follows catches up. -/
theorem Leads.hear_other (h : talk.Leads side) (hmarks : talk.marks side.other = mark :: later) :
    (talk.hear side.other mark later).Leads side := by
  obtain ⟨hfollows, hremains⟩ := h
  rw [hmarks] at hfollows hremains
  refine ⟨?_, ?_⟩
  · simpa [hear] using hfollows.2
  · simp only [hear, Function.update_self, ne_eq, Side.ne_other, not_false_eq_true,
      Function.update_of_ne]
    exact hremains.imp_right fun ⟨hidle, hown, hother⟩ =>
      ⟨hidle, hown, fun hmem => hother (List.mem_cons_of_mem mark hmem)⟩

/-- The side that leads hears only what no longer matters. -/
theorem Leads.hear_self (h : talk.Leads side) (hmarks : talk.marks side = mark :: later) :
    (talk.hear side mark later).Leads side := by
  obtain ⟨hfollows, hremains⟩ := h
  rw [hmarks] at hremains
  obtain ⟨hidle, hown, hother⟩ := hremains.resolve_left (List.cons_ne_nil mark later)
  have hstill : Standing.idle.hear mark = .idle := by
    cases mark with
    | invite => exact absurd List.mem_cons_self hown
    | answer => rfl
    | hangUp => rfl
  rw [hidle] at hfollows
  refine ⟨?_, Or.inr ⟨?_, ?_, ?_⟩⟩
  · simpa [hear, hidle, hstill] using hfollows
  · simp [hear, hidle, hstill]
  · simpa [hear] using fun hmem => hown (List.mem_cons_of_mem mark hmem)
  · simpa [hear] using hother

/-- Whatever a side hears, the two sides keep track of each other. -/
theorem InStep.hear (h : talk.InStep) (hmarks : talk.marks side = mark :: later) :
    (talk.hear side mark later).InStep := by
  rcases h with ⟨own, hleads⟩ | hboth
  · rcases side.eq_or_eq_other own with rfl | rfl
    · exact Or.inl ⟨side, hleads.hear_self hmarks⟩
    · exact Or.inl ⟨own, hleads.hear_other hmarks⟩
  · -- both sides called: the first one to hear of it leads from then on
    obtain ⟨hstanding, hown⟩ := hboth side
    obtain ⟨hstanding', hother⟩ := hboth side.other
    obtain ⟨rfl, rfl⟩ := List.cons.inj (hmarks.symm.trans hown)
    refine Or.inl ⟨side, ?_, Or.inl ?_⟩
    · have hfollows : Standing.calling.Follows [.invite] .calling :=
        ⟨Or.inr (Or.inr rfl), .waiting⟩
      simpa [Talk.hear, hstanding, hstanding', hother, Standing.hear] using hfollows
    · simp [Talk.hear]

/-! ### Speaking -/

@[simp] theorem standing_say_self : (talk.say side mark after).standing side = after := by
  simp [say]

@[simp] theorem standing_say_other :
    (talk.say side mark after).standing side.other = talk.standing side.other := by
  simp [say]

@[simp] theorem marks_say_self : (talk.say side mark after).marks side = talk.marks side := by
  simp [say]

@[simp] theorem marks_say_other :
    (talk.say side mark after).marks side.other = talk.marks side.other ++ [mark] := by
  simp [say]

/-- The side that leads goes on leading. -/
theorem Leads.say_self (h : talk.Leads side)
    (hspeech : Standing.Speaks (talk.standing side) mark after)
    (hcross : ∀ waiting ∈ talk.marks side, ¬ mark.crosses waiting) :
    (talk.say side mark after).Leads side := by
  refine ⟨?_, Or.inl ?_⟩
  · simpa using h.follows.say hspeech
  · rw [marks_say_self]
    rcases h.remains with hnil | ⟨hidle, hown, -⟩
    · exact hnil
    · -- an idle side can only call, and that would cross what is left over
      obtain rfl : mark = .invite := by
        rw [hidle] at hspeech
        cases hspeech with
        | invite => rfl
        | hangUp hbusy => exact absurd rfl hbusy
      refine List.eq_nil_iff_forall_not_mem.mpr fun waiting hmem => ?_
      refine hcross waiting hmem (Mark.crosses_invite_iff.mpr ?_)
      rintro rfl
      exact hown hmem

/-- A side that hangs up leads, whatever it has not heard yet, unless that is an invitation. -/
theorem Leads.hangUp_other (h : talk.Leads side.other) (hown : .invite ∉ talk.marks side) :
    (talk.say side .hangUp .idle).Leads side := by
  refine ⟨?_, Or.inr ⟨by simp, by simpa using hown, ?_⟩⟩
  · -- the other side either hears the hang-up next or has no call that it could end
    rw [standing_say_other, marks_say_other, standing_say_self]
    rcases h.remains with hnil | ⟨hidle, hother, -⟩
    · rw [hnil]
      exact Standing.follows_hangUp _
    · rw [hidle]
      exact Standing.follows_idle (by simpa using hother)
  · rw [marks_say_other]
    rcases h.remains with hnil | ⟨-, hother, -⟩
    · simp [hnil]
    · simpa using hother

/-- A side that has heard everything may say what it likes, and leads afterwards. -/
theorem Leads.say_heard (h : talk.Leads side.other) (hheard : talk.marks side = [])
    (hspeech : Standing.Speaks (talk.standing side) mark after) :
    (talk.say side mark after).Leads side := by
  have hagree : (talk.standing side).Agree (talk.standing side.other) := by
    have hfollows := h.follows
    rw [Side.other_other, hheard] at hfollows
    exact hfollows
  refine ⟨?_, Or.inl (by simpa using hheard)⟩
  have hfollows : (talk.standing side.other).Follows (talk.marks side.other)
      (talk.standing side) := by
    rcases h.remains with hnil | ⟨hidle, hother, -⟩
    · rw [hnil]
      exact hagree.symm
    · have hself : talk.standing side = .idle := hagree.idle_iff.mpr hidle
      rw [hidle, hself]
      exact Standing.follows_idle hother
  simpa using hfollows.say hspeech

/-- A side that calls while an invitation waits for it: both sides have just called. -/
theorem Leads.invite_other (h : talk.Leads side.other) (hidle : talk.standing side = .idle)
    (hwaiting : talk.marks side ≠ [])
    (hinvites : ∀ waiting ∈ talk.marks side, waiting = .invite) (own : Side) :
    (talk.say side .invite .calling).standing own = .calling ∧
      (talk.say side .invite .calling).marks own = [.invite] := by
  obtain ⟨first, later, hmarks⟩ := List.exists_cons_of_ne_nil hwaiting
  rw [hmarks] at hinvites
  have hfollows := h.follows
  rw [Side.other_other, hidle, hmarks] at hfollows
  obtain ⟨hsingle, hcalling⟩ := hfollows.of_invites hinvites
  have hnil : talk.marks side.other = [] := by
    rcases h.remains with hnil | ⟨hidle', -, -⟩
    · exact hnil
    · rw [hcalling] at hidle'
      cases hidle'
  rcases own.eq_or_eq_other side with rfl | rfl
  · exact ⟨standing_say_self, by rw [marks_say_self, hmarks, hsingle]⟩
  · exact ⟨by rw [standing_say_other, hcalling], by rw [marks_say_other, hnil, List.nil_append]⟩

/-- An answer that comes too late is lost: the side hears of the hang-up next, as it would have
without it. -/
theorem Leads.answer_late (h : talk.Leads side.other) (hrung : talk.standing side = .rung)
    (hwaiting : talk.marks side ≠ []) (hown : .invite ∉ talk.marks side) :
    (talk.say side .answer .joined).Leads side.other := by
  obtain ⟨first, later, hmarks⟩ := List.exists_cons_of_ne_nil hwaiting
  have hfollows := h.follows
  rw [Side.other_other, hrung, hmarks] at hfollows
  -- while a side rings, nothing but a hang-up can wait for it
  obtain rfl : first = .hangUp := by
    rcases hfollows.1 with hmark | hidle | hcalling
    · exact hmark
    · cases hidle
    · cases hcalling
  have hafter : Standing.idle.Follows later (talk.standing side.other) := hfollows.2
  have hlater : Mark.invite ∉ later := fun hmem => hown (by simp [hmarks, hmem])
  have hidle : talk.standing side.other = .idle := hafter.idle_of_uninvited hlater
  have hother : Mark.invite ∉ talk.marks side.other := by
    rcases h.remains with hnil | ⟨-, hother, -⟩
    · simp [hnil]
    · exact hother
  refine ⟨?_, Or.inr ⟨?_, ?_, ?_⟩⟩
  · rw [Side.other_other, standing_say_self, marks_say_self, standing_say_other, hmarks]
    exact ⟨Or.inl rfl, hafter⟩
  · rw [standing_say_other, hidle]
  · rw [marks_say_other]
    simpa using hother
  · rw [Side.other_other, marks_say_self]
    exact hown

/-- The side that follows may speak, too. -/
theorem Leads.say_other (h : talk.Leads side.other)
    (hspeech : Standing.Speaks (talk.standing side) mark after)
    (hcross : ∀ waiting ∈ talk.marks side, ¬ mark.crosses waiting) :
    (talk.say side mark after).InStep := by
  have huninvited : mark ≠ .invite → .invite ∉ talk.marks side := fun hmark hmem =>
    hcross .invite hmem ((Mark.crosses_iff_of_ne_invite hmark).mpr rfl)
  by_cases hheard : talk.marks side = []
  · exact Or.inl ⟨side, h.say_heard hheard hspeech⟩
  · generalize hstanding : talk.standing side = standing at hspeech
    cases hspeech with
    | hangUp _ => exact Or.inl ⟨side, h.hangUp_other (huninvited (by decide))⟩
    | answer => exact Or.inl ⟨_, h.answer_late hstanding hheard (huninvited (by decide))⟩
    | invite =>
        have hinvites : ∀ waiting ∈ talk.marks side, waiting = .invite := fun waiting hmem =>
          Decidable.of_not_not fun hne => hcross waiting hmem (Mark.crosses_invite_iff.mpr hne)
        exact Or.inr (h.invite_other hstanding hheard hinvites)

/-- Whatever a side says without crossing anything, the two sides keep track of each other. -/
theorem InStep.say (h : talk.InStep) (hspeech : Standing.Speaks (talk.standing side) mark after)
    (hcross : ∀ waiting ∈ talk.marks side, ¬ mark.crosses waiting) :
    (talk.say side mark after).InStep := by
  rcases h with ⟨own, hleads⟩ | hboth
  · rcases own.eq_or_eq_other side with rfl | rfl
    · exact Or.inl ⟨own, hleads.say_self hspeech hcross⟩
    · exact hleads.say_other hspeech hcross
  · -- both sides called, so all that is left to say is a hang-up, and it crosses the call
    obtain ⟨hstanding, hmarks⟩ := hboth side
    rw [hstanding] at hspeech
    cases hspeech with
    | hangUp _ => exact absurd rfl (hcross .invite (by simp [hmarks]))

/-- While the two sides keep track of each other, nothing that waits for one side crosses what
waits for the other one. -/
theorem InStep.uncrossed (h : talk.InStep) {waiting : Mark} (hwaits : waiting ∈ talk.marks side)
    (hsaid : mark ∈ talk.marks side.other) : ¬ mark.crosses waiting := by
  intro hcrosses
  rcases h with ⟨own, hleads⟩ | hboth
  · -- both sides have something to hear, so nobody calls
    have hsome : talk.marks own ≠ [] := by
      rcases own.eq_or_eq_other side with rfl | rfl
      · exact List.ne_nil_of_mem hwaits
      · exact List.ne_nil_of_mem hsaid
    obtain ⟨-, hown, hother⟩ := hleads.remains.resolve_left hsome
    have hnone : ∀ any, .invite ∉ talk.marks any := by
      intro any
      rcases any.eq_or_eq_other own with rfl | rfl
      · exact hown
      · exact hother
    have hmark : mark ≠ .invite := by
      rintro rfl
      exact hnone side.other hsaid
    obtain rfl := (Mark.crosses_iff_of_ne_invite hmark).mp hcrosses
    exact hnone side hwaits
  · -- both sides have just called, and an invitation does not cross another one
    rw [(hboth side).2] at hwaits
    rw [(hboth side.other).2] at hsaid
    rw [List.mem_singleton.mp hwaits, List.mem_singleton.mp hsaid] at hcrosses
    cases hcrosses

/-- What a side says keeps the two sides in step exactly if it crosses nothing. -/
theorem InStep.say_iff (h : talk.InStep)
    (hspeech : Standing.Speaks (talk.standing side) mark after) :
    (talk.say side mark after).InStep ↔ ∀ waiting ∈ talk.marks side, ¬ mark.crosses waiting := by
  refine ⟨fun hafter waiting hmem => ?_, h.say hspeech⟩
  have hwaits : waiting ∈ (talk.say side mark after).marks side := by rwa [marks_say_self]
  have hsaid : mark ∈ (talk.say side mark after).marks side.other := by simp
  exact hafter.uncrossed hwaits hsaid

/-! ### What keeping track is good for -/

/-- An answer is heard only by a side without a call or by one that waits for it. -/
theorem InStep.answer_fits (h : talk.InStep) (hmarks : talk.marks side = .answer :: later) :
    talk.standing side = .idle ∨ talk.standing side = .calling := by
  rcases h with ⟨own, hleads⟩ | hboth
  · rcases side.eq_or_eq_other own with rfl | rfl
    · rcases hleads.remains with hnil | ⟨hidle, -, -⟩
      · rw [hnil] at hmarks
        cases hmarks
      · exact Or.inl hidle
    · have hfollows := hleads.follows
      rw [hmarks] at hfollows
      exact hfollows.1.resolve_left (by simp)
  · rw [(hboth side).2] at hmarks
    cases hmarks

/-- When nothing waits any more, there is a call on both sides or on none. -/
theorem InStep.idle_iff (h : talk.InStep) (hquiet : ∀ side, talk.marks side = []) :
    talk.standing .left = .idle ↔ talk.standing .right = .idle := by
  rcases h with ⟨own, hleads⟩ | hboth
  · have hagree := hleads.follows
    rw [hquiet own.other] at hagree
    have hiff := Standing.Agree.idle_iff hagree
    cases own with
    | left => exact hiff.symm
    | right => exact hiff
  · have hwaits := (hboth .left).2
    rw [hquiet .left] at hwaits
    cases hwaits

end Talk

end PeerCalls
