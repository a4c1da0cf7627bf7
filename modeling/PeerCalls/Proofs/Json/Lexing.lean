import PeerCalls.Proofs.Json.Grammar

/-!
# The lexer knows the grammar

The lexer reads one character after the other, and only the next character shows where a number
ends.  So a lexer that has read a text `Holds` its tokens, of which the last may be a number that
could still go on; what may follow a value ends it, and then the lexer stands between tokens.

`Lexes` says this of a text from any point between tokens.  Such texts can be put together with
blanks and marks, which is all that the grammar does beyond single tokens.
-/

namespace PeerCalls.Json

/-! ## Runs of a machine -/

section Runs

variable {σ α : Type} {step : σ → α → Option σ} {state middle reached : σ} {first second : List α}

/-- From one state of a machine to another one by way of some inputs. -/
def Runs (step : σ → α → Option σ) (state : σ) (inputs : List α) (reached : σ) : Prop :=
  inputs.foldlM step state = some reached

theorem runs_nil (step : σ → α → Option σ) (state : σ) : Runs step state [] state := rfl

theorem Runs.cons {input : α} (h : step state input = some middle)
    (h' : Runs step middle second reached) : Runs step state (input :: second) reached := by
  rw [Runs, List.foldlM_cons, h]
  exact h'

theorem runs_single {input : α} (h : step state input = some reached) :
    Runs step state [input] reached :=
  .cons h (runs_nil step reached)

theorem Runs.append (h : Runs step state first middle) (h' : Runs step middle second reached) :
    Runs step state (first ++ second) reached := by
  rw [Runs, List.foldlM_append, show first.foldlM step state = some middle from h]
  exact h'

/-- A state that each of the inputs leads back to takes all of them. -/
theorem runs_of_forall {inputs : List α} (h : ∀ input ∈ inputs, step state input = some state) :
    Runs step state inputs state := by
  induction inputs with
  | nil => exact runs_nil step state
  | cons input later ih =>
      exact .cons (h input (List.mem_cons_self ..))
        (ih fun other hmem => h other (List.mem_cons_of_mem _ hmem))

end Runs

/-! ## Numbers -/

namespace NumberPhase

variable {phase reached : NumberPhase} {text : List Char}

/-- Digits lead on from a phase that needs one. -/
theorem runs_digits (htext : Digits text)
    (hfirst : ∀ c : Char, c.isDigit = true → phase.next? c = some reached)
    (hdigit : ∀ c : Char, c.isDigit = true → reached.next? c = some reached) :
    Runs next? phase text reached := by
  obtain ⟨hne, hall⟩ := htext
  cases text with
  | nil => exact absurd rfl hne
  | cons c rest =>
      have hrest : ∀ d ∈ rest, reached.next? d = some reached := fun d hmem =>
        hdigit d (hall d (List.mem_cons_of_mem _ hmem))
      exact .cons (hfirst c (hall c (List.mem_cons_self ..))) (runs_of_forall hrest)

/-- The digits before the point have been read. -/
def IsWhole (phase : NumberPhase) : Prop := phase = zero ∨ phase = whole

/-- An exponent may follow. -/
def TakesExponent (phase : NumberPhase) : Prop := phase.IsWhole ∨ phase = fraction

/-- What follows the digits before the point leads on to where an exponent may follow. -/
theorem runs_fraction (hphase : phase.IsWhole) (h : Fraction text) :
    ∃ reached, Runs next? phase text reached ∧ reached.TakesExponent := by
  cases h with
  | absent => exact ⟨phase, runs_nil next? phase, Or.inl hphase⟩
  | point hdigits =>
      have hpoint : phase.next? '.' = some point := by rcases hphase with rfl | rfl <;> rfl
      exact ⟨fraction, .cons hpoint
        (runs_digits hdigits (fun _ h => if_pos h) fun _ h => if_pos h), Or.inr rfl⟩

/-- The end of a number leads to a phase in which it may end. -/
theorem runs_exponent (hphase : phase.TakesExponent) (h : Exponent text) :
    ∃ reached, Runs next? phase text reached ∧ reached.isComplete = true := by
  have hletter : ∀ letter ∈ ['e', 'E'], phase.next? letter = some exponent := by
    rcases hphase with (rfl | rfl) | rfl <;> simp [next?]
  have hsign : ∀ sign ∈ ['+', '-'], exponent.next? sign = some exponentSign := by
    simp [next?]
  cases h with
  | absent =>
      exact ⟨phase, runs_nil next? phase, by rcases hphase with (rfl | rfl) | rfl <;> rfl⟩
  | plain hmem hdigits =>
      exact ⟨exponentDigits, .cons (hletter _ hmem)
        (runs_digits hdigits (fun _ h => if_pos h) fun _ h => if_pos h), rfl⟩
  | signed hmem hmem' hdigits =>
      exact ⟨exponentDigits, .cons (hletter _ hmem) (.cons (hsign _ hmem')
        (runs_digits hdigits (fun _ h => if_pos h) fun _ h => if_pos h)), rfl⟩

end NumberPhase

namespace Lexer

open NumberPhase (IsWhole)

variable {lexer : Lexer} {before : List Token} {text : List Char}

/-- Inside a number the lexer follows its phases. -/
theorem runs_number {phase reached : NumberPhase} {literal : List Char}
    (h : Runs NumberPhase.next? phase text reached) :
    Runs step ⟨before, .number phase literal⟩ text
      ⟨before, .number reached (text.reverse ++ literal)⟩ := by
  induction text generalizing phase literal with
  | nil =>
      obtain rfl : phase = reached := Option.some.inj h
      exact runs_nil step _
  | cons c rest ih =>
      rw [Runs, List.foldlM_cons] at h
      obtain ⟨middle, hnext, hrest⟩ := Option.bind_eq_some_iff.mp h
      have hstep : step ⟨before, .number phase literal⟩ c =
          some ⟨before, .number middle (c :: literal)⟩ := by
        simp only [step, inNumber, hnext]
      rw [List.reverse_cons, List.append_assoc]
      exact .cons hstep (ih hrest)

theorem begin_of_digit {c : Char} (hdigit : c.isDigit = true) (hne : c ≠ '0') :
    lexer.begin c = some { lexer with reading := .number .whole [c] } := by
  unfold begin
  split <;> first | exact absurd hdigit (by decide) | exact absurd rfl hne | exact if_pos hdigit

/-- The digits before the point are taken between tokens and after a minus sign. -/
theorem exists_whole (h : Whole text) : ∃ c rest phase, text = c :: rest ∧ phase.IsWhole ∧
    (∀ lexer : Lexer, lexer.begin c = some { lexer with reading := .number phase [c] }) ∧
    NumberPhase.minus.next? c = some phase ∧ Runs NumberPhase.next? phase rest phase := by
  obtain ⟨⟨hne, hall⟩, hzero⟩ := h
  cases text with
  | nil => exact absurd rfl hne
  | cons c rest =>
      have hdigit := hall c (List.mem_cons_self ..)
      by_cases hc : c = '0'
      · obtain ⟨rfl, rfl⟩ : c = '0' ∧ rest = [] := by simpa [hc] using hzero
        exact ⟨_, _, .zero, rfl, Or.inl rfl, fun _ => rfl, rfl, runs_nil _ _⟩
      · have hrest : ∀ d ∈ rest, NumberPhase.whole.next? d = some .whole := fun d hmem =>
          if_pos (hall d (List.mem_cons_of_mem _ hmem))
        have hminus : NumberPhase.minus.next? c = some .whole := by
          simp only [NumberPhase.next?, if_neg hc, if_pos hdigit]
        exact ⟨c, rest, .whole, rfl, Or.inr rfl, fun _ => begin_of_digit hdigit hc, hminus,
          runs_of_forall hrest⟩

/-- A number is read up to a phase in which it may end. -/
theorem runs_numeral (h : Numeral text) (before : List Token) :
    ∃ phase, phase.isComplete = true ∧
      Runs step ⟨before, .nothing⟩ text ⟨before, .number phase text.reverse⟩ := by
  -- the rest of a number, after its first characters
  have htail : ∀ {phase : NumberPhase} {rest fraction exponent : List Char}, phase.IsWhole →
      Runs NumberPhase.next? phase rest phase → Fraction fraction → Exponent exponent →
      ∃ reached, reached.isComplete = true ∧
        Runs NumberPhase.next? phase (rest ++ fraction ++ exponent) reached := by
    intro phase rest fraction exponent hphase hrest hfraction hexponent
    obtain ⟨middle, hmiddle, htakes⟩ := NumberPhase.runs_fraction hphase hfraction
    obtain ⟨reached, hreached, hcomplete⟩ := NumberPhase.runs_exponent htakes hexponent
    exact ⟨reached, hcomplete, (hrest.append hmiddle).append hreached⟩
  cases h with
  | positive hwhole hfraction hexponent =>
      obtain ⟨c, rest, phase, rfl, hphase, hbegin, -, hrest⟩ := exists_whole hwhole
      obtain ⟨reached, hcomplete, hrun⟩ := htail hphase hrest hfraction hexponent
      refine ⟨reached, hcomplete, ?_⟩
      rw [List.cons_append, List.cons_append, List.reverse_cons]
      exact .cons (hbegin _) (runs_number hrun)
  | negative hwhole hfraction hexponent =>
      obtain ⟨c, rest, phase, rfl, hphase, -, hminus, hrest⟩ := exists_whole hwhole
      obtain ⟨reached, hcomplete, hrun⟩ := htail hphase hrest hfraction hexponent
      have hsigned : Runs NumberPhase.next? .minus (c :: (rest ++ _ ++ _)) reached :=
        .cons hminus hrun
      refine ⟨reached, hcomplete, ?_⟩
      rw [List.cons_append, List.cons_append, List.reverse_cons]
      exact .cons rfl (runs_number hsigned)

end Lexer

/-! ## Strings -/

namespace Quoted

variable {quoted : Quoted} {text : List Char} {sound : Bool} {first value : Nat}

/-- The literal with one more piece. -/
def add (quoted : Quoted) : Piece → Quoted
  | .char c => quoted.push c
  | .unit value => quoted.pushUnit value

/-- Whatever half waits for its other half is a first one. -/
def Waits (quoted : Quoted) : Prop := ∀ half, quoted.half = some half → Piece.IsFirstHalf half

/-- What the literal stands for if these pieces follow: the half that waits stands before them. -/
def completed (quoted : Quoted) (pieces : List Piece) : Text :=
  if quoted.sound then
    (Piece.meaning? (quoted.half.toList.map Piece.unit ++ pieces)).map fun later =>
      String.ofList (quoted.text.reverse ++ later)
  else none

theorem add_firstHalf (h : Piece.IsFirstHalf value) : quoted.add (.unit value) =
    ⟨quoted.text, some value, quoted.sound && quoted.half.isNone⟩ :=
  if_pos h

theorem add_secondHalf (h : Piece.IsSecondHalf value) :
    add ⟨text, none, sound⟩ (.unit value) = ⟨text, none, false⟩ :=
  (if_neg fun hfirst => Piece.not_isSecondHalf hfirst h).trans (if_pos h)

theorem add_pair (h : Piece.IsSecondHalf value) :
    add ⟨text, some first, sound⟩ (.unit value) =
      ⟨Piece.joined first value :: text, none, sound⟩ :=
  (if_neg fun hfirst => Piece.not_isSecondHalf hfirst h).trans (if_pos h)

theorem add_unit (h : ¬ Piece.IsFirstHalf value) (h' : ¬ Piece.IsSecondHalf value) :
    quoted.add (.unit value) = quoted.push (Char.ofNat value) :=
  (if_neg h).trans (if_neg h')

/-- Only a first half waits after one more piece. -/
theorem Waits.add (h : quoted.Waits) (piece : Piece) : (quoted.add piece).Waits := by
  obtain ⟨text, half, sound⟩ := quoted
  cases piece with
  | char c =>
      intro waiting hwaiting
      cases hwaiting
  | unit value =>
      by_cases hfirst : Piece.IsFirstHalf value
      · rw [add_firstHalf hfirst]
        rintro waiting ⟨⟩
        exact hfirst
      by_cases hsecond : Piece.IsSecondHalf value
      · cases half with
        | none =>
            rw [add_secondHalf hsecond]
            rintro waiting ⟨⟩
        | some first =>
            rw [add_pair hsecond]
            rintro waiting ⟨⟩
      · rw [add_unit hfirst hsecond]
        rintro waiting ⟨⟩

/-- A half that waits spoils the literal unless its other half is next. -/
theorem completed_of_lone {pieces : List Piece} (h : quoted.Waits) (hhalf : quoted.half = some first)
    (hnext : ∀ second rest, pieces = .unit second :: rest → ¬ Piece.IsSecondHalf second) :
    quoted.completed pieces = none := by
  have hlone := Piece.meaning?_firstHalf (h first hhalf) hnext
  simp [completed, hhalf, hlone]

/-- A piece that stands for a character by itself. -/
theorem completed_push {piece : Piece} {c : Char} (h : quoted.Waits) (later : List Piece)
    (hpiece : Piece.meaning? (piece :: later) = (Piece.meaning? later).map (c :: ·))
    (hnext : ∀ second, piece = .unit second → ¬ Piece.IsSecondHalf second) :
    (quoted.push c).completed later = quoted.completed (piece :: later) := by
  obtain ⟨text, half, sound⟩ := quoted
  cases half with
  | none => cases sound <;> simp [completed, push, hpiece, Function.comp_def]
  | some first =>
      have hlone : completed ⟨text, some first, sound⟩ (piece :: later) = none :=
        completed_of_lone h rfl fun second rest hsame => hnext second (List.cons.inj hsame).1
      rw [hlone]
      simp [completed, push]

/-- A piece may be taken now or follow later. -/
theorem completed_add (h : quoted.Waits) (piece : Piece) (later : List Piece) :
    (quoted.add piece).completed later = quoted.completed (piece :: later) := by
  cases piece with
  | char c => exact completed_push h later rfl (by simp)
  | unit value =>
      by_cases hfirst : Piece.IsFirstHalf value
      · obtain ⟨text, half, sound⟩ := quoted
        rw [add_firstHalf hfirst]
        cases half with
        | none => cases sound <;> rfl
        | some first =>
            have hlone : completed ⟨text, some first, sound⟩ (.unit value :: later) = none :=
              completed_of_lone h rfl fun second rest hsame => by
                obtain rfl : value = second := Piece.unit.inj (List.cons.inj hsame).1
                exact Piece.not_isSecondHalf hfirst
            rw [hlone]
            simp [completed]
      by_cases hsecond : Piece.IsSecondHalf value
      · obtain ⟨text, half, sound⟩ := quoted
        cases half with
        | none =>
            rw [add_secondHalf hsecond]
            simp [completed, Piece.meaning?_secondHalf hsecond]
        | some first =>
            have hpair : Piece.meaning? (.unit first :: .unit value :: later) = _ :=
              Piece.meaning?_pair (h first rfl) hsecond
            rw [add_pair hsecond]
            simp [completed, hpair, Function.comp_def]
      · rw [add_unit hfirst hsecond]
        refine completed_push h later (Piece.meaning?_unit hfirst hsecond) ?_
        rintro second ⟨⟩
        exact hsecond

theorem completed_nil (h : quoted.Waits) : quoted.completed [] = quoted.finish := by
  obtain ⟨text, half, sound⟩ := quoted
  cases half with
  | none => cases sound <;> simp [completed, finish, Piece.meaning?]
  | some first =>
      rw [completed_of_lone h rfl (by simp)]
      simp [finish]

/-- What a literal stands for in the end: what it has taken, with the pieces that it still takes. -/
theorem finish_add (pieces : List Piece) (h : quoted.Waits) :
    (pieces.foldl add quoted).finish = quoted.completed pieces := by
  induction pieces generalizing quoted with
  | nil => exact (completed_nil h).symm
  | cons piece later ih => exact (ih (h.add piece)).trans (completed_add h piece later)

end Quoted

theorem hexDigit?_eq {c : Char} {value : Nat} (h : HexDigit c value) :
    hexDigit? c = some value := by
  have hsmall : ∀ entry ∈ "0123456789abcdef".toList.zipIdx, hexDigit? entry.1 = some entry.2 := by
    decide
  have hcapital : ∀ entry ∈ "0123456789ABCDEF".toList.zipIdx,
      hexDigit? entry.1 = some entry.2 := by
    decide
  rcases h with h | h
  · exact hsmall (c, value) (List.mk_mem_zipIdx_iff_getElem?.mpr h)
  · exact hcapital (c, value) (List.mk_mem_zipIdx_iff_getElem?.mpr h)

namespace Lexer

variable {before : List Token} {quoted : Quoted}

theorem step_hex {c : Char} {value missing unit : Nat} (h : HexDigit c value) :
    step ⟨before, .hex quoted (missing + 2) unit⟩ c =
      some ⟨before, .hex quoted (missing + 1) (unit * 16 + value)⟩ := by
  simp [step, inHex, hexDigit?_eq h]

theorem step_lastHex {c : Char} {value unit : Nat} (h : HexDigit c value) :
    step ⟨before, .hex quoted 1 unit⟩ c =
      some ⟨before, .string (quoted.add (.unit (unit * 16 + value)))⟩ := by
  simp [step, inHex, hexDigit?_eq h, Quoted.add]

/-- Between quotes the lexer adds one piece after the other. -/
theorem runs_pieces {pieces : List Piece} {text : List Char} (h : Piece.SpelledBy pieces text)
    (before : List Token) (quoted : Quoted) :
    Runs step ⟨before, .string quoted⟩ text
      ⟨before, .string (pieces.foldl Quoted.add quoted)⟩ := by
  induction h generalizing quoted with
  | nil => exact runs_nil step _
  | @plain c pieces text hprintable hquote hbackslash _ ih =>
      have hstep : step ⟨before, .string quoted⟩ c =
          some ⟨before, .string (quoted.add (.char c))⟩ := by
        simp [step, inString, hquote, hbackslash, Nat.not_lt.mpr hprintable, Quoted.add]
      exact .cons hstep (ih _)
  | @letter letter c pieces text hescape _ ih =>
      have htable : ∀ entry ∈ escapes, entry.1 ≠ 'u' ∧ escaped? entry.1 = some entry.2 := by
        decide
      obtain ⟨hne, hmeant⟩ := htable (letter, c) hescape
      have hstep : step ⟨before, .escape quoted⟩ letter =
          some ⟨before, .string (quoted.add (.char c))⟩ := by
        simp only [step, inEscape, if_neg hne, hmeant, Quoted.add]
      exact .cons rfl (.cons hstep (ih _))
  | unit h₁ h₂ h₃ h₄ _ ih =>
      have hstart : ∀ value, 0 * 16 + value = value := fun value => by omega
      have hfirst := @step_hex before quoted _ _ 2 0 h₁
      rw [hstart] at hfirst
      exact .cons rfl (.cons rfl (.cons hfirst (.cons (step_hex h₂) (.cons (step_hex h₃)
        (.cons (step_lastHex h₄) (ih _))))))

/-- A string literal is read as the text that its pieces stand for. -/
theorem runs_string {pieces : List Piece} {text : List Char} (h : Piece.SpelledBy pieces text)
    (before : List Token) :
    Runs step ⟨before, .nothing⟩ ('"' :: (text ++ ['"']))
      ⟨.string (Piece.text pieces) :: before, .nothing⟩ := by
  have hfinish : (pieces.foldl Quoted.add .empty).finish = Piece.text pieces := by
    have hwaits : Quoted.empty.Waits := by
      rintro half ⟨⟩
    exact Quoted.finish_add pieces hwaits
  have hend : step ⟨before, .string (pieces.foldl Quoted.add .empty)⟩ '"' =
      some ⟨.string (Piece.text pieces) :: before, .nothing⟩ := by
    rw [← hfinish]
    rfl
  exact .cons rfl ((runs_pieces h before .empty).append (runs_single hend))

/-! ## Texts of tokens -/

/-- The lexer has read these tokens, last one first; the last may be a number that goes on. -/
inductive Holds : Lexer → List Token → Prop where
  | between (tokens : List Token) : Holds ⟨tokens, .nothing⟩ tokens
  | inNumber {phase : NumberPhase} (literal : List Char) (before : List Token)
      (hphase : phase.isComplete = true) :
      Holds ⟨before, .number phase literal⟩ (.number literal.reverse :: before)

/-- Where a text ends, the lexer has the tokens that it holds. -/
theorem Holds.finish {lexer : Lexer} {tokens : List Token} (h : lexer.Holds tokens) :
    lexer.finish = some tokens.reverse := by
  cases h with
  | between => rfl
  | inNumber literal before hphase => simp only [Lexer.finish, emit, if_pos hphase]

/-- The characters that may follow a value. -/
def enders : List Char := [' ', '\n', '\t', '\r', ',', ':', ']', '\x7d']

/-- What follows a value is read from between the tokens, whether or not a number has to be ended
before it. -/
theorem Holds.step_eq {lexer : Lexer} {tokens : List Token} {c : Char} (h : lexer.Holds tokens)
    (hender : c ∈ enders) : lexer.step c = begin ⟨tokens, .nothing⟩ c := by
  cases h with
  | between => rfl
  | @inNumber phase literal before hphase =>
      have hend : ∀ c ∈ enders, phase.next? c = none ∧ c.isDigit = false := by
        cases phase <;> simp [NumberPhase.isComplete, NumberPhase.next?, enders] at hphase ⊢
      obtain ⟨hnext, hdigit⟩ := hend c hender
      simp only [step, Lexer.inNumber, hnext, hphase, hdigit, Bool.not_false, Bool.and_self]
      rfl

end Lexer

/-- From any point between tokens the text gives these tokens. -/
def Lexes (text : List Char) (tokens : List Token) : Prop :=
  ∀ before, ∃ lexer, Runs Lexer.step ⟨before, .nothing⟩ text lexer ∧
    lexer.Holds (tokens.reverse ++ before)

/-- The character is a token by itself. -/
def IsMark (c : Char) (token : Token) : Prop :=
  ∀ lexer : Lexer, lexer.begin c = some (lexer.emit token)

section Lexes

variable {text rest blanks : List Char} {tokens later : List Token} {token : Token} {c : Char}

theorem lexes_nil : Lexes [] [] := fun before => ⟨_, runs_nil _ _, .between before⟩

theorem Lexes.of_runs (h : ∀ before, Runs Lexer.step ⟨before, .nothing⟩ text
    ⟨token :: before, .nothing⟩) : Lexes text [token] :=
  fun before => ⟨_, h before, .between _⟩

theorem lexes_numeral (h : Numeral text) : Lexes text [.number text] := by
  intro before
  obtain ⟨phase, hphase, hrun⟩ := Lexer.runs_numeral h before
  have hholds := Lexer.Holds.inNumber text.reverse before hphase
  rw [List.reverse_reverse] at hholds
  exact ⟨_, hrun, hholds⟩

/-- A mark begins a text. -/
theorem Lexes.opened (hmark : IsMark c token) (h : Lexes text tokens) :
    Lexes (c :: text) (token :: tokens) := by
  intro before
  obtain ⟨lexer, hrun, hholds⟩ := h (token :: before)
  refine ⟨lexer, .cons (hmark _) hrun, ?_⟩
  rw [List.reverse_cons, List.append_assoc]
  exact hholds

/-- A mark that may follow a value stands between two texts. -/
theorem Lexes.separated (h : Lexes text tokens) (hender : c ∈ Lexer.enders)
    (hmark : IsMark c token) (hrest : Lexes rest later) :
    Lexes (text ++ c :: rest) (tokens ++ token :: later) := by
  intro before
  obtain ⟨middle, hmiddle, hheld⟩ := h before
  obtain ⟨lexer, hrun, hholds⟩ := hrest (token :: (tokens.reverse ++ before))
  refine ⟨lexer, hmiddle.append (.cons ((hheld.step_eq hender).trans (hmark _)) hrun), ?_⟩
  rw [List.reverse_append, List.reverse_cons, List.append_assoc, List.append_assoc]
  exact hholds

theorem Lexer.begin_of_blank (lexer : Lexer) {c : Char} (h : c ∈ [' ', '\n', '\t', '\r']) :
    lexer.begin c = some lexer := by
  simp only [List.mem_cons, List.not_mem_nil, or_false] at h
  rcases h with rfl | rfl | rfl | rfl <;> rfl

/-- Blanks between tokens are skipped. -/
theorem runs_blanks (h : Blanks blanks) (before : List Token) :
    Runs Lexer.step ⟨before, .nothing⟩ blanks ⟨before, .nothing⟩ :=
  runs_of_forall fun c hc => Lexer.begin_of_blank _ (h c hc)

theorem Lexes.blanks_append (hblanks : Blanks blanks) (h : Lexes text tokens) :
    Lexes (blanks ++ text) tokens := by
  intro before
  obtain ⟨lexer, hrun, hholds⟩ := h before
  exact ⟨lexer, (runs_blanks hblanks before).append hrun, hholds⟩

theorem Lexes.append_blanks (h : Lexes text tokens) (hblanks : Blanks blanks) :
    Lexes (text ++ blanks) tokens := by
  cases blanks with
  | nil => rwa [List.append_nil]
  | cons c rest =>
      intro before
      obtain ⟨lexer, hrun, hholds⟩ := h before
      have hc := hblanks c (List.mem_cons_self ..)
      have hender : c ∈ Lexer.enders := List.mem_append_left [',', ':', ']', '\x7d'] hc
      have hstep : lexer.step c = some ⟨tokens.reverse ++ before, .nothing⟩ :=
        (hholds.step_eq hender).trans (Lexer.begin_of_blank _ hc)
      have hrest : Blanks rest := fun d hd => hblanks d (List.mem_cons_of_mem _ hd)
      exact ⟨_, hrun.append (.cons hstep (runs_blanks hrest _)), .between _⟩

/-- The tokens of a text that holds nothing else. -/
theorem Lexes.ofChars?_eq (h : Lexes text tokens) : Token.ofChars? text = some tokens := by
  obtain ⟨lexer, hrun, hholds⟩ := h []
  have hfold : text.foldlM Lexer.step Lexer.start = some lexer := hrun
  rw [Token.ofChars?, hfold]
  simpa using hholds.finish

end Lexes

end PeerCalls.Json
