import PeerCalls.Proofs.Json.Lexing

/-!
# The reader knows the grammar

The reader takes the tokens of a text one after the other and keeps the brackets that are open.
Whatever brackets are open around it, a value is read from its tokens and put into the innermost
one; items and members are put into their bracket one by one.  `Reads` says this of each phrase,
and with `Lexes` it goes up every derivation of the grammar: a text that spells a value is read as
this value, and as no other one.
-/

namespace PeerCalls.Json

/-! ## From tokens to values -/

namespace Expected

/-- A value may come next. -/
def TakesValue (expected : Expected) : Prop := expected = .value ∨ expected = .itemOrEnd

/-- The name of a member may come next. -/
def TakesName (expected : Expected) : Prop := expected = .name ∨ expected = .nameOrEnd

end Expected

namespace Reader

variable {brackets : List Bracket} {expected : Expected} {token : Token}

/-- A value begins in the same way whether or not an array could end instead. -/
theorem step_value (h : expected.TakesValue) (hne : token ≠ .closeArray) :
    step ⟨brackets, expected⟩ token = beginValue brackets token := by
  rcases h with rfl | rfl
  · rfl
  · exact if_neg hne

theorem step_name (h : expected.TakesName) (name : Text) (members : List (Text × Value)) :
    step ⟨.object members :: brackets, expected⟩ (.string name) =
      some ⟨.member members name :: brackets, .colon⟩ := by
  rcases h with rfl | rfl <;> rfl

/-- The tokens of a value put it into the innermost bracket. -/
def ReadsValue (value : Value) (tokens : List Token) : Prop :=
  ∀ brackets expected reader, expected.TakesValue → put brackets value = some reader →
    Runs step ⟨brackets, expected⟩ tokens reader

/-- The tokens of items put them into their array, after those that it holds. -/
def ReadsItems (items : List Value) (tokens : List Token) : Prop :=
  ∀ before outer expected, expected.TakesValue →
    Runs step ⟨.array before :: outer, expected⟩ tokens
      ⟨.array (items.reverse ++ before) :: outer, .commaOrEnd⟩

/-- The tokens of members put them into their object, after those that it holds. -/
def ReadsMembers (members : List (Text × Value)) (tokens : List Token) : Prop :=
  ∀ before outer expected, expected.TakesName →
    Runs step ⟨.object before :: outer, expected⟩ tokens
      ⟨.object (members.reverse ++ before) :: outer, .commaOrEnd⟩

end Reader

open Reader (ReadsValue ReadsItems ReadsMembers)

/-- The tokens of a phrase are read as what it says.  The only token of a string serves as a name
as well. -/
def Phrase.Reads : Phrase → List Token → Prop
  | .value spelled, tokens =>
    ReadsValue spelled tokens ∧ ∀ text, spelled = .string text → tokens = [.string text]
  | .items spelled, tokens => ReadsItems spelled tokens
  | .member name spelled, tokens => ReadsMembers [(name, spelled)] tokens
  | .members spelled, tokens => ReadsMembers spelled tokens

namespace Reader

variable {value : Value} {items : List Value} {members : List (Text × Value)}
  {tokens later : List Token}

theorem readsValue_single {token : Token} (hne : token ≠ .closeArray)
    (h : ∀ brackets, beginValue brackets token = put brackets value) :
    ReadsValue value [token] := by
  intro brackets expected reader hexpected hput
  exact runs_single ((step_value hexpected hne).trans ((h brackets).trans hput))

theorem readsValue_emptyArray : ReadsValue (.array []) [.openArray, .closeArray] := by
  intro brackets expected reader hexpected hput
  exact .cons (step_value hexpected (by simp)) (runs_single hput)

theorem readsValue_emptyObject : ReadsValue (.object []) [.openObject, .closeObject] := by
  intro brackets expected reader hexpected hput
  exact .cons (step_value hexpected (by simp)) (runs_single hput)

theorem ReadsItems.array (h : ReadsItems items tokens) :
    ReadsValue (.array items) (.openArray :: (tokens ++ [.closeArray])) := by
  intro brackets expected reader hexpected hput
  have hitems := h [] brackets .itemOrEnd (Or.inr rfl)
  have hend : step ⟨.array (items.reverse ++ []) :: brackets, .commaOrEnd⟩ .closeArray =
      some reader := by
    simpa [step, close] using hput
  exact .cons (step_value hexpected (by simp)) (hitems.append (runs_single hend))

theorem ReadsMembers.object (h : ReadsMembers members tokens) :
    ReadsValue (.object members) (.openObject :: (tokens ++ [.closeObject])) := by
  intro brackets expected reader hexpected hput
  have hmembers := h [] brackets .nameOrEnd (Or.inr rfl)
  have hend : step ⟨.object (members.reverse ++ []) :: brackets, .commaOrEnd⟩ .closeObject =
      some reader := by
    simpa [step, close] using hput
  exact .cons (step_value hexpected (by simp)) (hmembers.append (runs_single hend))

theorem ReadsValue.item (h : ReadsValue value tokens) : ReadsItems [value] tokens := by
  intro before outer expected hexpected
  exact h _ expected _ hexpected rfl

theorem ReadsItems.cons (h : ReadsValue value tokens) (hrest : ReadsItems items later) :
    ReadsItems (value :: items) (tokens ++ .comma :: later) := by
  intro before outer expected hexpected
  have hlater := hrest (value :: before) outer .value (Or.inl rfl)
  rw [List.reverse_cons, List.append_assoc]
  exact (h.item before outer expected hexpected).append (.cons rfl hlater)

theorem ReadsValue.member (h : ReadsValue value tokens) (name : Text) :
    ReadsMembers [(name, value)] (.string name :: .colon :: tokens) := by
  intro before outer expected hexpected
  have hvalue := h (.member before name :: outer) .value _ (Or.inl rfl) rfl
  exact .cons (step_name hexpected name before) (.cons rfl hvalue)

theorem ReadsMembers.cons {member : Text × Value} (h : ReadsMembers [member] tokens)
    (hrest : ReadsMembers members later) :
    ReadsMembers (member :: members) (tokens ++ .comma :: later) := by
  intro before outer expected hexpected
  have hlater := hrest (member :: before) outer .name (Or.inl rfl)
  rw [List.reverse_cons, List.append_assoc]
  exact (h before outer expected hexpected).append (.cons rfl hlater)

end Reader

/-! ## From texts to values -/

/-- A text that spells a phrase consists of tokens that are read as this phrase. -/
theorem Phrase.SpelledBy.exists_tokens {phrase : Phrase} {text : List Char}
    (h : phrase.SpelledBy text) : ∃ tokens, Lexes text tokens ∧ phrase.Reads tokens := by
  have hword : ∀ {word token}, token ≠ Token.closeArray →
      (∀ brackets, Reader.beginValue brackets token = Reader.put brackets word) →
      (∀ text, word ≠ .string text) → (Phrase.value word).Reads [token] :=
    fun hne hbegin hword =>
      ⟨Reader.readsValue_single hne hbegin, fun text hsame => absurd hsame (hword text)⟩
  induction h with
  | nullWord => exact ⟨[.null], .of_runs fun _ => rfl, hword (by simp) (fun _ => rfl) (by simp)⟩
  | trueWord =>
      exact ⟨[.bool _], .of_runs fun _ => rfl, hword (by simp) (fun _ => rfl) (by simp)⟩
  | falseWord =>
      exact ⟨[.bool _], .of_runs fun _ => rfl, hword (by simp) (fun _ => rfl) (by simp)⟩
  | number hnumeral =>
      exact ⟨[.number _], lexes_numeral hnumeral, hword (by simp) (fun _ => rfl) (by simp)⟩
  | string hpieces =>
      refine ⟨[.string _], .of_runs (Lexer.runs_string hpieces),
        Reader.readsValue_single (by simp) fun _ => rfl, fun text hsame => ?_⟩
      rw [Value.string.inj hsame]
  | @emptyArray blanks hblanks =>
      have hclosed : Lexes (blanks ++ [']']) [.closeArray] :=
        (lexes_nil.append_blanks hblanks).separated (by decide) (fun _ => rfl) lexes_nil
      exact ⟨_, hclosed.opened fun _ => rfl, Reader.readsValue_emptyArray, by simp⟩
  | @array items text _ ih =>
      obtain ⟨tokens, hlexes, hreads⟩ := ih
      have hclosed : Lexes (text ++ [']']) (tokens ++ [.closeArray]) :=
        hlexes.separated (by decide) (fun _ => rfl) lexes_nil
      exact ⟨_, hclosed.opened fun _ => rfl, Reader.ReadsItems.array hreads, by simp⟩
  | @emptyObject blanks hblanks =>
      have hclosed : Lexes (blanks ++ ['\x7d']) [.closeObject] :=
        (lexes_nil.append_blanks hblanks).separated (by decide) (fun _ => rfl) lexes_nil
      exact ⟨_, hclosed.opened fun _ => rfl, Reader.readsValue_emptyObject, by simp⟩
  | @object members text _ ih =>
      obtain ⟨tokens, hlexes, hreads⟩ := ih
      have hclosed : Lexes (text ++ ['\x7d']) (tokens ++ [.closeObject]) :=
        hlexes.separated (by decide) (fun _ => rfl) lexes_nil
      exact ⟨_, hclosed.opened fun _ => rfl, Reader.ReadsMembers.object hreads, by simp⟩
  | padded hbefore _ hafter ih =>
      obtain ⟨tokens, hlexes, hreads⟩ := ih
      exact ⟨tokens, (hlexes.blanks_append hbefore).append_blanks hafter, hreads⟩
  | lastItem _ ih =>
      obtain ⟨tokens, hlexes, hreads⟩ := ih
      exact ⟨tokens, hlexes, hreads.1.item⟩
  | item _ _ ih ihrest =>
      obtain ⟨tokens, hlexes, hreads⟩ := ih
      obtain ⟨later, hlater, hitems⟩ := ihrest
      exact ⟨_, hlexes.separated (by decide) (fun _ => rfl) hlater,
        Reader.ReadsItems.cons hreads.1 hitems⟩
  | named _ _ ihname ih =>
      obtain ⟨quoted, hquoted, -, hname⟩ := ihname
      obtain ⟨tokens, hlexes, hreads⟩ := ih
      obtain rfl := hname _ rfl
      exact ⟨_, hquoted.separated (by decide) (fun _ => rfl) hlexes, hreads.1.member _⟩
  | lastMember _ ih => exact ih
  | member _ _ ih ihrest =>
      obtain ⟨tokens, hlexes, hreads⟩ := ih
      obtain ⟨later, hlater, hmembers⟩ := ihrest
      exact ⟨_, hlexes.separated (by decide) (fun _ => rfl) hlater,
        Reader.ReadsMembers.cons hreads hmembers⟩

/-- Every text that spells a value is read as this value. -/
theorem Value.SpelledBy.ofText?_eq {value : Value} {text : String} (h : value.SpelledBy text) :
    Value.ofText? text = some value := by
  obtain ⟨tokens, hlexes, hreads, -⟩ := Phrase.SpelledBy.exists_tokens h
  have hrun : tokens.foldlM Reader.step Reader.start = some ⟨[], .done value⟩ :=
    hreads [] .value _ (Or.inl rfl) rfl
  rw [ofText?, hlexes.ofChars?_eq, Option.bind_some, ofTokens?, hrun]
  rfl

end PeerCalls.Json
