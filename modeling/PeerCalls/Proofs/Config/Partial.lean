import PeerCalls.Config.Json
import PeerCalls.Loopback
import PeerCalls.Proofs.Config.Usable
import PeerCalls.Proofs.Json.Reading
import PeerCalls.Proofs.Json.Writing
import PeerCalls.Proofs.Session.Outcomes

/-!
# Configurations in part

A text need not give all fields of a configuration.  The fields that it gives may stand in any
order and among other members, and the remaining ones are standard.  What comes of it takes each
field from one of two usable configurations; since a configuration is usable field by field, it is
usable as well, and the check after reading lets it pass.
-/

namespace PeerCalls.Config

open Json (Value Phrase)

variable {config other : Config} {given : String → Bool} {fields found : Value.Fields}
  {text : String}

/-! ## Two configurations in one -/

/-- The given fields of one configuration, and the fields of the other besides. -/
def mixed (given : String → Bool) (config other : Config) : Config :=
  let rates (set : RateSet) := if given set.name then config.rates set else other.rates set
  let word (name : String) (part : Config → UInt64) :=
    if given name then part config else part other
  ⟨⟨rates .audioBitRates, rates .videoBitRates⟩, rates .samplingRates,
    word "idle_interval_ms" (·.idleInterval),
    ⟨word "audio_interval_ms" (·.frameIntervals.audio),
      word "video_interval_ms" (·.frameIntervals.video)⟩,
    word "max_inbound_per_iteration" (·.inboundLimit)⟩

theorem rates_mixed (given : String → Bool) (config other : Config) (set : RateSet) :
    (mixed given config other).rates set =
      if given set.name then config.rates set else other.rates set := by
  cases set <;> rfl

/-- What holds of a field of both configurations holds of the field of the mixture. -/
theorem usable_mixed (given : String → Bool) (h : config.Usable) (h' : other.Usable) :
    (mixed given config other).Usable := by
  obtain ⟨hrates, ⟨hidle, haudio, hvideo⟩, hlimit⟩ := usable_iff.mp h
  obtain ⟨hrates', ⟨hidle', haudio', hvideo'⟩, hlimit'⟩ := usable_iff.mp h'
  have hword : ∀ {name : String} {word word' : UInt64}, word ≠ 0 → word' ≠ 0 →
      (if given name then word else word') ≠ 0 := by
    intro name word word' hword hword'
    split <;> assumption
  refine usable_iff.mpr ⟨fun set => ?_, ⟨hword hidle hidle', hword haudio haudio',
    hword hvideo hvideo'⟩, hword hlimit hlimit'⟩
  rw [rates_mixed]
  split
  · exact hrates set
  · exact hrates' set

/-! ## The fields of a configuration -/

/-- A list of rates as a value. -/
def ratesValue (config : Config) (set : RateSet) : Value :=
  .array ((config.rates set).map fun rate => .natural rate.toNat)

/-- The fields of a configuration with their values. -/
def form (config : Config) : Value.Fields :=
  let rates (set : RateSet) := (set.name, config.ratesValue set)
  let word (name : String) (value : UInt64) := (name, Value.natural value.toNat)
  [rates .audioBitRates, rates .videoBitRates, rates .samplingRates,
    word "idle_interval_ms" config.idleInterval,
    word "audio_interval_ms" config.frameIntervals.audio,
    word "video_interval_ms" config.frameIntervals.video,
    word "max_inbound_per_iteration" config.inboundLimit]

theorem names_form (config : Config) : config.form.map Prod.fst = fieldNames := rfl

/-- The fields of a configuration that are given. -/
def givenForm (given : String → Bool) (config : Config) : Value.Fields :=
  config.form.filter fun field => given field.1

theorem nodup_givenForm (given : String → Bool) (config : Config) :
    ((config.givenForm given).map Prod.fst).Nodup := by
  have hnodup : (config.form.map Prod.fst).Nodup := by
    rw [names_form]
    decide
  exact hnodup.sublist (List.filter_sublist.map Prod.fst)

theorem lookup_ratesValue (config : Config) (set : RateSet) :
    config.form.lookup set.name = some (config.ratesValue set) := by
  cases set <;> rfl

/-- The lists of rates are those of the configuration where they are given, and standard where
they are not. -/
theorem rateField?_of_lookup
    (hfound : ∀ name, found.lookup name = (config.givenForm given).lookup name) (set : RateSet) :
    rateField? found set = some ((mixed given config standard).rates set) := by
  have hlookup : found.lookup set.name =
      if given set.name then some (config.ratesValue set) else none := by
    rw [hfound, givenForm, Value.lookup_filter, lookup_ratesValue]
  rw [rateField?, rates_mixed]
  exact Value.optional?_of_lookup _ hlookup (Value.list?_map Value.uint32?_natural _)

/-- A number is that of the configuration where it is given, and standard where it is not. -/
theorem wordField?_of_lookup {name : String} {word : UInt64} (default : UInt64)
    (hfound : ∀ name, found.lookup name = (config.givenForm given).lookup name)
    (hword : config.form.lookup name = some (.natural word.toNat)) :
    Value.optional? found name Value.uint64? default =
      some (if given name then word else default) := by
  have hlookup : found.lookup name = if given name then some (.natural word.toNat) else none := by
    rw [hfound, givenForm, Value.lookup_filter, hword]
  exact Value.optional?_of_lookup default hlookup (Value.uint64?_natural word)

theorem ofFields?_of_lookup
    (hfound : ∀ name, found.lookup name = (config.givenForm given).lookup name) :
    ofFields? found = some (mixed given config standard) := by
  simp only [ofFields?, rateField?_of_lookup hfound,
    @wordField?_of_lookup _ _ _ "idle_interval_ms" config.idleInterval _ hfound rfl,
    @wordField?_of_lookup _ _ _ "audio_interval_ms" config.frameIntervals.audio _ hfound rfl,
    @wordField?_of_lookup _ _ _ "video_interval_ms" config.frameIntervals.video _ hfound rfl,
    @wordField?_of_lookup _ _ _ "max_inbound_per_iteration" config.inboundLimit _ hfound rfl]
  rfl

/-- The given fields are read from any object that has them, besides members of other names. -/
theorem ofJson?_record (h : (Value.known fieldNames fields).Perm (config.givenForm given)) :
    ofJson? (.record fields) = some (mixed given config standard) := by
  obtain ⟨found, hfound, hlookup⟩ := Value.fields?_of_perm h (nodup_givenForm given config)
  rw [ofJson?, hfound, Option.bind_some, ofFields?_of_lookup hlookup]

/-! ## Texts -/

theorem ofText_eq_ok_iff :
    ofText text = .ok config ↔
      (Value.ofText? text).bind ofJson? = some config ∧ config.Usable := by
  unfold ofText
  cases (Value.ofText? text).bind ofJson? with
  | none => simp
  | some read => cases hdefect : read.defect? <;> grind

/-- A text that gives some fields of a usable configuration, each once, in any order, besides
members of other names and with any blanks, is read as these fields and the standard ones.
Whatever configuration is read from any text is usable, so its lists of rates hold something and
no zero, its intervals and its limit are not zero, and it opens a session on every network that is
not claimed. -/
theorem partial_means_standard :
    (∀ (config : Config) (given : String → Bool) (fields : Value.Fields) (text : String),
      config.Usable → (Value.record fields).SpelledBy text →
      (Value.known fieldNames fields).Perm (config.givenForm given) →
      ofText text = .ok (mixed given config standard)) ∧
    ∀ (text : String) (config : Config), ofText text = .ok config →
      config.Usable ∧ (∀ set, config.rates set ≠ [] ∧ 0 ∉ config.rates set) ∧
      (config.idleInterval ≠ 0 ∧ config.frameIntervals.audio ≠ 0 ∧
        config.frameIntervals.video ≠ 0) ∧ config.inboundLimit ≠ 0 ∧
      ∀ (σ : Type) (network : Network σ) (state opened : σ),
        network.attach state = (true, opened) →
        ∃ usable, Session.attach network config state = (.ok (.fresh config usable), opened) := by
  refine ⟨?_, ?_⟩
  · intro config given fields text husable hspelled hfields
    refine ofText_eq_ok_iff.mpr ⟨?_, usable_mixed given husable standard_usable⟩
    rw [hspelled.ofText?_eq, Option.bind_some, ofJson?_record hfields]
  · intro text config hread
    have husable := (ofText_eq_ok_iff.mp hread).2
    obtain ⟨hrates, hintervals, hlimit⟩ := usable_iff.mp husable
    exact ⟨husable, hrates, hintervals, hlimit, fun σ network state opened hgranted =>
      ⟨husable, Session.attach_of_usable husable hgranted⟩⟩

/-- A configuration for compact discs, with waits of a second while nothing flows. -/
def compactDisc : Config :=
  { standard with samplingRates := [44100], idleInterval := 1000, inboundLimit := 7 }

/-- Two of its fields, with a member between them that is none of them. -/
def compactDiscFields : Value.Fields :=
  [("idle_interval_ms", .natural 1000), ("spare", .object []),
    ("sampling_rates", .array [.natural 44100])]

/-- A text of these fields with a blank. -/
def compactDiscText : String :=
  "\x7b\"idle_interval_ms\": 1000,\"spare\":\x7b\x7d,\"sampling_rates\":[44100]\x7d"

theorem spelledBy_compactDiscText : (Value.record compactDiscFields).SpelledBy compactDiscText := by
  have hspace : Json.Blanks [' '] := by decide
  have hnone : Json.Blanks [] := by decide
  have hidle := Phrase.SpelledBy.named (@Phrase.spelledBy_quoted "idle_interval_ms" (by decide))
    (.padded hspace (Phrase.spelledBy_natural 1000) hnone)
  have hspare := Phrase.SpelledBy.named (@Phrase.spelledBy_quoted "spare" (by decide))
    (.emptyObject hnone)
  have hsampling := Phrase.SpelledBy.named (@Phrase.spelledBy_quoted "sampling_rates" (by decide))
    (.array (.lastItem (Phrase.spelledBy_natural 44100)))
  exact .object (.member hidle (.member hspare (.lastMember hsampling)))

/-- The text gives two fields and leaves the others standard, and a session can be opened with
what is read from it. -/
theorem partial_means_standard_compactDisc :
    ofText compactDiscText =
        .ok { standard with samplingRates := [44100], idleInterval := 1000 } ∧
      ∃ session : Session, (Session.attach (Hub.node 0)
        { standard with samplingRates := [44100], idleInterval := 1000 }
        (Hub.fresh 1)).1 = .ok session := by
  have hread : ofText compactDiscText =
      .ok { standard with samplingRates := [44100], idleInterval := 1000 } :=
    partial_means_standard.1 compactDisc
      (fun name => name = "idle_interval_ms" || name = "sampling_rates")
      compactDiscFields compactDiscText (by decide) spelledBy_compactDiscText
      (List.Perm.swap _ _ _)
  obtain ⟨-, -, -, -, hopens⟩ := partial_means_standard.2 compactDiscText _ hread
  obtain ⟨usable, hopened⟩ := hopens Hub (Hub.node 0) (Hub.fresh 1) _ rfl
  exact ⟨hread, _, congrArg Prod.fst hopened⟩

end PeerCalls.Config
