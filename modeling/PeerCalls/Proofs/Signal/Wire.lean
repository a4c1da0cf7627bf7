import Mathlib.Logic.Function.Basic
import PeerCalls.Proofs.Json.Reading
import PeerCalls.Proofs.Json.Writing
import PeerCalls.Signal.Json

/-!
# Signals on the wire

The compact text of a signal spells a value of the grammar, and every text that spells a value is
read as this value.  So it is enough to look at values: a signal with fields is read from any
object that has these fields, once each, in whatever order and among whatever other members; and
from an object that lacks one of them, or has it twice, it is not read at all.
-/

namespace PeerCalls

open Json (Value Compact.natural Phrase)

theorem MediaKind.ofJson?_name (kind : MediaKind) :
    ofJson? (.string (some kind.name)) = some kind := by
  cases kind <;> rfl

theorem Control.ofJson?_name (command : Control) :
    ofJson? (.string (some command.name)) = some command := by
  cases command <;> rfl

/-! ## The fields of a signal -/

namespace Rates

variable {rates : Rates} {fields : Value.Fields}

/-- The fields of the rates with their values. -/
def form (rates : Rates) : Value.Fields :=
  [("audio_bit_rate", .natural rates.audio.toNat), ("video_bit_rate", .natural rates.video.toNat)]

theorem spelledBy_toJson (rates : Rates) :
    (Phrase.value (.record rates.form)).SpelledBy rates.toJson :=
  Phrase.spelledBy_object (.cons (Phrase.writes (by decide) (Phrase.spelledBy_natural _))
    (.cons (Phrase.writes (by decide) (Phrase.spelledBy_natural _)) .nil))

/-- The rates are read from any object that has them, besides members of other names. -/
theorem ofJson?_record
    (h : (Value.known ["audio_bit_rate", "video_bit_rate"] fields).Perm rates.form) :
    ofJson? (.record fields) = some rates := by
  obtain ⟨found, hfound, haudio, hvideo⟩ := Value.exists_pair (by decide) h
    (Value.uint32?_natural rates.audio) (Value.uint32?_natural rates.video)
  simp only [ofJson?, hfound, haudio, hvideo]

theorem count_eq_one_of_ofJson? (h : ofJson? (.record fields) = some rates) :
    ∀ name ∈ ["audio_bit_rate", "video_bit_rate"], (fields.map Prod.fst).count name = 1 := by
  unfold ofJson? at h
  split at h
  · cases h
  rename_i found hfound
  split at h
  · rename_i haudio hvideo
    exact Value.count_eq_one_of_pair hfound haudio hvideo
  · cases h

end Rates

namespace Signal

variable {signal : Signal} {tag : String} {form fields : Value.Fields} {text : String}

/-- The fields of a change of rate with their values. -/
def rateForm (kind : MediaKind) (rate : UInt32) : Value.Fields :=
  [("kind", .string (some kind.name)), ("bit_rate", .natural rate.toNat)]

/-- The type of a signal that has fields, as it is written, and the fields with their values. -/
def form? : Signal → Option (String × Value.Fields)
  | invite rates => some ("Invite", rates.form)
  | answer rates => some ("Answer", rates.form)
  | control _ => none
  | bitRate kind rate => some ("BitRate", rateForm kind rate)

/-- The signals that have fields. -/
theorem form?_cases (h : signal.form? = some (tag, form)) :
    (∃ rates : Rates, signal = invite rates ∧ tag = "Invite" ∧ form = rates.form) ∨
    (∃ rates : Rates, signal = answer rates ∧ tag = "Answer" ∧ form = rates.form) ∨
    ∃ kind rate, signal = bitRate kind rate ∧ tag = "BitRate" ∧ form = rateForm kind rate := by
  cases signal <;> cases h
  · exact .inl ⟨_, rfl, rfl, rfl⟩
  · exact .inr (.inl ⟨_, rfl, rfl, rfl⟩)
  · exact .inr (.inr ⟨_, _, rfl, rfl, rfl⟩)

theorem rateOfJson?_record {kind : MediaKind} {rate : UInt32}
    (h : (Value.known ["kind", "bit_rate"] fields).Perm (rateForm kind rate)) :
    rateOfJson? (.record fields) = some (bitRate kind rate) := by
  obtain ⟨found, hfound, hkind, hrate⟩ := Value.exists_pair (by decide) h
    kind.ofJson?_name (Value.uint32?_natural rate)
  simp only [rateOfJson?, hfound, hkind, hrate]

theorem count_eq_one_of_rateOfJson? (h : rateOfJson? (.record fields) = some signal) :
    ∀ name ∈ ["kind", "bit_rate"], (fields.map Prod.fst).count name = 1 := by
  unfold rateOfJson? at h
  split at h
  · cases h
  rename_i found hfound
  split at h
  · rename_i hkind hrate
    exact Value.count_eq_one_of_pair hfound hkind hrate
  · cases h

/-- An object with one member is read by the name of the member. -/
theorem ofJson?_tagged (tag : String) (value : Value) :
    ofJson? (.record [(tag, value)]) = ofMember? tag value := rfl

/-- A signal is read from any object of its type that has its fields, besides members of other
names. -/
theorem ofMember?_of_perm (hform : signal.form? = some (tag, form))
    (h : (Value.known (form.map Prod.fst) fields).Perm form) :
    ofMember? tag (.record fields) = some signal := by
  rcases form?_cases hform with
    ⟨rates, rfl, rfl, rfl⟩ | ⟨rates, rfl, rfl, rfl⟩ | ⟨kind, rate, rfl, rfl, rfl⟩
  · exact congrArg (Option.map invite) (Rates.ofJson?_record h)
  · exact congrArg (Option.map answer) (Rates.ofJson?_record h)
  · exact rateOfJson?_record h

/-- Whatever signal is read from an object of this type, each field of the type is there once. -/
theorem count_eq_one_of_ofMember? {read : Signal} (hform : signal.form? = some (tag, form))
    (h : ofMember? tag (.record fields) = some read) :
    ∀ name ∈ form.map Prod.fst, (fields.map Prod.fst).count name = 1 := by
  rcases form?_cases hform with
    ⟨rates, -, rfl, rfl⟩ | ⟨rates, -, rfl, rfl⟩ | ⟨kind, rate, -, rfl, rfl⟩
  · obtain ⟨found, hfound, -⟩ := Option.map_eq_some_iff.mp h
    exact Rates.count_eq_one_of_ofJson? hfound
  · obtain ⟨found, hfound, -⟩ := Option.map_eq_some_iff.mp h
    exact Rates.count_eq_one_of_ofJson? hfound
  · exact count_eq_one_of_rateOfJson? h

/-! ## The texts of a signal -/

/-- The value that the compact text of a signal spells. -/
def toValue : Signal → Value
  | invite rates => .record [("Invite", .record rates.form)]
  | answer rates => .record [("Answer", .record rates.form)]
  | control command => .record [("Control", .string (some command.name))]
  | bitRate kind rate => .record [("BitRate", .record (rateForm kind rate))]

theorem spelledBy_toJson (signal : Signal) :
    (Phrase.value signal.toValue).SpelledBy signal.toJson := by
  have htagged : ∀ {tag value text}, Json.IsPlainName tag → (Phrase.value value).SpelledBy text →
      (Phrase.value (.record [(tag, value)])).SpelledBy (Json.Compact.object [(tag, text)]) :=
    fun hplain h => Phrase.spelledBy_object (.cons (Phrase.writes hplain h) .nil)
  cases signal with
  | invite rates => exact htagged (by decide) rates.spelledBy_toJson
  | answer rates => exact htagged (by decide) rates.spelledBy_toJson
  | control command =>
      have hplain : Json.IsPlainName command.name := by cases command <;> decide
      exact htagged (by decide) (Phrase.spelledBy_quoted hplain)
  | bitRate kind rate =>
      have hplain : Json.IsPlainName kind.name := by cases kind <;> decide
      exact htagged (by decide) (Phrase.spelledBy_object
        (.cons (Phrase.writes (by decide) (Phrase.spelledBy_quoted hplain))
          (.cons (Phrase.writes (by decide) (Phrase.spelledBy_natural _)) .nil)))

theorem ofJson?_toValue (signal : Signal) : ofJson? signal.toValue = some signal := by
  have hfields : ∀ {tag form}, signal.form? = some (tag, form) →
      Value.known (form.map Prod.fst) form = form →
      ofJson? (.record [(tag, .record form)]) = some signal := by
    intro tag form hform hknown
    rw [ofJson?_tagged]
    exact ofMember?_of_perm hform (by rw [hknown])
  cases signal with
  | invite rates => exact hfields rfl rfl
  | answer rates => exact hfields rfl rfl
  | control command => exact congrArg (Option.map control) command.ofJson?_name
  | bitRate kind rate => exact hfields rfl rfl

theorem spelledBy_text (signal : Signal) :
    signal.toValue.SpelledBy (String.ofList signal.toJson) := by
  rw [Value.SpelledBy, String.toList_ofList]
  exact signal.spelledBy_toJson

theorem read_toJson (signal : Signal) :
    (Value.ofText? (String.ofList signal.toJson)).bind ofJson? = some signal := by
  rw [signal.spelledBy_text.ofText?_eq]
  exact signal.ofJson?_toValue

/-- The object form of a signal with fields, as the compact text gives it. -/
theorem toValue_eq (hform : signal.form? = some (tag, form)) :
    signal.toValue = .record [(tag, .record form)] := by
  rcases form?_cases hform with
    ⟨rates, rfl, rfl, rfl⟩ | ⟨rates, rfl, rfl, rfl⟩ | ⟨kind, rate, rfl, rfl, rfl⟩ <;> rfl

/-- Every signal is read back from its compact text, so no two signals have the same one.  The
compact text of a signal with fields spells an object of these fields under the type of the
signal.  A text that spells an object of this type is read as the signal if it has the fields of
the signal in any order, besides members of other names; it is refused if one of these fields is
missing or repeated. -/
theorem survives_wire :
    (∀ signal : Signal,
      (Value.ofText? (String.ofList signal.toJson)).bind ofJson? = some signal) ∧
    Function.Injective toJson ∧
    ∀ (signal : Signal) (tag : String) (form : Value.Fields), signal.form? = some (tag, form) →
      (Value.record [(tag, .record form)]).SpelledBy (String.ofList signal.toJson) ∧
      ∀ (fields : Value.Fields) (text : String),
        (Value.record [(tag, .record fields)]).SpelledBy text →
        ((Value.known (form.map Prod.fst) fields).Perm form →
          (Value.ofText? text).bind ofJson? = some signal) ∧
        ((∃ name ∈ form.map Prod.fst, (fields.map Prod.fst).count name ≠ 1) →
          (Value.ofText? text).bind ofJson? = none) := by
  refine ⟨read_toJson, ?_, ?_⟩
  · intro signal other hsame
    have hread := read_toJson signal
    rw [hsame, read_toJson other] at hread
    exact (Option.some.inj hread).symm
  · intro signal tag form hform
    refine ⟨?_, ?_⟩
    · rw [← toValue_eq hform]
      exact signal.spelledBy_text
    · intro fields text hspelled
      rw [hspelled.ofText?_eq, Option.bind_some, ofJson?_tagged]
      refine ⟨ofMember?_of_perm hform, ?_⟩
      rintro ⟨name, hname, hcount⟩
      refine Option.eq_none_iff_forall_ne_some.mpr fun read hread => hcount ?_
      exact count_eq_one_of_ofMember? hform hread name hname

example : (bitRate .video 500).toJson =
    "\x7b\"BitRate\":\x7b\"kind\":\"Video\",\"bit_rate\":500\x7d\x7d".toList := by
  rfl

/-- The fields of a change of rate in the other order, with a member between them that is none of
them. -/
def roundaboutFields : Value.Fields :=
  [("bit_rate", .natural 500), ("A", .array [.number ['-', '1', 'e', '3'], .object []]),
    ("kind", .string (some "Video"))]

/-- A text of these fields, with an escape in a name and with blanks. -/
def roundabout : String :=
  " \x7b\"BitRate\":\x7b\"bit_rate\":500,\"\\u0041\":[-1e3, \x7b\x7d],\"kind\":\"Video\"\x7d\x7d"

theorem spelledBy_roundabout :
    (Value.record [("BitRate", .record roundaboutFields)]).SpelledBy roundabout := by
  have hspace : Json.Blanks [' '] := by decide
  have hnone : Json.Blanks [] := by decide
  have hrate := Phrase.SpelledBy.named (@Phrase.spelledBy_quoted "bit_rate" (by decide))
    (Phrase.spelledBy_natural 500)
  have hkind := Phrase.SpelledBy.named (@Phrase.spelledBy_quoted "kind" (by decide))
    (@Phrase.spelledBy_quoted "Video" (by decide))
  have hescaped : (Phrase.value (.string (some "A"))).SpelledBy "\"\\u0041\"".toList :=
    .string (@Json.Piece.SpelledBy.unit '0' '0' '4' '1' 0 0 4 1 _ _
      (Or.inl rfl) (Or.inl rfl) (Or.inl rfl) (Or.inl rfl) .nil)
  have hnumber : Json.Numeral ['-', '1', 'e', '3'] :=
    @Json.Numeral.negative ['1'] [] ['e', '3'] (by decide) .absent
      (.plain (by decide) (by decide))
  have hlist := Phrase.SpelledBy.array
    (.item (.number hnumber) (.lastItem (.padded hspace (.emptyObject hnone) hnone)))
  have hfields := Phrase.SpelledBy.object
    (.member hrate (.member (.named hescaped hlist) (.lastMember hkind)))
  exact Phrase.SpelledBy.padded hspace
    (.object (.lastMember (.named (@Phrase.spelledBy_quoted "BitRate" (by decide)) hfields))) hnone

/-- A text of a change of rate that says for what kind of media, but not which rate. -/
def rateless : String := "\x7b\"BitRate\":\x7b\"kind\":\"Video\"\x7d\x7d"

theorem spelledBy_rateless :
    (Value.record [("BitRate", .record [("kind", .string (some "Video"))])]).SpelledBy
      rateless := by
  have hkind := Phrase.SpelledBy.named (@Phrase.spelledBy_quoted "kind" (by decide))
    (@Phrase.spelledBy_quoted "Video" (by decide))
  exact .object (.lastMember (.named (@Phrase.spelledBy_quoted "BitRate" (by decide))
    (.object (.lastMember hkind))))

/-- A change of rate is read from the text in the other order, and not from the text without the
rate. -/
theorem survives_wire_roundabout :
    (Value.ofText? roundabout).bind ofJson? = some (bitRate .video 500) ∧
      (Value.ofText? rateless).bind ofJson? = none := by
  obtain ⟨-, htexts⟩ := survives_wire.2.2 (bitRate .video 500) "BitRate" _ rfl
  refine ⟨(htexts roundaboutFields roundabout spelledBy_roundabout).1 (List.Perm.swap _ _ _), ?_⟩
  exact (htexts _ rateless spelledBy_rateless).2 ⟨"bit_rate", by decide, by decide⟩

end Signal

end PeerCalls
