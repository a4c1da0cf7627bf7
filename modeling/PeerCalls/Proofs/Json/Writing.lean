import Mathlib.Data.List.Forall2
import PeerCalls.Proofs.Json.Records

/-!
# Compact texts are in the grammar

The compact writer puts a name between quotes as it is, so what it writes is a string literal if
none of the characters needs an escape.  With names of this kind, an object of written values
spells the record of the values.
-/

namespace PeerCalls.Json

/-- The character may stand in a string literal as it is. -/
def IsPlain (c : Char) : Prop := 0x20 ≤ c.toNat ∧ c ≠ '"' ∧ c ≠ '\\'

instance (c : Char) : Decidable (IsPlain c) := inferInstanceAs (Decidable (_ ∧ _))

/-- The name needs no escapes. -/
def IsPlainName (name : String) : Prop := ∀ c ∈ name.toList, IsPlain c

instance (name : String) : Decidable (IsPlainName name) :=
  List.decidableBAll _ name.toList

namespace Piece

/-- Plain characters stand for themselves, whatever follows. -/
theorem SpelledBy.plain_append {pieces : List Piece} {rest : List Char} (text : List Char)
    (h : ∀ c ∈ text, IsPlain c) (hrest : SpelledBy pieces rest) :
    SpelledBy (text.map char ++ pieces) (text ++ rest) := by
  induction text with
  | nil => exact hrest
  | cons c later ih =>
      obtain ⟨hprintable, hquote, hbackslash⟩ := h c (List.mem_cons_self ..)
      exact .plain hprintable hquote hbackslash
        (ih fun d hd => h d (List.mem_cons_of_mem _ hd))

theorem meaning?_chars (text : List Char) : meaning? (text.map char) = some text := by
  induction text with
  | nil => rfl
  | cons c rest ih =>
      rw [List.map_cons, meaning?, ih]
      rfl

end Piece

namespace Phrase

/-- A plain name in quotes spells the name. -/
theorem spelledBy_quoted {name : String} (h : IsPlainName name) :
    (value (.string (some name))).SpelledBy (Compact.quoted name) := by
  have htext : Piece.text (name.toList.map Piece.char) = some name := by
    rw [Piece.text, Piece.meaning?_chars, Option.map_some, String.ofList_toList]
  have hspelled := SpelledBy.string (.plain_append name.toList h .nil)
  rwa [List.append_nil, List.append_nil, htext] at hspelled

theorem spelledBy_natural (n : Nat) : (value (.natural n)).SpelledBy (Compact.natural n) :=
  .number (numeral_natural n)

/-- The name is plain, and the value is spelled by what is written of it. -/
structure Writes (field : String × Value) (written : String × List Char) : Prop where
  name : field.1 = written.1
  plain : IsPlainName field.1
  spelled : (value field.2).SpelledBy written.2

theorem writes {name : String} {spelled : Value} {text : List Char} (hplain : IsPlainName name)
    (h : (value spelled).SpelledBy text) : Writes (name, spelled) (name, text) :=
  ⟨rfl, hplain, h⟩

theorem Writes.member {field : String × Value} {written : String × List Char}
    (h : Writes field written) :
    (member (some field.1) field.2).SpelledBy (Compact.member written.1 written.2) := by
  rw [Compact.member, ← h.name]
  exact .named (spelledBy_quoted h.plain) h.spelled

/-- The members of an object, with a comma between any two, spell the fields. -/
theorem spelledBy_separated {fields : Value.Fields} {written : List (String × List Char)}
    (h : List.Forall₂ Writes fields written) (hne : fields ≠ []) :
    (members (fields.map fun field => (some field.1, field.2))).SpelledBy
      (Compact.separated (written.map fun (name, text) => Compact.member name text)) := by
  induction h with
  | nil => exact absurd rfl hne
  | @cons field first fields written hfield hrest ih =>
      cases hrest with
      | nil => exact .lastMember hfield.member
      | cons hnext hlater => exact .member hfield.member (ih (List.cons_ne_nil _ _))

/-- A compact object spells the record of what is written in it. -/
theorem spelledBy_object {fields : Value.Fields} {written : List (String × List Char)}
    (h : List.Forall₂ Writes fields written) :
    (value (.record fields)).SpelledBy (Compact.object written) := by
  cases h with
  | nil => exact @SpelledBy.emptyObject [] (by simp [Blanks])
  | cons hfield hrest =>
      exact .object (spelledBy_separated (.cons hfield hrest) (List.cons_ne_nil _ _))

end Phrase

end PeerCalls.Json
