import PeerCalls.Json.Value

/-!
# Reading domain values from JSON

The common rules by which records, choices and numbers are read: a record is an
object whose named fields occur at most once, with any other members besides,
or an array of its fields in order; a choice without a value is its name, or an
object that gives the name the value null; a number is a plain natural in range.
-/

namespace PeerCalls.Json.Value

/-- The natural that decimal digits denote; nothing without digits or with
another character among them. -/
def naturalOfDigits? (digits : List Char) : Option Nat :=
  if digits ≠ [] ∧ digits.all Char.isDigit then
    some (digits.foldl (fun value digit => value * 10 + (digit.toNat - '0'.toNat)) 0)
  else
    none

/-- A natural below `bound`, written with digits only. -/
def naturalBelow? (bound : Nat) : Value → Option Nat
  | number literal =>
    match naturalOfDigits? literal with
    | some value => if value < bound then some value else none
    | none => none
  | _ => none

def uint32? (value : Value) : Option UInt32 :=
  (value.naturalBelow? UInt32.size).map UInt32.ofNat

def uint64? (value : Value) : Option UInt64 :=
  (value.naturalBelow? UInt64.size).map UInt64.ofNat

/-- The items of an array, each read in the same way. -/
def list? {α : Type} (read : Value → Option α) : Value → Option (List α)
  | array items => items.mapM read
  | _ => none

/-- A choice without a value, by its name. -/
def choice? {α : Type} (choices : List α) (name : α → String) : Value → Option α
  | string (some text) => choices.find? fun choice => name choice = text
  | object [(some text, null)] => choices.find? fun choice => name choice = text
  | _ => none

/-- The named fields that a record gives. -/
abbrev Fields := List (String × Value)

/-- The members of an object with their names, if all names are texts. -/
def named? (members : List (Text × Value)) : Option Fields :=
  members.mapM fun member => member.1.map fun name => (name, member.2)

/-- The fields of a record with the given names: those of an object, each at most
once, or the first ones in order. -/
def fields? (names : List String) : Value → Option Fields
  | object members =>
    match named? members with
    | some fields =>
      let known := fields.filter fun field => names.contains field.1
      if (known.map Prod.fst).Nodup then some known else none
    | none => none
  | array items => if items.length ≤ names.length then some (names.zip items) else none
  | _ => none

/-- The field of a record, which must be there. -/
def required? {α : Type} (fields : Fields) (name : String) (read : Value → Option α) : Option α :=
  (fields.lookup name).bind read

/-- The field of a record, or what is used without it. -/
def optional? {α : Type} (fields : Fields) (name : String) (read : Value → Option α)
    (default : α) : Option α :=
  match fields.lookup name with
  | some value => read value
  | none => some default

end PeerCalls.Json.Value
