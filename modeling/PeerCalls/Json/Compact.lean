/-!
# Writing compact JSON

Texts without blanks.  Only names that need no escapes are written.
-/

namespace PeerCalls.Json.Compact

/-- A name in quotes. -/
def quoted (name : String) : List Char := '"' :: name.toList ++ ['"']

/-- The digits of a natural. -/
def natural (value : Nat) : List Char := (Nat.repr value).toList

def truth : Bool → List Char
  | true => "true".toList
  | false => "false".toList

/-- A value that may be absent, which is then null. -/
def optional {α : Type} (write : α → List Char) : Option α → List Char
  | some value => write value
  | none => "null".toList

/-- Parts with a comma between any two. -/
def separated : List (List Char) → List Char
  | [] => []
  | [part] => part
  | part :: rest => part ++ ',' :: separated rest

/-- An array of written values. -/
def array (items : List (List Char)) : List Char := '[' :: separated items ++ [']']

/-- One member of an object. -/
def member (name : String) (value : List Char) : List Char := quoted name ++ ':' :: value

/-- An object with members in the given order. -/
def object (members : List (String × List Char)) : List Char :=
  '\x7b' :: separated (members.map fun (name, value) => member name value) ++ ['\x7d']

end PeerCalls.Json.Compact
