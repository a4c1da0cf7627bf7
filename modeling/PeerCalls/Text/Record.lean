/-!
# Descriptions of records

Log lines and some messages describe a value by its name and its fields, as in
`Name { first: 1, second: 2 }`; lists stand in square brackets.
-/

namespace PeerCalls.Text

/-- Texts separated by a comma and a blank. -/
def listed (texts : List String) : String := ", ".intercalate texts

/-- A name and its fields in braces. -/
def record (name : String) (fields : List (String × String)) : String :=
  name ++ " \x7b " ++ listed (fields.map fun field => field.1 ++ ": " ++ field.2) ++ " \x7d"

/-- A name around one value in parentheses. -/
def wrapped (name value : String) : String := name ++ "(" ++ value ++ ")"

/-- A list of naturals in square brackets. -/
def naturals (numbers : List Nat) : String := "[" ++ listed (numbers.map Nat.repr) ++ "]"

def truth : Bool → String
  | true => "true"
  | false => "false"

end PeerCalls.Text
