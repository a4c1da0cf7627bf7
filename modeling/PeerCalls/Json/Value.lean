import PeerCalls.Json.Token

/-!
# JSON values

A value is read from its tokens by a machine with the open brackets on a stack,
each with what it holds so far, so a text may nest to any depth.  Members of an
object keep their order and are not compared.
-/

namespace PeerCalls.Json

/-- A JSON value. -/
inductive Value where
  | null
  | bool (value : Bool)
  | number (literal : List Char)
  | string (text : Text)
  | array (items : List Value)
  | object (members : List (Text × Value))

/-- A bracket that is open, with what it holds so far, last first. -/
inductive Bracket where
  | array (items : List Value)
  /-- Members before the next name. -/
  | object (members : List (Text × Value))
  /-- Members and the name of the value under way. -/
  | member (members : List (Text × Value)) (name : Text)

/-- What must come next. -/
inductive Expected where
  | value
  /-- A value, or the end of an array that holds nothing. -/
  | itemOrEnd
  /-- A name, or the end of an object that holds nothing. -/
  | nameOrEnd
  | name
  | colon
  /-- A comma, or the end of the innermost bracket. -/
  | commaOrEnd
  /-- Nothing: the value is complete. -/
  | done (value : Value)

/-- The open brackets, innermost first, and what must come next. -/
structure Reader where
  brackets : List Bracket
  expected : Expected

namespace Reader

def start : Reader := ⟨[], .value⟩

/-- A value is complete: it goes into the innermost bracket. -/
def put (brackets : List Bracket) (value : Value) : Option Reader :=
  match brackets with
  | [] => some ⟨[], .done value⟩
  | .array items :: outer => some ⟨.array (value :: items) :: outer, .commaOrEnd⟩
  | .member members name :: outer =>
    some ⟨.object ((name, value) :: members) :: outer, .commaOrEnd⟩
  | .object _ :: _ => none

/-- A value begins. -/
def beginValue (brackets : List Bracket) (token : Token) : Option Reader :=
  match token with
  | .null => put brackets .null
  | .bool value => put brackets (.bool value)
  | .number literal => put brackets (.number literal)
  | .string text => put brackets (.string text)
  | .openArray => some ⟨.array [] :: brackets, .itemOrEnd⟩
  | .openObject => some ⟨.object [] :: brackets, .nameOrEnd⟩
  | _ => none

/-- The innermost bracket ends. -/
def close (brackets : List Bracket) (token : Token) : Option Reader :=
  match token, brackets with
  | .closeArray, .array items :: outer => put outer (.array items.reverse)
  | .closeObject, .object members :: outer => put outer (.object members.reverse)
  | _, _ => none

/-- The name of a member. -/
def readName (brackets : List Bracket) (token : Token) : Option Reader :=
  match token, brackets with
  | .string name, .object members :: outer => some ⟨.member members name :: outer, .colon⟩
  | _, _ => none

/-- More follows after a comma. -/
def more (brackets : List Bracket) : Option Reader :=
  match brackets with
  | .array _ :: _ => some ⟨brackets, .value⟩
  | .object _ :: _ => some ⟨brackets, .name⟩
  | _ => none

/-- The reader after one more token. -/
def step (reader : Reader) (token : Token) : Option Reader :=
  match reader.expected with
  | .value => beginValue reader.brackets token
  | .itemOrEnd =>
    if token = .closeArray then close reader.brackets token
    else beginValue reader.brackets token
  | .nameOrEnd =>
    if token = .closeObject then close reader.brackets token
    else readName reader.brackets token
  | .name => readName reader.brackets token
  | .colon => if token = .colon then some { reader with expected := .value } else none
  | .commaOrEnd =>
    if token = .comma then more reader.brackets else close reader.brackets token
  | .done _ => none

/-- The value, if it is complete. -/
def finish (reader : Reader) : Option Value :=
  match reader.expected with
  | .done value => some value
  | _ => none

end Reader

namespace Value

/-- The value that tokens spell. -/
def ofTokens? (tokens : List Token) : Option Value :=
  match tokens.foldlM Reader.step Reader.start with
  | some reader => reader.finish
  | none => none

/-- The value that a text spells, with nothing but blanks around it. -/
def ofText? (text : String) : Option Value :=
  (Token.ofChars? text.toList).bind ofTokens?

end Value

end PeerCalls.Json
