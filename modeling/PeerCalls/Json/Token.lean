/-!
# Tokens of a JSON text

The lexer reads a text character by character.  Its state is what it has of the
token under way; `Lexer.step` is the whole lexer and `Token.ofChars?` runs it
over a text.  Numbers are kept as they are written.  A string is kept as the
text it stands for, or as no text when an escape in it names half of a
surrogate pair.
-/

namespace PeerCalls.Json

/-- What a string literal stands for; nothing if it holds half a surrogate pair. -/
abbrev Text := Option String

/-- The smallest parts of a JSON text. -/
inductive Token where
  | openObject
  | closeObject
  | openArray
  | closeArray
  | comma
  | colon
  | null
  | bool (value : Bool)
  /-- A number with the characters it is written in. -/
  | number (literal : List Char)
  | string (text : Text)
  deriving DecidableEq

/-- The blanks that may stand between tokens. -/
def isBlank (c : Char) : Bool := c = ' ' || c = '\n' || c = '\t' || c = '\r'

/-- The value of a hexadecimal digit. -/
def hexDigit? (c : Char) : Option Nat :=
  if '0' ≤ c ∧ c ≤ '9' then some (c.toNat - '0'.toNat)
  else if 'a' ≤ c ∧ c ≤ 'f' then some (c.toNat - 'a'.toNat + 10)
  else if 'A' ≤ c ∧ c ≤ 'F' then some (c.toNat - 'A'.toNat + 10)
  else none

/-- How far a number has been read. -/
inductive NumberPhase where
  /-- After the minus sign. -/
  | minus
  /-- After a leading zero. -/
  | zero
  /-- In the digits before the point. -/
  | whole
  /-- After the point. -/
  | point
  /-- In the digits after the point. -/
  | fraction
  /-- After the letter of the exponent. -/
  | exponent
  /-- After the sign of the exponent. -/
  | exponentSign
  /-- In the digits of the exponent. -/
  | exponentDigits
  deriving DecidableEq

namespace NumberPhase

/-- The phase after one more character, if the number goes on with it. -/
def next? (phase : NumberPhase) (c : Char) : Option NumberPhase :=
  match phase with
  | minus => if c = '0' then some zero else if c.isDigit then some whole else none
  | zero =>
    if c = '.' then some point else if c = 'e' ∨ c = 'E' then some exponent else none
  | whole =>
    if c.isDigit then some whole
    else if c = '.' then some point
    else if c = 'e' ∨ c = 'E' then some exponent
    else none
  | point => if c.isDigit then some fraction else none
  | fraction =>
    if c.isDigit then some fraction
    else if c = 'e' ∨ c = 'E' then some exponent
    else none
  | exponent =>
    if c.isDigit then some exponentDigits
    else if c = '+' ∨ c = '-' then some exponentSign
    else none
  | exponentSign => if c.isDigit then some exponentDigits else none
  | exponentDigits => if c.isDigit then some exponentDigits else none

/-- Whether the number may end here. -/
def isComplete : NumberPhase → Bool
  | zero => true
  | whole => true
  | fraction => true
  | exponentDigits => true
  | _ => false

end NumberPhase

/-- What a string literal holds so far, last character first. -/
structure Quoted where
  text : List Char
  /-- The first half of a surrogate pair, waiting for the second. -/
  half : Option Nat
  /-- Whether no half was left alone so far. -/
  sound : Bool
  deriving DecidableEq

namespace Quoted

def empty : Quoted := ⟨[], none, true⟩

/-- One more character.  A half that was waiting stays alone. -/
def push (quoted : Quoted) (c : Char) : Quoted :=
  ⟨c :: quoted.text, none, quoted.sound && quoted.half.isNone⟩

/-- One more 16-bit unit, written as an escape. -/
def pushUnit (quoted : Quoted) (unit : Nat) : Quoted :=
  if 0xD800 ≤ unit ∧ unit ≤ 0xDBFF then
    { quoted with half := some unit, sound := quoted.sound && quoted.half.isNone }
  else if 0xDC00 ≤ unit ∧ unit ≤ 0xDFFF then
    match quoted.half with
    | some half =>
      let c := Char.ofNat (0x10000 + (half - 0xD800) * 0x400 + (unit - 0xDC00))
      ⟨c :: quoted.text, none, quoted.sound⟩
    | none => { quoted with sound := false }
  else
    quoted.push (Char.ofNat unit)

/-- The text of the literal that ends here. -/
def finish (quoted : Quoted) : Text :=
  if quoted.sound && quoted.half.isNone then some (String.ofList quoted.text.reverse) else none

end Quoted

/-- What has been read of the token under way. -/
inductive Reading where
  /-- Between tokens. -/
  | nothing
  /-- In a word; `rest` must follow. -/
  | word (rest : List Char) (token : Token)
  /-- In a number, with its characters so far, last one first. -/
  | number (phase : NumberPhase) (literal : List Char)
  | string (quoted : Quoted)
  /-- After a backslash. -/
  | escape (quoted : Quoted)
  /-- In the digits of an escape: `missing` more are needed. -/
  | hex (quoted : Quoted) (missing : Nat) (unit : Nat)
  deriving DecidableEq

/-- The tokens read so far, last one first, and what has been read of the next. -/
structure Lexer where
  tokens : List Token
  reading : Reading
  deriving DecidableEq

namespace Lexer

def start : Lexer := ⟨[], .nothing⟩

/-- A token is complete. -/
def emit (lexer : Lexer) (token : Token) : Lexer := ⟨token :: lexer.tokens, .nothing⟩

/-- A token begins, or a blank is skipped. -/
def begin (lexer : Lexer) (c : Char) : Option Lexer :=
  match c with
  | '{' => some (lexer.emit .openObject)
  | '}' => some (lexer.emit .closeObject)
  | '[' => some (lexer.emit .openArray)
  | ']' => some (lexer.emit .closeArray)
  | ',' => some (lexer.emit .comma)
  | ':' => some (lexer.emit .colon)
  | '"' => some { lexer with reading := .string .empty }
  | 'n' => some { lexer with reading := .word ['u', 'l', 'l'] .null }
  | 't' => some { lexer with reading := .word ['r', 'u', 'e'] (.bool true) }
  | 'f' => some { lexer with reading := .word ['a', 'l', 's', 'e'] (.bool false) }
  | '-' => some { lexer with reading := .number .minus [c] }
  | '0' => some { lexer with reading := .number .zero [c] }
  | _ =>
    if c.isDigit then some { lexer with reading := .number .whole [c] }
    else if isBlank c then some lexer
    else none

/-- The character that an escape of one letter stands for. -/
def escaped? : Char → Option Char
  | '"' => some '"'
  | '\\' => some '\\'
  | '/' => some '/'
  | 'b' => some '\x08'
  | 'f' => some '\x0c'
  | 'n' => some '\n'
  | 'r' => some '\r'
  | 't' => some '\t'
  | _ => none

/-- A character inside a string literal. -/
def inString (lexer : Lexer) (quoted : Quoted) (c : Char) : Option Lexer :=
  if c = '"' then some (lexer.emit (.string quoted.finish))
  else if c = '\\' then some { lexer with reading := .escape quoted }
  else if c.toNat < 0x20 then none
  else some { lexer with reading := .string (quoted.push c) }

/-- The character after a backslash. -/
def inEscape (lexer : Lexer) (quoted : Quoted) (c : Char) : Option Lexer :=
  if c = 'u' then some { lexer with reading := .hex quoted 4 0 }
  else
    match escaped? c with
    | some meant => some { lexer with reading := .string (quoted.push meant) }
    | none => none

/-- A digit of an escape. -/
def inHex (lexer : Lexer) (quoted : Quoted) (missing unit : Nat) (c : Char) : Option Lexer :=
  match hexDigit? c with
  | none => none
  | some digit =>
    let read := unit * 16 + digit
    if missing ≤ 1 then some { lexer with reading := .string (quoted.pushUnit read) }
    else some { lexer with reading := .hex quoted (missing - 1) read }

/-- A character after the beginning of a number: part of it, or the first one
after it. -/
def inNumber (lexer : Lexer) (phase : NumberPhase) (literal : List Char) (c : Char) :
    Option Lexer :=
  match phase.next? c with
  | some next => some { lexer with reading := .number next (c :: literal) }
  | none =>
    if phase.isComplete && !c.isDigit then (lexer.emit (.number literal.reverse)).begin c
    else none

/-- A character inside a word. -/
def inWord (lexer : Lexer) (rest : List Char) (token : Token) (c : Char) : Option Lexer :=
  match rest with
  | [] => none
  | [last] => if c = last then some (lexer.emit token) else none
  | next :: later =>
    if c = next then some { lexer with reading := .word later token } else none

/-- The lexer after one more character. -/
def step (lexer : Lexer) (c : Char) : Option Lexer :=
  match lexer.reading with
  | .nothing => lexer.begin c
  | .word rest token => lexer.inWord rest token c
  | .number phase literal => lexer.inNumber phase literal c
  | .string quoted => lexer.inString quoted c
  | .escape quoted => lexer.inEscape quoted c
  | .hex quoted missing unit => lexer.inHex quoted missing unit c

/-- The tokens, if the text may end here. -/
def finish (lexer : Lexer) : Option (List Token) :=
  match lexer.reading with
  | .nothing => some lexer.tokens.reverse
  | .number phase literal =>
    if phase.isComplete then some (lexer.emit (.number literal.reverse)).tokens.reverse else none
  | _ => none

end Lexer

/-- The tokens of a text, if it consists of tokens and blanks. -/
def Token.ofChars? (text : List Char) : Option (List Token) :=
  match text.foldlM Lexer.step Lexer.start with
  | some lexer => lexer.finish
  | none => none

end PeerCalls.Json
