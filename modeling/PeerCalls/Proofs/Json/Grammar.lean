import PeerCalls.Json.Value

/-!
# The grammar of JSON

Which texts spell a value, said by the rules of the format and without a lexer or a reader: a
value has a text for each choice of blanks and of escapes, and no other ones.  `SpelledBy` is one
relation for all parts of a text, so that a derivation is one tree; a `Phrase` says which part is
meant.  Blanks may stand around every value, and with that around every name, bracket, comma and
colon.

A string literal is a sequence of pieces, each a character or a unit of 16 bits that is written as
an escape.  What the pieces stand for is said apart from how they are written: two units may be
halves of one character, and a half without its other half stands for nothing.
-/

namespace PeerCalls.Json

/-- Nothing but blanks. -/
def Blanks (text : List Char) : Prop := ∀ c ∈ text, c ∈ [' ', '\n', '\t', '\r']

instance (text : List Char) : Decidable (Blanks text) :=
  List.decidableBAll _ text

/-! ## Numbers -/

/-- One digit or more. -/
def Digits (text : List Char) : Prop := text ≠ [] ∧ ∀ c ∈ text, c.isDigit = true

instance (text : List Char) : Decidable (Digits text) :=
  @instDecidableAnd _ _ _ (List.decidableBAll _ text)

/-- The digits before the point, of which only a single one may begin with zero. -/
def Whole (text : List Char) : Prop := Digits text ∧ (text.head? = some '0' → text = ['0'])

instance (text : List Char) : Decidable (Whole text) := inferInstanceAs (Decidable (_ ∧ _))

/-- What may follow the digits before the point. -/
inductive Fraction : List Char → Prop where
  | absent : Fraction []
  | point {digits : List Char} (h : Digits digits) : Fraction ('.' :: digits)

/-- What may end a number. -/
inductive Exponent : List Char → Prop where
  | absent : Exponent []
  | plain {letter : Char} {digits : List Char} (hletter : letter ∈ ['e', 'E'])
      (h : Digits digits) : Exponent (letter :: digits)
  | signed {letter sign : Char} {digits : List Char} (hletter : letter ∈ ['e', 'E'])
      (hsign : sign ∈ ['+', '-']) (h : Digits digits) : Exponent (letter :: sign :: digits)

/-- A number, as it is written. -/
inductive Numeral : List Char → Prop where
  | positive {whole fraction exponent : List Char} (hwhole : Whole whole)
      (hfraction : Fraction fraction) (hexponent : Exponent exponent) :
      Numeral (whole ++ fraction ++ exponent)
  | negative {whole fraction exponent : List Char} (hwhole : Whole whole)
      (hfraction : Fraction fraction) (hexponent : Exponent exponent) :
      Numeral ('-' :: (whole ++ fraction ++ exponent))

/-! ## Strings -/

/-- The letters that may follow a backslash, with the characters that they stand for. -/
def escapes : List (Char × Char) :=
  [('"', '"'), ('\\', '\\'), ('/', '/'), ('b', '\x08'), ('f', '\x0c'), ('n', '\n'),
    ('r', '\r'), ('t', '\t')]

/-- A hexadecimal digit with its value, as a small or as a capital letter. -/
def HexDigit (c : Char) (value : Nat) : Prop :=
  "0123456789abcdef".toList[value]? = some c ∨ "0123456789ABCDEF".toList[value]? = some c

/-- What a string literal is made of. -/
inductive Piece where
  | char (c : Char)
  /-- A unit of 16 bits, written as an escape. -/
  | unit (value : Nat)

namespace Piece

/-- The pieces that are written between quotes. -/
inductive SpelledBy : List Piece → List Char → Prop where
  | nil : SpelledBy [] []
  | plain {c : Char} {pieces : List Piece} {text : List Char} (hprintable : 0x20 ≤ c.toNat)
      (hquote : c ≠ '"') (hbackslash : c ≠ '\\') (hrest : SpelledBy pieces text) :
      SpelledBy (char c :: pieces) (c :: text)
  | letter {letter c : Char} {pieces : List Piece} {text : List Char}
      (hescape : (letter, c) ∈ escapes) (hrest : SpelledBy pieces text) :
      SpelledBy (char c :: pieces) ('\\' :: letter :: text)
  | unit {first second third fourth : Char} {v₁ v₂ v₃ v₄ : Nat} {pieces : List Piece}
      {text : List Char} (h₁ : HexDigit first v₁) (h₂ : HexDigit second v₂)
      (h₃ : HexDigit third v₃) (h₄ : HexDigit fourth v₄) (hrest : SpelledBy pieces text) :
      SpelledBy (unit (((v₁ * 16 + v₂) * 16 + v₃) * 16 + v₄) :: pieces)
        ('\\' :: 'u' :: first :: second :: third :: fourth :: text)

/-- The unit is the first half of a character. -/
def IsFirstHalf (value : Nat) : Prop := 0xD800 ≤ value ∧ value ≤ 0xDBFF

/-- The unit is the second half of a character. -/
def IsSecondHalf (value : Nat) : Prop := 0xDC00 ≤ value ∧ value ≤ 0xDFFF

instance (value : Nat) : Decidable (IsFirstHalf value) := inferInstanceAs (Decidable (_ ∧ _))

instance (value : Nat) : Decidable (IsSecondHalf value) := inferInstanceAs (Decidable (_ ∧ _))

/-- The character of two halves. -/
def joined (first second : Nat) : Char :=
  Char.ofNat (0x10000 + (first - 0xD800) * 0x400 + (second - 0xDC00))

/-- The characters that pieces stand for; nothing if a half stands alone. -/
def meaning? : List Piece → Option (List Char)
  | [] => some []
  | char c :: rest => (meaning? rest).map (c :: ·)
  | unit value :: rest =>
    if IsFirstHalf value then
      match rest with
      | unit second :: later =>
        if IsSecondHalf second then (meaning? later).map (joined value second :: ·) else none
      | _ => none
    else if IsSecondHalf value then none
    else (meaning? rest).map (Char.ofNat value :: ·)

variable {value second : Nat} {rest : List Piece}

theorem not_isSecondHalf (h : IsFirstHalf value) : ¬ IsSecondHalf value := by
  unfold IsFirstHalf IsSecondHalf at *
  omega

theorem meaning?_pair (h : IsFirstHalf value) (h' : IsSecondHalf second) :
    meaning? (unit value :: unit second :: rest) =
      (meaning? rest).map (joined value second :: ·) := by
  simp only [meaning?, if_pos h, if_pos h']

theorem meaning?_firstHalf (h : IsFirstHalf value)
    (hrest : ∀ second later, rest = unit second :: later → ¬ IsSecondHalf second) :
    meaning? (unit value :: rest) = none := by
  rw [meaning?.eq_def]
  simp only [if_pos h]
  split
  · exact if_neg (hrest _ _ rfl)
  · rfl

theorem meaning?_secondHalf (h : IsSecondHalf value) : meaning? (unit value :: rest) = none := by
  rw [meaning?.eq_def]
  simp only [if_neg fun hfirst => not_isSecondHalf hfirst h, if_pos h]

theorem meaning?_unit (h : ¬ IsFirstHalf value) (h' : ¬ IsSecondHalf value) :
    meaning? (unit value :: rest) = (meaning? rest).map (Char.ofNat value :: ·) := by
  rw [meaning?.eq_def]
  simp only [if_neg h, if_neg h']

/-- The text that pieces stand for. -/
def text (pieces : List Piece) : Text := (meaning? pieces).map String.ofList

end Piece

/-! ## Values -/

/-- A part of a text. -/
inductive Phrase where
  | value (value : Value)
  /-- What stands between the brackets of an array that holds something. -/
  | items (items : List Value)
  | member (name : Text) (value : Value)
  /-- What stands between the braces of an object that holds something. -/
  | members (members : List (Text × Value))

/-- The texts that spell a phrase. -/
inductive Phrase.SpelledBy : Phrase → List Char → Prop where
  | nullWord : SpelledBy (.value .null) ['n', 'u', 'l', 'l']
  | trueWord : SpelledBy (.value (.bool true)) ['t', 'r', 'u', 'e']
  | falseWord : SpelledBy (.value (.bool false)) ['f', 'a', 'l', 's', 'e']
  | number {literal : List Char} (h : Numeral literal) : SpelledBy (.value (.number literal)) literal
  | string {pieces : List Piece} {text : List Char} (h : Piece.SpelledBy pieces text) :
      SpelledBy (.value (.string (Piece.text pieces))) ('"' :: (text ++ ['"']))
  | emptyArray {blanks : List Char} (h : Blanks blanks) :
      SpelledBy (.value (.array [])) ('[' :: (blanks ++ [']']))
  | array {items : List Value} {text : List Char} (h : SpelledBy (.items items) text) :
      SpelledBy (.value (.array items)) ('[' :: (text ++ [']']))
  | emptyObject {blanks : List Char} (h : Blanks blanks) :
      SpelledBy (.value (.object [])) ('\x7b' :: (blanks ++ ['\x7d']))
  | object {members : List (Text × Value)} {text : List Char}
      (h : SpelledBy (.members members) text) :
      SpelledBy (.value (.object members)) ('\x7b' :: (text ++ ['\x7d']))
  | padded {value : Value} {before text after : List Char} (hbefore : Blanks before)
      (h : SpelledBy (.value value) text) (hafter : Blanks after) :
      SpelledBy (.value value) (before ++ text ++ after)
  | lastItem {item : Value} {text : List Char} (h : SpelledBy (.value item) text) :
      SpelledBy (.items [item]) text
  | item {item : Value} {items : List Value} {text rest : List Char}
      (h : SpelledBy (.value item) text) (hrest : SpelledBy (.items items) rest) :
      SpelledBy (.items (item :: items)) (text ++ ',' :: rest)
  | named {name : Text} {value : Value} {quoted text : List Char}
      (hname : SpelledBy (.value (.string name)) quoted) (h : SpelledBy (.value value) text) :
      SpelledBy (.member name value) (quoted ++ ':' :: text)
  | lastMember {name : Text} {value : Value} {text : List Char}
      (h : SpelledBy (.member name value) text) : SpelledBy (.members [(name, value)]) text
  | member {name : Text} {value : Value} {members : List (Text × Value)} {text rest : List Char}
      (h : SpelledBy (.member name value) text) (hrest : SpelledBy (.members members) rest) :
      SpelledBy (.members ((name, value) :: members)) (text ++ ',' :: rest)

/-- The texts that spell a value. -/
abbrev Value.SpelledBy (value : Value) (text : String) : Prop :=
  (Phrase.value value).SpelledBy text.toList

end PeerCalls.Json
