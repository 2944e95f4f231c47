import TreeOffsets.Json.Basic

namespace TreeOffsets.Json

inductive Problem where
  | byteOrderMark
  | expectedValue
  | expectedName
  | expectedColon
  | expectedComma
  | unterminatedString
  | controlCharacter
  | invalidEscape
  | invalidUnicodeEscape
  | extraData
  deriving DecidableEq

inductive Refusal where
  /-- The text is not JSON; `rest` is the text from the point of the problem on. -/
  | malformed (problem : Problem) (rest : Text)
  | tooManyDigits (count : Nat)

/-- The largest number of digits that an integer may have. -/
def digitLimit : Nat := 4300

inductive Token where
  | openList
  | closeList
  | openObject
  | closeObject
  | comma
  | colon
  | str (t : Text)
  | scalar (v : Json)
  /-- A quote begins here, but no string. -/
  | badString (r : Refusal)
  /-- An integer begins here that has too many digits. -/
  | badNumber (r : Refusal)
  | unknown

namespace Token

def isLast : Token → Bool
  | badString _ => true
  | badNumber _ => true
  | unknown => true
  | _ => false

/-- A code point between tokens. -/
def isBlank (c : CodePoint) : Bool :=
  c == CodePoint.ofChar ' ' || c == CodePoint.ofChar '\t' || c == CodePoint.ofChar '\n'
    || c == CodePoint.ofChar '\r'

def isDigit (c : CodePoint) : Bool := decide (0x30 ≤ c.val ∧ c.val ≤ 0x39)

theorem length_dropWhile_le (t : Text) (p : CodePoint → Bool) :
    (t.dropWhile p).length ≤ t.length :=
  (List.dropWhile_suffix p).length_le

end Token

end TreeOffsets.Json
