import TreeOffsets.Json.Token.Lexer

/-!
The reader takes the tokens of a text one by one. Its state is the stack of lists and objects that
are open, innermost first, and what must come next. A refused text has its fault at the first
token that cannot come next, or at the end of the text.
-/

namespace TreeOffsets.Json

inductive Frame where
  /-- A list and its items so far, last one first. -/
  | list (done : List Json)
  /-- An object, its fields so far, and the name whose value comes next. -/
  | object (done : Fields) (name : Text)

inductive Mode where
  | value
  /-- A value, or the end of the list that has just begun. -/
  | firstItem
  /-- A name, or the end of the object that has just begun. -/
  | firstName
  /-- A name of an object whose fields so far are `done`. -/
  | name (done : Fields)
  | colon (done : Fields) (name : Text)
  | after (v : Json)

/-- What the reader knows between two tokens. -/
structure Reading where
  mode : Mode
  frames : List Frame

namespace Reading

def start : Reading := ⟨.value, []⟩

def beginValue (frames : List Frame) (here : Text) : Token → Except Refusal Reading
  | .scalar v => .ok ⟨.after v, frames⟩
  | .str t => .ok ⟨.after (.str t), frames⟩
  | .openList => .ok ⟨.firstItem, frames⟩
  | .openObject => .ok ⟨.firstName, frames⟩
  | .badString r => .error r
  | .badNumber r => .error r
  | _ => .error (.malformed .expectedValue here)

def beginName (done : Fields) (frames : List Frame) (here : Text) :
    Token → Except Refusal Reading
  | .str name => .ok ⟨.colon done name, frames⟩
  | .badString r => .error r
  | _ => .error (.malformed .expectedName here)

def continueAfter (v : Json) (frames : List Frame) (here : Text) (token : Token) :
    Except Refusal Reading :=
  match frames with
  | [] => .error (.malformed .extraData here)
  | .list done :: below =>
    match token with
    | .comma => .ok ⟨.value, .list (v :: done) :: below⟩
    | .closeList => .ok ⟨.after (.arr (v :: done).reverse), below⟩
    | _ => .error (.malformed .expectedComma here)
  | .object done name :: below =>
    match token with
    | .comma => .ok ⟨.name (Fields.put name v done), below⟩
    | .closeObject => .ok ⟨.after (.obj (Fields.put name v done)), below⟩
    | _ => .error (.malformed .expectedComma here)

/-- One token. `here` is the text from the token on. -/
def step (r : Reading) (token : Token) (here : Text) : Except Refusal Reading :=
  match r.mode with
  | .value => beginValue r.frames here token
  | .firstItem =>
    match token with
    | .closeList => .ok ⟨.after (.arr []), r.frames⟩
    | _ => beginValue (.list [] :: r.frames) here token
  | .firstName =>
    match token with
    | .closeObject => .ok ⟨.after (.obj []), r.frames⟩
    | _ => beginName [] r.frames here token
  | .name done => beginName done r.frames here token
  | .colon done name =>
    match token with
    | .colon => .ok ⟨.value, .object done name :: r.frames⟩
    | _ => .error (.malformed .expectedColon here)
  | .after v => continueAfter v r.frames here token

theorem step_firstItem {token : Token} (h : token ≠ .closeList) (frames : List Frame)
    (here : Text) : step ⟨.firstItem, frames⟩ token here =
      beginValue (.list [] :: frames) here token := by
  cases token <;> first | rfl | exact absurd rfl h

theorem step_firstName {token : Token} (h : token ≠ .closeObject) (frames : List Frame)
    (here : Text) : step ⟨.firstName, frames⟩ token here = beginName [] frames here token := by
  cases token <;> first | rfl | exact absurd rfl h

def finish (r : Reading) : Except Refusal Json :=
  match r.mode with
  | .value => .error (.malformed .expectedValue [])
  | .firstItem => .error (.malformed .expectedValue [])
  | .firstName => .error (.malformed .expectedName [])
  | .name _ => .error (.malformed .expectedName [])
  | .colon _ _ => .error (.malformed .expectedColon [])
  | .after v =>
    match r.frames with
    | [] => .ok v
    | _ :: _ => .error (.malformed .expectedComma [])

def run (r : Reading) : List (Token × Text) → Except Refusal Json
  | [] => r.finish
  | (token, here) :: rest =>
    match r.step token here with
    | .ok next => next.run rest
    | .error refusal => .error refusal

end Reading

/-- A text that is not JSON, or an integer with too many digits. -/
inductive ReadFault where
  /-- There is a problem at an offset, which is a line and a column, both from 1. -/
  | malformed (problem : Problem) (line column offset : Nat)
  /-- The digits are counted when they are read, and not when the integer would be written. -/
  | tooManyDigits (count? : Option Nat)

namespace ReadFault

def ofRefusal (whole : Text) : Refusal → ReadFault
  | .malformed problem rest =>
    let offset := whole.length - rest.length
    let before := whole.take offset
    .malformed problem (Text.lastLine before) (Text.lastColumn before + 1) offset
  | .tooManyDigits count => .tooManyDigits (some count)

def wording : Problem → String
  | .byteOrderMark => "Unexpected UTF-8 BOM (decode using utf-8-sig)"
  | .expectedValue => "Expecting value"
  | .expectedName => "Expecting property name enclosed in double quotes"
  | .expectedColon => "Expecting ':' delimiter"
  | .expectedComma => "Expecting ',' delimiter"
  | .unterminatedString => "Unterminated string starting at"
  | .controlCharacter => "Invalid control character at"
  | .invalidEscape => "Invalid \\escape"
  | .invalidUnicodeEscape => "Invalid \\uXXXX escape"
  | .extraData => "Extra data"

def message : ReadFault → Text
  | .malformed problem line column offset =>
    Text.ofString (wording problem) ++ Text.ofString ": line " ++ Text.ofNat line
      ++ Text.ofString " column " ++ Text.ofNat column ++ Text.ofString " (char "
      ++ Text.ofNat offset ++ Text.ofString ")"
  | .tooManyDigits count? =>
    Text.ofString "Exceeds the limit (" ++ Text.ofNat digitLimit
      ++ Text.ofString " digits) for integer string conversion"
      ++ (match count? with
        | some count => Text.ofString ": value has " ++ Text.ofNat count ++ Text.ofString " digits"
        | none => [])
      ++ Text.ofString "; use sys.set_int_max_str_digits() to increase the limit"

end ReadFault

/-- The mark that some programs put before a text. -/
def byteOrderMark : CodePoint := ⟨0xFEFF, by decide⟩

def read (t : Text) : Except ReadFault Json :=
  if t.head? = some byteOrderMark then
    .error (ReadFault.ofRefusal t (.malformed .byteOrderMark t))
  else
    match Reading.start.run (Token.lex t) with
    | .ok v => .ok v
    | .error refusal => .error (ReadFault.ofRefusal t refusal)

end TreeOffsets.Json
