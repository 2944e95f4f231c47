import TreeOffsets.Json.Token.Str
import TreeOffsets.Json.Token.Number

namespace TreeOffsets.Json

namespace Token

def mark? (c : CodePoint) : Option Token :=
  if c = CodePoint.ofChar '[' then some openList
  else if c = CodePoint.ofChar ']' then some closeList
  else if c = CodePoint.ofChar '\x7b' then some openObject
  else if c = CodePoint.ofChar '\x7d' then some closeObject
  else if c = CodePoint.ofChar ',' then some comma
  else if c = CodePoint.ofChar ':' then some colon
  else none

/-- The token that begins with `c` and goes on in `t`, and the text after it. -/
def scan (c : CodePoint) (t : Text) : Token × Text :=
  match mark? c with
  | some token => (token, t)
  | none =>
    if c = CodePoint.ofChar '"' then
      match scanString (c :: t) [] false t with
      | .ok (s, rest) => (str s, rest)
      | .error r => (badString r, [])
    else ((word? (c :: t)).orElse fun _ => number? (c :: t)).getD (unknown, t)

theorem length_scan_le (c : CodePoint) (t : Text) : (scan c t).2.length ≤ t.length := by
  unfold scan
  split
  · exact Nat.le_refl _
  · split
    · split
      · next h => exact Nat.le_of_lt (length_scanString_lt h)
      · exact Nat.zero_le _
    · cases hword : word? (c :: t) with
      | some found => exact Nat.le_of_lt_succ (length_word?_lt hword)
      | none =>
        cases hnumber : number? (c :: t) with
        | some found =>
          simp only [Option.orElse_none, Option.getD_some]
          exact Nat.le_of_lt_succ (length_number?_lt hnumber)
        | none =>
          simp only [Option.orElse_none, Option.getD_none]
          exact Nat.le_refl _

def skipBlank (t : Text) : Text := t.dropWhile isBlank

/-- The tokens of a text, each with the text that begins there, after those in `done`, of which the
last comes first. -/
def lexFrom (done : List (Token × Text)) (t : Text) : List (Token × Text) :=
  match _nonblank : skipBlank t with
  | [] => done.reverse
  | c :: afterC =>
    let found := scan c afterC
    if found.1.isLast then ((found.1, c :: afterC) :: done).reverse
    else lexFrom ((found.1, c :: afterC) :: done) found.2
termination_by t.length
decreasing_by
  have hblank := length_dropWhile_le t isBlank
  have hscan := length_scan_le c afterC
  simp only [skipBlank] at _nonblank
  simp only [_nonblank, List.length_cons] at hblank
  omega

def lex (t : Text) : List (Token × Text) := lexFrom [] t

end Token

end TreeOffsets.Json
