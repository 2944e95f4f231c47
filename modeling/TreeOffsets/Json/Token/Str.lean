import TreeOffsets.Text.Utf16
import TreeOffsets.Json.Token.Basic

namespace TreeOffsets.Json

namespace Token

def hexValue? (c : CodePoint) : Option (Fin 16) :=
  if h : 0x30 ≤ c.val ∧ c.val ≤ 0x39 then some ⟨c.val - 0x30, by omega⟩
  else if h : 0x41 ≤ c.val ∧ c.val ≤ 0x46 then some ⟨c.val - 0x37, by omega⟩
  else if h : 0x61 ≤ c.val ∧ c.val ≤ 0x66 then some ⟨c.val - 0x57, by omega⟩
  else none

/-- The code point of four hexadecimal digits. -/
def hexPoint? (a b c d : CodePoint) : Option CodePoint := do
  let a ← hexValue? a
  let b ← hexValue? b
  let c ← hexValue? c
  let d ← hexValue? d
  return ⟨((a.val * 16 + b.val) * 16 + c.val) * 16 + d.val, by omega⟩

/-- The code point of a short escape, by the code point after the backslash. -/
def shortEscape? (c : CodePoint) : Option CodePoint :=
  if c = CodePoint.ofChar '"' then some c
  else if c = CodePoint.ofChar '\\' then some c
  else if c = CodePoint.ofChar '/' then some c
  else if c = CodePoint.ofChar 'b' then some ⟨0x08, by decide⟩
  else if c = CodePoint.ofChar 'f' then some ⟨0x0C, by decide⟩
  else if c = CodePoint.ofChar 'n' then some (CodePoint.ofChar '\n')
  else if c = CodePoint.ofChar 'r' then some (CodePoint.ofChar '\r')
  else if c = CodePoint.ofChar 't' then some (CodePoint.ofChar '\t')
  else none

/-- Adds an escaped code point to the code points read so far, last one first. If `half` holds, the
last of these is an escaped high surrogate, and a low one completes the pair. -/
def addEscaped (c : CodePoint) (half : Bool) : Text → Text
  | [] => [c]
  | last :: done => if half = true ∧ c.IsLow then last.pair c :: done else c :: last :: done

/-- Reads a string after its opening quote: the string and the text after the closing quote.
`opening` is the text from the opening quote on. Four hexadecimal digits must have another code
point after them. -/
def scanString (opening : Text) (done : Text) (half : Bool) : Text → Except Refusal (Text × Text)
  | [] => .error (.malformed .unterminatedString opening)
  | c :: t =>
    if c = CodePoint.ofChar '"' then .ok (done.reverse, t)
    else if c = CodePoint.ofChar '\\' then
      match t with
      | [] => .error (.malformed .unterminatedString opening)
      | e :: t =>
        if e = CodePoint.ofChar 'u' then
          match t with
          | h₁ :: h₂ :: h₃ :: h₄ :: next :: t' =>
            match hexPoint? h₁ h₂ h₃ h₄ with
            | some p =>
              scanString opening (addEscaped p half done) (decide p.IsHigh) (next :: t')
            | none => .error (.malformed .invalidUnicodeEscape (e :: t))
          | _ => .error (.malformed .invalidUnicodeEscape (e :: t))
        else match shortEscape? e with
          | some p => scanString opening (p :: done) false t
          | none => .error (.malformed .invalidEscape (c :: e :: t))
    else if c.val < 0x20 then .error (.malformed .controlCharacter (c :: t))
    else scanString opening (c :: done) false t

theorem length_scanString_lt {opening done t s rest : Text} {half : Bool}
    (h : scanString opening done half t = .ok (s, rest)) : rest.length < t.length := by
  fun_induction scanString opening done half t <;> simp_all <;> omega

end Token

end TreeOffsets.Json
