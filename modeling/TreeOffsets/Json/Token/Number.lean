import TreeOffsets.Double.Basic
import TreeOffsets.Json.Token.Basic

namespace TreeOffsets.Json

namespace Token

/-- The values that are written as words. -/
def words : List (Text × Json) := [
  (Text.ofString "null", .null),
  (Text.ofString "true", .bool true),
  (Text.ofString "false", .bool false),
  (Text.ofString "NaN", .float .nan),
  (Text.ofString "Infinity", .float (.infinity false)),
  (Text.ofString "-Infinity", .float (.infinity true))]

def word? (t : Text) : Option (Token × Text) :=
  words.findSome? fun (word, v) =>
    if word.isPrefixOf t then some (.scalar v, t.drop word.length) else none

/-- The number that decimal digits spell. -/
def digitsValue (digits : Text) : Nat := digits.foldl (fun n c => n * 10 + (c.val - 0x30)) 0

/-- The whole part of a number: a zero alone, or digits that begin with another one. -/
def whole? : Text → Option (Text × Text)
  | [] => none
  | c :: t =>
    if c = CodePoint.ofChar '0' then some ([c], t)
    else if isDigit c then some (c :: t.takeWhile isDigit, t.dropWhile isDigit)
    else none

/-- The digits after a point, if the text begins with a point and a digit. -/
def fraction? : Text → Option (Text × Text)
  | point :: c :: t =>
    if point = CodePoint.ofChar '.' ∧ isDigit c = true then
      some (c :: t.takeWhile isDigit, t.dropWhile isDigit)
    else none
  | _ => none

def exponentDigits? (negative : Bool) : Text → Option (Int × Text)
  | [] => none
  | c :: t =>
    if isDigit c then
      let n : Nat := digitsValue (c :: t.takeWhile isDigit)
      some (if negative then -n else n, t.dropWhile isDigit)
    else none

/-- The exponent, if the text begins with the letter, perhaps a sign, and a digit. -/
def exponent? : Text → Option (Int × Text)
  | letter :: sign :: t =>
    if letter = CodePoint.ofChar 'e' ∨ letter = CodePoint.ofChar 'E' then
      if sign = CodePoint.ofChar '-' then exponentDigits? true t
      else if sign = CodePoint.ofChar '+' then exponentDigits? false t
      else exponentDigits? false (sign :: t)
    else none
  | _ => none

def integer (negative : Bool) (digits : Text) : Token :=
  if digitLimit < digits.length then .badNumber (.tooManyDigits digits.length)
  else .scalar (.int (if negative then -(digitsValue digits : Int) else digitsValue digits))

/-- The number that a text begins with, after its sign. It is a double if it has a fraction or an
exponent. -/
def unsigned? (negative : Bool) (t : Text) : Option (Token × Text) :=
  match whole? t with
  | none => none
  | some (whole, afterWhole) =>
    let (fraction, afterFraction) := (fraction? afterWhole).getD ([], afterWhole)
    match exponent? afterFraction with
    | some (e, rest) =>
      some (.scalar (.float
        (Double.ofDecimal negative ⟨digitsValue (whole ++ fraction), e - fraction.length⟩)), rest)
    | none =>
      if fraction.isEmpty then some (integer negative whole, afterWhole)
      else some (.scalar (.float
        (Double.ofDecimal negative ⟨digitsValue (whole ++ fraction), -fraction.length⟩)),
          afterFraction)

def number? : Text → Option (Token × Text)
  | [] => none
  | c :: t => if c = CodePoint.ofChar '-' then unsigned? true t else unsigned? false (c :: t)

theorem length_drop_of_isPrefixOf {word t : Text} (hword : word ≠ [])
    (h : word.isPrefixOf t = true) : (t.drop word.length).length < t.length := by
  have hle := (List.isPrefixOf_iff_prefix.mp h).length_le
  have hpos := List.length_pos_iff.mpr hword
  simp only [List.length_drop]
  omega

theorem word_ne_nil : ∀ entry ∈ words, entry.1 ≠ [] := by
  simp [words, Text.ofString]

theorem length_word?_lt {t rest : Text} {token : Token} (h : word? t = some (token, rest)) :
    rest.length < t.length := by
  obtain ⟨⟨word, v⟩, hmem, hentry⟩ := List.exists_of_findSome?_eq_some h
  simp only [Option.ite_none_right_eq_some, Option.some.injEq, Prod.mk.injEq] at hentry
  obtain ⟨hstarts, -, rfl⟩ := hentry
  exact length_drop_of_isPrefixOf (word_ne_nil _ hmem) hstarts

theorem length_whole?_lt {t digits rest : Text} (h : whole? t = some (digits, rest)) :
    rest.length < t.length := by
  cases t with
  | nil => cases h
  | cons c t =>
    simp only [whole?] at h
    split at h
    · cases h
      exact Nat.lt_succ_self _
    · split at h
      · cases h
        exact Nat.lt_succ_of_le (length_dropWhile_le t isDigit)
      · cases h

theorem length_fraction?_le {t digits rest : Text} (h : fraction? t = some (digits, rest)) :
    rest.length ≤ t.length := by
  match t with
  | [] => cases h
  | [_] => cases h
  | point :: c :: t =>
    simp only [fraction?] at h
    split at h
    · cases h
      have := length_dropWhile_le t isDigit
      simp only [List.length_cons]
      omega
    · cases h

theorem length_exponentDigits?_lt {negative : Bool} {t rest : Text} {e : Int}
    (h : exponentDigits? negative t = some (e, rest)) : rest.length < t.length := by
  cases t with
  | nil => cases h
  | cons c t =>
    simp only [exponentDigits?] at h
    split at h
    · cases h
      exact Nat.lt_succ_of_le (length_dropWhile_le t isDigit)
    · cases h

theorem length_exponent?_le {t rest : Text} {e : Int} (h : exponent? t = some (e, rest)) :
    rest.length ≤ t.length := by
  match t with
  | [] => cases h
  | [_] => cases h
  | letter :: sign :: t =>
    simp only [exponent?] at h
    simp only [List.length_cons]
    split at h
    · split at h
      · have := length_exponentDigits?_lt h
        omega
      · split at h
        · have := length_exponentDigits?_lt h
          omega
        · have := length_exponentDigits?_lt h
          simp only [List.length_cons] at this
          omega
    · cases h

theorem length_unsigned?_lt {negative : Bool} {t rest : Text} {token : Token}
    (h : unsigned? negative t = some (token, rest)) : rest.length < t.length := by
  simp only [unsigned?] at h
  split at h
  · cases h
  · next digits afterWhole hwhole =>
    have hlt := length_whole?_lt hwhole
    have hle : ((fraction? afterWhole).getD ([], afterWhole)).2.length ≤ afterWhole.length := by
      cases hfraction : fraction? afterWhole with
      | none => exact Nat.le_refl _
      | some found => exact length_fraction?_le hfraction
    split at h
    · next e afterExponent hexponent =>
      have := length_exponent?_le hexponent
      cases h
      omega
    · split at h
      · cases h
        exact hlt
      · cases h
        omega

theorem length_number?_lt {t rest : Text} {token : Token} (h : number? t = some (token, rest)) :
    rest.length < t.length := by
  cases t with
  | nil => cases h
  | cons c t =>
    simp only [number?] at h
    split at h
    · exact Nat.lt_succ_of_lt (length_unsigned?_lt h)
    · exact length_unsigned?_lt h

end Token

end TreeOffsets.Json
