namespace TreeOffsets

/-- A Unicode code point, surrogates included. -/
@[ext] structure CodePoint where
  val : Nat
  val_lt : val < 0x110000
  deriving DecidableEq

/-- A sequence of code points. All offsets count these. -/
abbrev Text := List CodePoint

namespace CodePoint

theorem char_toNat_lt (c : Char) : c.toNat < 0x110000 := by
  have h := c.valid
  simp only [UInt32.isValidChar, Nat.isValidChar] at h
  change c.val.toNat < 0x110000
  omega

def ofChar (c : Char) : CodePoint := ⟨c.toNat, char_toNat_lt c⟩

instance : Coe Char CodePoint := ⟨ofChar⟩

instance : Inhabited CodePoint := ⟨ofChar 'A'⟩

@[simp] theorem val_ofChar (c : Char) : (ofChar c).val = c.toNat := rfl

theorem eq_ofChar_iff (c : CodePoint) (d : Char) : c = ofChar d ↔ c.val = d.toNat :=
  ⟨fun h => by simp [h], fun h => CodePoint.ext h⟩

/-- The first half of a UTF-16 pair. -/
def IsHigh (c : CodePoint) : Prop := 0xD800 ≤ c.val ∧ c.val < 0xDC00

def IsLow (c : CodePoint) : Prop := 0xDC00 ≤ c.val ∧ c.val < 0xE000

/-- The code points that are no scalar values. -/
def IsSurrogate (c : CodePoint) : Prop := 0xD800 ≤ c.val ∧ c.val < 0xE000

instance (c : CodePoint) : Decidable c.IsHigh := by unfold IsHigh; infer_instance

instance (c : CodePoint) : Decidable c.IsLow := by unfold IsLow; infer_instance

instance (c : CodePoint) : Decidable c.IsSurrogate := by unfold IsSurrogate; infer_instance

theorem isSurrogate_iff (c : CodePoint) : c.IsSurrogate ↔ c.IsHigh ∨ c.IsLow := by
  unfold IsSurrogate IsHigh IsLow
  omega

theorem IsHigh.not_isLow {c : CodePoint} (h : c.IsHigh) : ¬c.IsLow := by
  unfold IsHigh at h
  unfold IsLow
  omega

theorem IsLow.not_isHigh {c : CodePoint} (h : c.IsLow) : ¬c.IsHigh := fun hhigh => hhigh.not_isLow h

theorem isValidChar_of_not_isSurrogate {c : CodePoint} (h : ¬c.IsSurrogate) :
    c.val.isValidChar := by
  have := c.val_lt
  simp only [IsSurrogate] at h
  simp only [Nat.isValidChar]
  omega

def toChar? (c : CodePoint) : Option Char :=
  if h : c.IsSurrogate then none else some (Char.ofNatAux c.val (isValidChar_of_not_isSurrogate h))

def newline : CodePoint := ofChar '\n'

end CodePoint

namespace Text

def ofString (s : String) : Text := s.toList.map CodePoint.ofChar

instance : Coe String Text := ⟨ofString⟩

/-- A text all of whose code points are scalar values. -/
def IsScalar (t : Text) : Prop := ∀ c ∈ t, ¬c.IsSurrogate

instance (t : Text) : Decidable t.IsScalar := by unfold IsScalar; infer_instance

def toString? (t : Text) : Option String := (t.mapM CodePoint.toChar?).map String.ofList

def ofNat (n : Nat) : Text := (Nat.toDigits 10 n).map CodePoint.ofChar

def ofInt : Int → Text
  | .ofNat n => ofNat n
  | .negSucc n => CodePoint.ofChar '-' :: ofNat (n + 1)

def hexDigit (n : Nat) : CodePoint := CodePoint.ofChar (Nat.digitChar (n % 16))

/-- A number in exactly `width` lower-case hexadecimal digits, its high digits cut off. -/
def hex : (width n : Nat) → Text
  | 0, _ => []
  | width + 1, n => hex width (n / 16) ++ [hexDigit n]

/-- The number of the line, from 1, on which a text ends. -/
def lastLine (t : Text) : Nat := t.count CodePoint.newline + 1

/-- The number of code points on the line on which a text ends. -/
def lastColumn (t : Text) : Nat := (t.reverse.takeWhile fun c => c != CodePoint.newline).length

end Text

end TreeOffsets
