import TreeOffsets.Text.Basic

namespace TreeOffsets

@[ext] structure CodeUnit where
  val : Nat
  val_lt : val < 0x10000
  deriving DecidableEq

def CodeUnit.toCodePoint (u : CodeUnit) : CodePoint :=
  ⟨u.val, Nat.lt_trans u.val_lt (by decide)⟩

namespace CodePoint

/-- The number of UTF-16 units of a code point. -/
def width (c : CodePoint) : Nat := if c.val < 0x10000 then 1 else 2

def units (c : CodePoint) : List CodeUnit :=
  if h : c.val < 0x10000 then [⟨c.val, h⟩]
  else
    have := c.val_lt
    [⟨0xD800 + (c.val - 0x10000) / 0x400, by omega⟩, ⟨0xDC00 + (c.val - 0x10000) % 0x400, by omega⟩]

@[simp] theorem length_units (c : CodePoint) : c.units.length = c.width := by
  unfold units width
  split <;> rfl

/-- The code point of a high and a low surrogate together. -/
def pair (high low : CodePoint) : CodePoint :=
  ⟨0x10000 + (high.val % 0x400) * 0x400 + low.val % 0x400, by omega⟩

theorem exists_units_of_wide {c : CodePoint} (h : 0x10000 ≤ c.val) :
    ∃ high low : CodeUnit, c.units = [high, low] ∧ high.toCodePoint.IsHigh
      ∧ low.toCodePoint.IsLow ∧ high.toCodePoint.pair low.toCodePoint = c := by
  have hlt := c.val_lt
  refine ⟨_, _, dif_neg (Nat.not_lt.mpr h), ?_, ?_, CodePoint.ext ?_⟩
  all_goals
    simp only [IsHigh, IsLow, pair, CodeUnit.toCodePoint]
    omega

/-- A code point in front of a text, joined with the text's first one if the two are the halves of
a pair. -/
def joinTo (c : CodePoint) : Text → Text
  | [] => [c]
  | d :: t => if c.IsHigh ∧ d.IsLow then pair c d :: t else c :: d :: t

end CodePoint

namespace Text

def units (t : Text) : List CodeUnit := t.flatMap CodePoint.units

def ofUnits (us : List CodeUnit) : Text := us.foldr (fun u t => u.toCodePoint.joinTo t) []

def width (t : Text) : Nat := t.units.length

/-- What is left of a text when all but its first `n` units are cut off. -/
def takeUnits (n : Nat) (t : Text) : Text := ofUnits (t.units.take n)

/-- The least number of leading code points of a text that take at least `n` units, or the number
of all of them if the text is narrower. -/
def cover (n : Nat) : Text → Nat
  | [] => 0
  | c :: t => if n = 0 then 0 else cover (n - c.width) t + 1

end Text

end TreeOffsets
