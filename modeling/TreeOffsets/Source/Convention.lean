import TreeOffsets.Source.LineTable

namespace TreeOffsets

namespace CodePoint

def carriageReturn : CodePoint := ofChar '\r'

/-- A code point that ends a line for a parser, unless it is a carriage return before a line
feed. -/
def EndsLine (c : CodePoint) : Prop :=
  c = newline ∨ c = carriageReturn ∨ c.val = 0x2028 ∨ c.val = 0x2029

instance (c : CodePoint) : Decidable c.EndsLine := by unfold EndsLine; infer_instance

end CodePoint

namespace Text

/-- The offsets at which lines after the first begin, in a text that begins at an offset. -/
def lineBegins (start : Nat) : Text → List Nat
  | [] => []
  | c :: t =>
    if c.EndsLine ∧ ¬(c = CodePoint.carriageReturn ∧ t.head? = some CodePoint.newline) then
      (start + 1) :: lineBegins (start + 1) t
    else lineBegins (start + 1) t

def lineBeginsTo (t : Text) (offset : Nat) : List Nat :=
  (lineBegins 0 t).filter fun start => decide (start ≤ offset)

/-- The place of an offset as a parser counts it. -/
def parserPosition (t : Text) (offset : Nat) : Position :=
  let begins := t.lineBeginsTo offset
  let start := begins.getLastD 0
  ⟨begins.length + 1, width ((t.take offset).drop start)⟩

/-- Only line feeds end lines in a text, also for a parser: a carriage return stands only before a
line feed, and there are no separators. -/
def HasPlainLines : Text → Prop
  | [] => True
  | c :: t =>
    (c.EndsLine → c = CodePoint.newline
      ∨ c = CodePoint.carriageReturn ∧ t.head? = some CodePoint.newline)
    ∧ HasPlainLines t

instance decidableHasPlainLines : (t : Text) → Decidable t.HasPlainLines
  | [] => .isTrue trivial
  | c :: t =>
    have := decidableHasPlainLines t
    inferInstanceAs (Decidable ((c.EndsLine → c = CodePoint.newline
      ∨ c = CodePoint.carriageReturn ∧ t.head? = some CodePoint.newline) ∧ HasPlainLines t))

end Text

namespace ColumnUnit

/-- The number of code points before a column, on a line of its own: the end of the line for a
column past it, and the end of the code point for a column inside a pair. -/
def codePoints (unit : ColumnUnit) (column : Int) (line : Text) : Nat :=
  match unit with
  | codePoint => min column.toNat line.length
  | utf16 => line.cover column.toNat

end ColumnUnit

end TreeOffsets
