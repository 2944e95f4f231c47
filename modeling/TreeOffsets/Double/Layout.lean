import TreeOffsets.Text.Basic
import TreeOffsets.Double.Basic

/-!
A double is written with the fewest digits with which rounding gives it back; of the decimals with
so few digits the nearest is taken. Only the two neighbours of the magnitude on a grid of that many
digits can qualify. Seventeen digits are enough for any double; the exact expansion, which rounds
back trivially, stands behind them.

A number whose first digit stands for `10 ^ -4` to `10 ^ 15` is written positionally, with at least
one digit on either side of the point. Any other number is written with an exponent of a sign and
at least two digits, and without a point if it has a single digit.
-/

namespace TreeOffsets.Double

/-- The multiples of `10 ^ -1074` in `2 ^ -1074`. -/
def fives : Nat := Nat.pow 5 1074

/-- The magnitude of a rank in multiples of `10 ^ -1074`, which is always a whole number. -/
def expansion (rank : Nat) : Nat := magnitude rank * fives

def exact (rank : Nat) : Decimal := ⟨expansion rank, -1074⟩

/-- The nearest decimal that rounds to a given rank when the last `dropped` digits of its expansion
are dropped: one of the two neighbours on the grid, or none. Of two equally near ones the even one
is taken. -/
def withoutDigits? (rank : Fin rankCount) (dropped : Nat) : Option Decimal :=
  let value := expansion rank
  let grid := Nat.pow 10 dropped
  let below : Decimal := ⟨value / grid, dropped - 1074⟩
  let above : Decimal := ⟨value / grid + 1, dropped - 1074⟩
  let excess := 2 * (value % grid)
  let preferAbove := grid < excess ∨ grid = excess ∧ below.digits % 2 = 1
  let first := if preferAbove then above else below
  let second := if preferAbove then below else above
  [first, second].find? fun d => decide (ofDecimal false d = .finite false rank)

/-- The shortest decimal that rounds to a given rank. -/
def shortest (rank : Fin rankCount) : Decimal :=
  let size := Decimal.digitCount (expansion rank)
  ((List.range' 1 17).findSome? fun count => withoutDigits? rank (size - count)).getD (exact rank)

structure Names where
  nan : String
  infinity : String
  negativeInfinity : String

def zeros (count : Nat) : Text := List.replicate count (CodePoint.ofChar '0')

/-- The digits of a decimal without the zeros at their end. -/
def significant (d : Decimal) : Text :=
  ((Text.ofNat d.digits).reverse.dropWhile fun c => c == CodePoint.ofChar '0').reverse

/-- The digits `ds`, of which the first stands for `10 ^ leading`, around a point. -/
def positional (ds : Text) (leading : Int) : Text :=
  if leading < 0 then Text.ofString "0." ++ zeros (-leading - 1).toNat ++ ds
  else
    let whole := leading.toNat + 1
    if ds.length ≤ whole then ds ++ zeros (whole - ds.length) ++ Text.ofString ".0"
    else ds.take whole ++ Text.ofString "." ++ ds.drop whole

/-- An exponent with its sign and at least two digits. -/
def exponentText (e : Int) : Text :=
  let digits := Text.ofNat e.natAbs
  CodePoint.ofChar (if e < 0 then '-' else '+') :: (zeros (2 - digits.length) ++ digits)

def scientific (ds : Text) (leading : Int) : Text :=
  ds.take 1 ++ (if ds.length ≤ 1 then [] else Text.ofString "." ++ ds.drop 1)
    ++ Text.ofString "e" ++ exponentText leading

def layout (d : Decimal) : Text :=
  if d.digits = 0 then Text.ofString "0.0"
  else if -4 ≤ d.leading ∧ d.leading < 16 then positional (significant d) d.leading
  else scientific (significant d) d.leading

def toText (names : Names) : Double → Text
  | .nan => Text.ofString names.nan
  | .infinity false => Text.ofString names.infinity
  | .infinity true => Text.ofString names.negativeInfinity
  | .finite false rank => layout (shortest rank)
  | .finite true rank => CodePoint.ofChar '-' :: layout (shortest rank)

end TreeOffsets.Double
