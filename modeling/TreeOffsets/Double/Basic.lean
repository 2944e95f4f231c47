namespace TreeOffsets

/-- The number of finite magnitudes. -/
def Double.rankCount : Nat := 0x7FF0000000000000

/-- A number of double precision. The rank of a finite one counts the magnitudes below its own. -/
inductive Double where
  | nan
  | infinity (negative : Bool)
  | finite (negative : Bool) (rank : Fin Double.rankCount)
  deriving DecidableEq

namespace Double

/-- The number of magnitudes between two powers of two, which is `2 ^ 52`. -/
def block : Nat := 0x10000000000000

/-- The magnitude of a rank, in multiples of `2 ^ -1074`. The magnitudes of the first two blocks
are one such multiple apart, and those of each further block twice as far as those of the block
before. -/
def magnitude (rank : Nat) : Nat :=
  if rank < 2 * block then rank
  else (block + rank % block) * Nat.pow 2 (rank / block - 1)

/-- The multiples of `2 ^ -1074` in one. -/
def unit : Nat := Nat.pow 2 1074

def zero (negative : Bool) : Double := .finite negative ⟨0, by decide⟩

/-- A number that is neither zero nor absent; a NaN counts as one. -/
def isNonzero : Double → Bool
  | .finite _ rank => rank.val != 0
  | _ => true

/-- A finite number in multiples of `2 ^ -1074`. -/
def scaled (negative : Bool) (rank : Nat) : Int :=
  if negative then -(magnitude rank : Int) else magnitude rank

/-- How a number compares with an integer. A NaN does not compare. -/
def compareInt (x : Double) (n : Int) : Option Ordering :=
  match x with
  | .nan => none
  | .infinity negative => some (if negative then .lt else .gt)
  | .finite negative rank => some (compare (scaled negative rank) (n * unit))

end Double

/-- The number `digits * 10 ^ exponent`. -/
structure Decimal where
  digits : Nat
  exponent : Int
  deriving DecidableEq

namespace Decimal

def digitCount (n : Nat) : Nat := (Nat.toDigits 10 n).length

def leading (d : Decimal) : Int := d.exponent + digitCount d.digits - 1

end Decimal

namespace Double

/-- The rank whose magnitude is nearest to `num / den`, of two equally near ones the even one.
The quotient's 53 leading bits are the smaller of the two neighbours. -/
def nearestRank (num den : Nat) : Nat :=
  let shift := Nat.log2 (num / den) + 1 - 53
  let step := den * Nat.pow 2 shift
  let low := num / step
  let excess := 2 * (num % step)
  let up := step < excess ∨ step = excess ∧ low % 2 = 1
  shift * block + low + if up then 1 else 0

/-- The number of a sign and a rank; an infinity where no finite rank is left. -/
def ofRank (negative : Bool) (rank : Nat) : Double :=
  if h : rank < rankCount then .finite negative ⟨rank, h⟩ else .infinity negative

/-- The double nearest to a decimal. Numbers from `10 ^ 309` on and numbers below `10 ^ -324` need
no arithmetic. -/
def ofDecimal (negative : Bool) (d : Decimal) : Double :=
  if d.digits = 0 ∨ d.leading < -324 then zero negative
  else if 309 ≤ d.leading then .infinity negative
  else ofRank negative
    (nearestRank (d.digits * Nat.pow 10 d.exponent.toNat * unit) (Nat.pow 10 (-d.exponent).toNat))

/-- The double nearest to a whole number of multiples of `2 ^ -1074`. -/
def ofScaled (n : Int) : Double := ofRank (decide (n < 0)) (nearestRank n.natAbs 1)

/-- The double nearest to one less than a number. -/
def minusOne (x : Double) : Double :=
  match x with
  | .nan => .nan
  | .infinity negative => .infinity negative
  | .finite negative rank => ofScaled (scaled negative rank - unit)

end Double

end TreeOffsets
