import FeeWindow.Amount
import FeeWindow.Binary64

/-!
Arithmetic on binary64 numbers: the exact result, rounded once to the nearest number, a half
going to the one of even rank. Exact results are ratios of natural numbers counted in units of
`2 ^ -1074`.
-/

namespace FeeWindow

/-- The natural number nearest to `n / d`, a half going to the even one. -/
def roundEven (n d : Nat) : Nat :=
  let q := n / d
  let r := n % d
  if 2 * r < d ∨ (2 * r = d ∧ q % 2 = 0) then q else q + 1

namespace Binary64

/-- How many binades the ratio `n / d` lies above the least normal magnitudes: neighbours there
are `2 ^ binade n d` units apart. -/
def binade (n d : Nat) : Nat := Nat.log2 (n / d) - 52

/-- The rank of the magnitude nearest to `n / d` units, as if there were no largest one. -/
def nearestRank (n d : Nat) : Nat :=
  binade n d * binadeSize + roundEven n (d <<< binade n d)

/-- The number nearest to `n / d` units, infinity where that is beyond the largest one. -/
def ofUnits (negative : Bool) (n d : Nat) : Binary64 where
  negative := negative
  rank := min (nearestRank n d) infinityRank
  rank_lt := Nat.lt_of_le_of_lt (Nat.min_le_right _ _) (by decide)

def ofNat (n : Nat) : Binary64 := ofUnits false (n * unitsPerOne) 1

/-- The value of a finite number in units, with its sign. -/
def signedUnits (x : Binary64) : Int :=
  if x.negative then -(units x.rank : Int) else units x.rank

/-- The sum, rounded once. A sum of zero is negative only if both terms are. -/
def add (x y : Binary64) : Binary64 :=
  if x.isNaN || y.isNaN then nan
  else if x.isInfinite then
    if y.isInfinite && x.negative != y.negative then nan else x
  else if y.isInfinite then y
  else
    let sum := x.signedUnits + y.signedUnits
    if sum = 0 then signedZero (x.negative && y.negative)
    else ofUnits (sum < 0) sum.natAbs 1

def mul (x y : Binary64) : Binary64 :=
  let negative := x.negative != y.negative
  if x.isNaN || y.isNaN then nan
  else if x.isInfinite || y.isInfinite then
    if x.isZero || y.isZero then nan else infinity negative
  else ofUnits negative (units x.rank * units y.rank) unitsPerOne

/-- The quotient, rounded once. Zero by zero is not a number. -/
def div (x y : Binary64) : Binary64 :=
  let negative := x.negative != y.negative
  if x.isNaN || y.isNaN then nan
  else if x.isInfinite then
    if y.isInfinite then nan else infinity negative
  else if y.isInfinite then signedZero negative
  else if y.isZero then
    if x.isZero then nan else infinity negative
  else ofUnits negative (units x.rank * unitsPerOne) (units y.rank)

instance : Add Binary64 := ⟨add⟩

instance : Mul Binary64 := ⟨mul⟩

instance : Div Binary64 := ⟨div⟩

def hundred : Binary64 := ofNat 100

end Binary64

/-- An amount as a binary64 number. The upper and the lower 128 bits are each rounded, then
their weighted sum is rounded. -/
def Amount.toBinary64 (a : Amount) : Binary64 :=
  let half := Nat.pow 2 128
  Binary64.ofNat (a.val / half) * Binary64.ofNat half + Binary64.ofNat (a.val % half)

end FeeWindow
