import FeeWindow.Binary64.Arithmetic
import FeeWindow.Numeral

/-!
The fewest decimal digits that still name a binary64 magnitude. A magnitude owns the interval of
values that round to it. On the grids of one, two, up to seventeen significant digits the two
neighbours of the magnitude are tried; the first grid with a neighbour inside the interval is
taken, and of two such neighbours the nearer one. Where both are as near, a rule for halves
decides.
-/

namespace FeeWindow

/-- The decimal number `digits * 10 ^ exponent`. -/
structure Decimal where
  digits : Nat
  exponent : Int
  deriving DecidableEq

namespace Decimal

/-- The numerator of a decimal in units of `2 ^ -1074`, over `denominator`. -/
def numerator (d : Decimal) : Nat := d.digits * Nat.pow 10 d.exponent.toNat * Binary64.unitsPerOne

def denominator (d : Decimal) : Nat := Nat.pow 10 (-d.exponent).toNat

/-- The same number without zeros at the end of its digits. -/
def trimmed (d : Decimal) : Decimal :=
  if h : d.digits ≠ 0 ∧ d.digits % 10 = 0 then
    trimmed ⟨d.digits / 10, d.exponent + 1⟩
  else d
termination_by d.digits
decreasing_by exact Nat.div_lt_self (Nat.pos_of_ne_zero h.1) (by decide)

end Decimal

/-- Which of two neighbours stands for a value in the middle between them. -/
inductive HalfRule where
  | up
  | toEven
  deriving DecidableEq

namespace Binary64

/-- Whether a decimal rounds to the magnitude of the given positive rank. An end of the interval
belongs to the magnitude of even rank. -/
def owns (rank : Nat) (d : Decimal) : Bool :=
  let twice := 2 * d.numerator
  let low := (units (rank - 1) + units rank) * d.denominator
  let high := (units rank + units (rank + 1)) * d.denominator
  if rank % 2 = 0 then low ≤ twice && twice ≤ high else low < twice && twice < high

/-- The exponent of the leading decimal digit of a positive magnitude. -/
def leadingExponent (rank : Nat) : Int :=
  ((Numeral.digits 10 (units rank * Nat.pow 10 340 / unitsPerOne)).length : Int) - 341

/-- The decimal just below a magnitude, or at it, on the grid of a given spacing. -/
def below (rank : Nat) (exponent : Int) : Decimal :=
  let scaled := units rank * Nat.pow 10 (-exponent).toNat
  ⟨scaled / (Nat.pow 10 exponent.toNat * unitsPerOne), exponent⟩

/-- Whether the upper one of two neighbours is taken for a value, given twice the value, the sum
of the neighbours, and the digits of the lower one. -/
def takesUpper (rule : HalfRule) (twiceValue sum lowDigits : Nat) : Bool :=
  sum < twiceValue ||
    (sum = twiceValue && (rule = .up || lowDigits % 2 = 1))

/-- The better of the two neighbours of a magnitude on the grid of a given spacing, if one of
them rounds to it. -/
def neighbour? (rule : HalfRule) (rank : Nat) (exponent : Int) : Option Decimal :=
  let low := below rank exponent
  let high : Decimal := ⟨low.digits + 1, exponent⟩
  let sum := low.numerator + high.numerator
  let upper := takesUpper rule (2 * units rank * low.denominator) sum low.digits
  match owns rank low, owns rank high with
  | true, true => some (if upper then high else low)
  | true, false => some low
  | false, true => some high
  | false, false => none

/-- The shortest decimal that names a positive finite magnitude. -/
def shortest (rule : HalfRule) (rank : Nat) : Decimal :=
  let leading := leadingExponent rank
  let found := (List.range 17).findSome? fun (n : Nat) => neighbour? rule rank (leading - n)
  (found.getD (below rank (leading - 16))).trimmed

end Binary64

end FeeWindow
