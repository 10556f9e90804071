import FeeWindow.Binary64.Arithmetic

/-!
Reading a decimal as a binary64 number the quick way: the digits as a whole number, rounded, then
multiplied or divided by a rounded power of ten and rounded again. Up to `2 ^ 53` and twenty-two
places every step but the last is exact.
-/

namespace FeeWindow.Binary64

def powerOfTen (n : Nat) : Binary64 := ofNat (Nat.pow 10 n)

/-- A number divided by a power of ten, at most 308 places at a time. -/
def dividedByTens (x : Binary64) (places : Nat) : Binary64 :=
  if _h : 308 < places then
    if x.isZero then x else dividedByTens (x / powerOfTen 308) (places - 308)
  else x / powerOfTen places
termination_by places
decreasing_by omega

/-- The number with the given digits, scaled by a power of ten. There is none where the scaled
number is too large. -/
def ofDecimal? (digits : Nat) (exponent : Int) : Option Binary64 :=
  let x := ofNat digits
  if exponent < 0 then some (dividedByTens x exponent.natAbs)
  else if x.isZero then some x
  else if 308 < exponent then none
  else
    let scaled := x * powerOfTen exponent.toNat
    if scaled.isInfinite then none else some scaled

end FeeWindow.Binary64
