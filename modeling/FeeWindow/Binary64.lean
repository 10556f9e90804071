/-!
The numbers of the binary64 format as exact data. A number is a sign and the rank of its
magnitude among all magnitudes in ascending order, which the format stores as its lower 63 bits:
rank zero is zero, then come the subnormal and normal magnitudes, then infinity, and above it
the values that are not numbers. Every finite magnitude is a whole number of units of
`2 ^ -1074`, so its value is a natural number of units.
-/

namespace FeeWindow

/-- A sign and the rank of a magnitude. -/
structure Binary64 where
  negative : Bool
  rank : Nat
  rank_lt : rank < Nat.pow 2 63

namespace Binary64

@[ext] theorem ext {x y : Binary64} (hsign : x.negative = y.negative)
    (hrank : x.rank = y.rank) : x = y := by
  cases x; cases y; cases hsign; cases hrank; rfl

instance : DecidableEq Binary64 := fun x y =>
  if h : x.negative = y.negative ∧ x.rank = y.rank then isTrue (ext h.1 h.2)
  else isFalse fun heq => h ⟨heq ▸ rfl, heq ▸ rfl⟩

/-- How many magnitudes a binade has. -/
def binadeSize : Nat := Nat.pow 2 52

def infinityRank : Nat := 2047 * binadeSize

/-- How many units make one. -/
def unitsPerOne : Nat := Nat.pow 2 1074

/-- The value of a finite magnitude in units of `2 ^ -1074`, by its rank. -/
def units (rank : Nat) : Nat :=
  if rank < binadeSize then rank
  else (binadeSize + rank % binadeSize) <<< (rank / binadeSize - 1)

def isNaN (x : Binary64) : Bool := infinityRank < x.rank

def isInfinite (x : Binary64) : Bool := x.rank = infinityRank

def isFinite (x : Binary64) : Bool := x.rank < infinityRank

def isZero (x : Binary64) : Bool := x.rank = 0

def signedZero (negative : Bool) : Binary64 := ⟨negative, 0, by decide⟩

def zero : Binary64 := signedZero false

def infinity (negative : Bool) : Binary64 := ⟨negative, infinityRank, by decide⟩

/-- The value that stands for all results that are not numbers. -/
def nan : Binary64 := ⟨false, infinityRank + binadeSize / 2, by decide⟩

instance : Inhabited Binary64 := ⟨zero⟩

def neg (x : Binary64) : Binary64 := { x with negative := !x.negative }

/-- The 64 bits of a number, the sign first. -/
def bits (x : Binary64) : Nat := (if x.negative then Nat.pow 2 63 else 0) + x.rank

def ofBits (b : UInt64) : Binary64 where
  negative := Nat.pow 2 63 ≤ b.toNat
  rank := b.toNat % Nat.pow 2 63
  rank_lt := Nat.mod_lt _ (by decide)

/-- All values that are not numbers made one. -/
def canonical (x : Binary64) : Binary64 := if x.isNaN then nan else x

/-- The place of a number on the line, counted in representable magnitudes from zero. Both zeros
are at the same place. -/
def place (x : Binary64) : Int := if x.negative then -(x.rank : Int) else x.rank

/-- The numeric order. It says nothing of values that are not numbers, and the two zeros are
equal in it. -/
def le (x y : Binary64) : Bool := !x.isNaN && !y.isNaN && x.place ≤ y.place

instance : LE Binary64 := ⟨fun x y => x.le y = true⟩

instance : DecidableLE Binary64 := fun x y => inferInstanceAs (Decidable (x.le y = true))

/-- The place of a value in the total order, which puts `-0` right before `0` and the values that
are not numbers beyond the infinity of their sign. -/
def totalPlace (x : Binary64) : Int := if x.negative then -(x.rank : Int) - 1 else x.rank

/-- Whether a value stands no later than another in the total order. -/
def totalLe (x y : Binary64) : Bool := x.totalPlace ≤ y.totalPlace

theorem totalPlace_inj {x y : Binary64} (h : x.totalPlace = y.totalPlace) : x = y := by
  unfold totalPlace at h
  apply ext
  · cases hx : x.negative <;> cases hy : y.negative <;> simp [hx, hy] at h ⊢ <;> omega
  · cases hx : x.negative <;> cases hy : y.negative <;> simp [hx, hy] at h <;> omega

end Binary64

end FeeWindow
