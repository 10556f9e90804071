/-!
Amounts of wei per gas, gas and block numbers: natural numbers below `2 ^ 256`. An operation
that can leave this range either answers `none` or stops at the end of the range, and its name
says which.
-/

namespace FeeWindow

/-- A natural number below `2 ^ 256`. -/
structure Amount where
  val : Nat
  val_lt : val < Nat.pow 2 256

abbrev GasPrice := Amount

abbrev Gas := Amount

/-- The number of a block; block zero is genesis. -/
abbrev BlockNumber := Amount

namespace Amount

@[ext] theorem ext {a b : Amount} (h : a.val = b.val) : a = b := by
  cases a; cases b; cases h; rfl

instance : DecidableEq Amount := fun a b =>
  if h : a.val = b.val then isTrue (ext h) else isFalse fun heq => h (heq ▸ rfl)

instance : LE Amount := ⟨fun a b => a.val ≤ b.val⟩

instance : LT Amount := ⟨fun a b => a.val < b.val⟩

instance : DecidableLE Amount := fun a b => inferInstanceAs (Decidable (a.val ≤ b.val))

instance : DecidableLT Amount := fun a b => inferInstanceAs (Decidable (a.val < b.val))

instance : Ord Amount := ⟨compareOn val⟩

instance : Std.TransOrd Amount := inferInstanceAs (Std.TransCmp (compareOn val))

instance : Std.LawfulEqOrd Amount where
  eq_of_compare h := ext (Std.LawfulEqOrd.eq_of_compare (α := Nat) h)

/-- The amount of a number, if the number is in range. -/
def ofNat? (n : Nat) : Option Amount :=
  if h : n < Nat.pow 2 256 then some ⟨n, h⟩ else none

theorem toNat_lt_of_width_le {width : Nat} (word : BitVec width) (h : width ≤ 256) :
    word.toNat < Nat.pow 2 256 :=
  Nat.lt_of_lt_of_le word.isLt (Nat.pow_le_pow_right (by decide) h)

/-- The amount of a machine word of at most 256 bits. -/
def ofWord {width : Nat} (word : BitVec width) (h : width ≤ 256) : Amount :=
  ⟨word.toNat, toNat_lt_of_width_le word h⟩

/-- The amount of a number of at most 64 bits. -/
def ofUInt64 (n : UInt64) : Amount := ofWord n.toBitVec (by decide)

def zero : Amount := ⟨0, by decide⟩

def one : Amount := ⟨1, by decide⟩

/-- The largest amount, `2 ^ 256 - 1`. -/
def largest : Amount := ⟨Nat.pow 2 256 - 1, by decide⟩

instance : Inhabited Amount := ⟨zero⟩

def add? (a b : Amount) : Option Amount := ofNat? (a.val + b.val)

/-- The next amount; the largest one has none. -/
def succ? (a : Amount) : Option Amount := ofNat? (a.val + 1)

def mul? (a b : Amount) : Option Amount := ofNat? (a.val * b.val)

/-- The quotient rounded down; there is none by zero. -/
def div? (a b : Amount) : Option Amount :=
  if b.val = 0 then none
  else some ⟨a.val / b.val, Nat.lt_of_le_of_lt (Nat.div_le_self _ _) a.val_lt⟩

/-- The difference, or zero where `b` is the larger. -/
def subClamped (a b : Amount) : Amount :=
  ⟨a.val - b.val, Nat.lt_of_le_of_lt (Nat.sub_le _ _) a.val_lt⟩

/-- The sum, or the largest amount where the sum is out of range. -/
def addClamped (a b : Amount) : Amount := (a.add? b).getD largest

def least (a b : Amount) : Amount := if b < a then b else a

def greatest (a b : Amount) : Amount := if a < b then b else a

theorem ofNat?_val (a : Amount) : ofNat? a.val = some a := dif_pos a.val_lt

theorem ofNat?_eq_some {n : Nat} {a : Amount} : ofNat? n = some a ↔ n = a.val := by
  constructor
  · intro h
    unfold ofNat? at h
    split at h
    · injection h with h
      rw [← h]
    · cases h
  · rintro rfl
    exact ofNat?_val a

theorem ofNat?_eq_none {n : Nat} : ofNat? n = none ↔ Nat.pow 2 256 ≤ n := by
  unfold ofNat?
  split
  · next h =>
      constructor
      · intro hsome
        cases hsome
      · intro hle
        exact absurd h (Nat.not_lt_of_le hle)
  · next h => exact ⟨fun _ => Nat.le_of_not_lt h, fun _ => rfl⟩

theorem val_addClamped (a b : Amount) :
    (a.addClamped b).val = min (a.val + b.val) largest.val := by
  unfold addClamped add?
  have hlargest : largest.val = Nat.pow 2 256 - 1 := rfl
  rcases Nat.lt_or_ge (a.val + b.val) (Nat.pow 2 256) with h | h
  · have : ofNat? (a.val + b.val) = some ⟨a.val + b.val, h⟩ := dif_pos h
    rw [this]
    show a.val + b.val = _
    omega
  · rw [ofNat?_eq_none.mpr h]
    show largest.val = _
    omega

@[simp] theorem val_subClamped (a b : Amount) : (a.subClamped b).val = a.val - b.val := rfl

end Amount

end FeeWindow
