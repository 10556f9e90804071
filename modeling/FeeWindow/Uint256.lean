import FeeWindow.Amount.Bytes

/-!
Natural numbers of at most 256 bits as they cross the public interface. They are made from
numbers of any size, bytes, 32-bit limbs or decimal numerals, each of which has to fit.
-/

namespace FeeWindow

/-- A natural number of at most 256 bits. -/
structure Uint256 where
  val : Nat
  val_lt : val < Nat.pow 2 256

namespace Uint256

@[ext] theorem ext {a b : Uint256} (h : a.val = b.val) : a = b := by
  cases a; cases b; cases h; rfl

instance : DecidableEq Uint256 := fun a b =>
  if h : a.val = b.val then isTrue (ext h) else isFalse fun heq => h (heq ▸ rfl)

/-- The wording for a number that needs more than 256 bits. -/
def tooLarge : String := "Nat does not fit in a U256"

/-- The bytes of a number without a zero byte in front, except that zero is one zero byte. -/
def leastBytes (n : Nat) : List UInt8 :=
  if n = 0 then [0] else ((Numeral.digits 256 n).map UInt8.ofNat).reverse

/-- At most 32 bytes are enough for a number of 256 bits, and for no larger one. -/
theorem length_leastBytes_le_iff {n : Nat} : (leastBytes n).length ≤ 32 ↔ n < Nat.pow 2 256 := by
  have hbits : Nat.pow 256 32 = Nat.pow 2 256 := by decide
  unfold leastBytes
  split
  · next hzero =>
      rw [hzero]
      decide
  · rw [List.length_reverse, List.length_map, ← hbits]
    constructor
    · intro hlength
      calc n
          = Numeral.value 256 (Numeral.digits 256 n) := (Numeral.value_digits (by decide) n).symm
        _ < Nat.pow 256 (Numeral.digits 256 n).length :=
          Numeral.value_lt fun _ => Numeral.lt_of_mem_digits
        _ ≤ Nat.pow 256 32 := Nat.pow_le_pow_right (by decide) hlength
    · exact Numeral.length_digits_le

/-- The number, if its bytes are at most 32. -/
def ofNat? (n : Nat) : Option Uint256 :=
  if h : (leastBytes n).length ≤ 32 then some ⟨n, length_leastBytes_le_iff.mp h⟩ else none

theorem ofNat?_eq_some {n : Nat} {m : Uint256} : ofNat? n = some m ↔ n = m.val := by
  unfold ofNat?
  constructor
  · intro h
    split at h
    · injection h with h
      rw [← h]
    · cases h
  · rintro rfl
    exact dif_pos (length_leastBytes_le_iff.mpr m.val_lt)

/-- The number of a machine word of at most 256 bits. -/
def ofWord {width : Nat} (word : BitVec width) (h : width ≤ 256) : Uint256 :=
  ⟨word.toNat, Amount.toNat_lt_of_width_le word h⟩

/-- The number of 32 bytes, the first one the most significant. -/
def ofBytes (bytes : Bytes 32) : Uint256 where
  val := Bytes.number bytes.toList
  val_lt := Bytes.number_lt_of_length_eq_32 bytes

/-- The 32 bytes of a number: its least bytes, with zero bytes in front of them. -/
def toBytes (n : Uint256) : Bytes 32 where
  toList := List.replicate (32 - (leastBytes n.val).length) 0 ++ leastBytes n.val
  length_toList := by
    have h := length_leastBytes_le_iff.mpr n.val_lt
    simp only [List.length_append, List.length_replicate]
    omega

/-- The 32-bit limbs, least significant first, with no zero limb at the top. -/
def limbs (n : Uint256) : List UInt32 := (Numeral.digits UInt32.size n.val).map UInt32.ofNat

/-- The number of a list of limbs of any length, if it fits. -/
def ofLimbs? (ls : List UInt32) : Option Uint256 :=
  ofNat? (Numeral.value UInt32.size (ls.map UInt32.toNat))

/-- Reads decimal digits among which underscores may stand, though not in front. -/
def ofPlainDecimal? (cs : List Char) : Option Uint256 :=
  if cs.head? = some '_' then none
  else (Numeral.ofText? 10 (cs.filter (· != '_'))).bind ofNat?

/-- Reads a decimal numeral with or without a plus sign in front. -/
def ofDecimal? (s : String) : Option Uint256 :=
  match s.toList with
  | '+' :: rest => ofPlainDecimal? rest
  | cs => ofPlainDecimal? cs

def decimal (n : Uint256) : String := String.ofList (Numeral.text 10 n.val)

/-- The number of an amount, carried over byte by byte. -/
def ofAmount (a : Amount) : Uint256 := ofBytes a.toBytes

/-- The amount of a number, carried over byte by byte. -/
def toAmount (n : Uint256) : Amount := Amount.ofBytes n.toBytes

end Uint256

end FeeWindow
