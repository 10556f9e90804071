import FeeWindow.Numeral

/-!
Byte sequences of a fixed length, and the number that one denotes when its first byte is the
most significant.
-/

namespace FeeWindow

/-- A sequence of `n` bytes. -/
structure Bytes (n : Nat) where
  toList : List UInt8
  length_toList : toList.length = n

/-- The hash of a block or of a transaction. -/
abbrev Hash := Bytes 32

def utf8 (s : List Char) : List UInt8 := s.flatMap String.utf8EncodeChar

namespace Bytes

@[ext] theorem ext {n : Nat} {a b : Bytes n} (h : a.toList = b.toList) : a = b := by
  cases a; cases b; cases h; rfl

instance {n : Nat} : DecidableEq (Bytes n) := fun a b =>
  if h : a.toList = b.toList then isTrue (ext h) else isFalse fun heq => h (heq ▸ rfl)

instance {n : Nat} : Ord (Bytes n) := ⟨compareOn toList⟩

instance {n : Nat} : Std.TransOrd (Bytes n) := inferInstanceAs (Std.TransCmp (compareOn toList))

instance {n : Nat} : Std.LawfulEqOrd (Bytes n) where
  eq_of_compare h := ext (Std.LawfulEqOrd.eq_of_compare (α := List UInt8) h)

def ofList? (n : Nat) (bytes : List UInt8) : Option (Bytes n) :=
  if h : bytes.length = n then some ⟨bytes, h⟩ else none

def zeros (n : Nat) : Bytes n := ⟨List.replicate n 0, List.length_replicate⟩

/-- The number that bytes denote, the first byte being the most significant. -/
def number (bytes : List UInt8) : Nat := Numeral.value 256 (bytes.reverse.map UInt8.toNat)

theorem number_lt (bytes : List UInt8) : number bytes < Nat.pow 256 bytes.length := by
  have hds : ∀ d ∈ bytes.reverse.map UInt8.toNat, d < 256 := by
    intro d hd
    obtain ⟨b, _, rfl⟩ := List.mem_map.mp hd
    exact b.toNat_lt
  simpa [number] using Numeral.value_lt hds

theorem number_lt_of_length_eq_32 (bytes : Bytes 32) :
    number bytes.toList < Nat.pow 2 256 := by
  have h := number_lt bytes.toList
  rw [bytes.length_toList] at h
  exact Nat.lt_of_lt_of_eq h (by decide)

end Bytes

end FeeWindow
