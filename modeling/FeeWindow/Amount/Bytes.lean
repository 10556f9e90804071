import FeeWindow.Amount
import FeeWindow.Bytes

/-!
An amount as 32 bytes, the first one the most significant.
-/

namespace FeeWindow.Amount

def toBytes (a : Amount) : Bytes 32 where
  toList := ((List.range 32).map fun i => UInt8.ofNat (a.val / Nat.pow 256 i)).reverse
  length_toList := by simp

def ofBytes (bytes : Bytes 32) : Amount where
  val := Bytes.number bytes.toList
  val_lt := Bytes.number_lt_of_length_eq_32 bytes

end FeeWindow.Amount
