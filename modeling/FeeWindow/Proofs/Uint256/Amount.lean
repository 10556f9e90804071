import FeeWindow.Proofs.Numeral
import FeeWindow.Uint256

/-!
Public natural numbers and amounts. Each is carried over to the other byte by byte, and both ways
the number stays what it was: the bytes of an amount are its digits at fixed places, those of a
public number are its digits with zeros in front, and bytes of either kind denote that number.
-/

namespace FeeWindow

theorem Bytes.number_append_zeros (k : Nat) (bytes : List UInt8) :
    number (List.replicate k 0 ++ bytes) = number bytes := by
  unfold number
  rw [List.reverse_append, List.map_append, List.reverse_replicate, List.map_replicate]
  exact Numeral.value_append_zeros 256 _ k

namespace Amount

/-- The bytes of an amount are its digits, from the highest to the lowest. -/
theorem number_toBytes (a : Amount) : Bytes.number a.toBytes.toList = a.val := by
  have hdigit : UInt8.toNat ∘ (fun i => UInt8.ofNat (a.val / Nat.pow 256 i)) =
      fun i => a.val / Nat.pow 256 i % 256 := by
    funext i
    exact UInt8.toNat_ofNat'
  have hlt : a.val < Nat.pow 256 32 := Nat.lt_of_lt_of_eq a.val_lt (by decide)
  unfold Bytes.number toBytes
  rw [List.reverse_reverse, List.map_map, hdigit, Numeral.value_map_range]
  exact Nat.mod_eq_of_lt hlt

end Amount

namespace Uint256

theorem number_leastBytes (n : Nat) : Bytes.number (leastBytes n) = n := by
  unfold leastBytes
  split
  · next hzero =>
      rw [hzero]
      rfl
  · have hbyte (d : Nat) (hd : d < 256) : (UInt8.ofNat d).toNat = d :=
      UInt8.toNat_ofNat_of_lt' hd
    unfold Bytes.number
    rw [List.reverse_reverse, Numeral.map_map_digits hbyte]
    exact Numeral.value_digits (by decide) n

theorem number_toBytes (n : Uint256) : Bytes.number n.toBytes.toList = n.val := by
  unfold toBytes
  rw [Bytes.number_append_zeros, number_leastBytes]

@[simp] theorem val_toAmount (n : Uint256) : n.toAmount.val = n.val := number_toBytes n

@[simp] theorem val_ofAmount (a : Amount) : (ofAmount a).val = a.val := Amount.number_toBytes a

@[simp] theorem toAmount_ofAmount (a : Amount) : (ofAmount a).toAmount = a := by
  apply Amount.ext
  rw [val_toAmount, val_ofAmount]

@[simp] theorem ofAmount_toAmount (n : Uint256) : ofAmount n.toAmount = n := by
  apply ext
  rw [val_ofAmount, val_toAmount]

end Uint256

end FeeWindow
