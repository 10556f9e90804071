import FeeWindow.Proofs.Uint256.Amount
import Mathlib.Tactic.Common

/-!
The order of numbers and the order of their bytes. Byte sequences of one length are ordered by their
first difference, and their numbers are ordered alike, so no two of them have the same number. The
32 bytes of an amount are the ones of its number: amounts and 32 bytes are carried over to each
other without loss, and compared alike.
-/

namespace FeeWindow

namespace Bytes

variable {xs ys : List UInt8}

theorem number_cons (b : UInt8) (rest : List UInt8) :
    number (b :: rest) = b.toNat * Nat.pow 256 rest.length + number rest := by
  unfold number
  rw [List.reverse_cons, List.map_append, Numeral.value_append, List.length_map,
    List.length_reverse, Nat.add_comm, Nat.mul_comm]
  rfl

/-- Numbers with a leading digit each are compared by it first. -/
theorem compare_leading {place x y a b : Nat} (ha : a < place) (hb : b < place) :
    compare (x * place + a) (y * place + b) = (compare x y).then (compare a b) := by
  have hsmaller {x y a b : Nat} (h : x < y) (ha : a < place) :
      x * place + a < y * place + b := by
    calc x * place + a
        < x * place + place := Nat.add_lt_add_left ha _
      _ = (x + 1) * place := (Nat.succ_mul x place).symm
      _ ≤ y * place := Nat.mul_le_mul_right place h
      _ ≤ y * place + b := Nat.le_add_right _ b
  rcases Nat.lt_trichotomy x y with h | rfl | h
  · rw [Nat.compare_eq_lt.mpr h, Nat.compare_eq_lt.mpr (hsmaller h ha)]
    rfl
  · rw [Nat.compare_eq_eq.mpr rfl]
    simp [compare, compareOfLessAndEq]
  · rw [Nat.compare_eq_gt.mpr h, Nat.compare_eq_gt.mpr (hsmaller h hb)]
    rfl

theorem compare_toNat (x y : UInt8) : compare x.toNat y.toNat = compare x y := by
  rcases h : compare x y with _ | _ | _
  · exact Nat.compare_eq_lt.mpr (UInt8.lt_iff_toNat_lt.mp (Std.LawfulLTCmp.eq_lt_iff_lt.mp h))
  · rw [Std.LawfulEqOrd.eq_of_compare h]
    exact Nat.compare_eq_eq.mpr rfl
  · exact Nat.compare_eq_gt.mpr (UInt8.lt_iff_toNat_lt.mp (Std.LawfulLTCmp.eq_gt_iff_gt.mp h))

theorem compare_number (h : xs.length = ys.length) :
    compare (number xs) (number ys) = compare xs ys := by
  induction xs generalizing ys with
  | nil =>
      rw [List.length_eq_zero_iff.mp h.symm]
      rfl
  | cons x xs ih =>
      cases ys with
      | nil => cases h
      | cons y ys =>
          have hlength : xs.length = ys.length := Nat.succ.inj h
          rw [number_cons, number_cons, hlength, List.compare_cons_cons, ← ih hlength,
            ← compare_toNat]
          exact compare_leading (hlength ▸ number_lt xs) (number_lt ys)

theorem compare_eq_lt_iff : compare xs ys = .lt ↔ xs < ys := by
  induction xs generalizing ys with
  | nil => cases ys <;> simp
  | cons x xs ih =>
      cases ys with
      | nil => simp
      | cons y ys => simp [Ordering.then_eq_lt, List.cons_lt_cons_iff, ih,
          Std.LawfulLTCmp.eq_lt_iff_lt]

theorem number_lt_number_iff (h : xs.length = ys.length) : number xs < number ys ↔ xs < ys := by
  rw [← Nat.compare_eq_lt, compare_number h, compare_eq_lt_iff]

section FixedLength

variable {n : Nat} {a b : Bytes n}

theorem length_toList_eq (a b : Bytes n) : a.toList.length = b.toList.length :=
  a.length_toList.trans b.length_toList.symm

theorem compare_number_toList (a b : Bytes n) :
    compare (number a.toList) (number b.toList) = compare a b :=
  compare_number (length_toList_eq a b)

theorem eq_of_number_eq (h : number a.toList = number b.toList) : a = b := by
  apply Std.LawfulEqOrd.eq_of_compare
  rw [← compare_number_toList, h]
  exact Nat.compare_eq_eq.mpr rfl

end FixedLength

end Bytes

namespace Amount

variable (a b : Amount)

theorem ofBytes_toBytes : ofBytes a.toBytes = a := by
  apply ext
  exact number_toBytes a

theorem toBytes_ofBytes (bytes : Bytes 32) : (ofBytes bytes).toBytes = bytes := by
  apply Bytes.eq_of_number_eq
  rw [number_toBytes]
  rfl

theorem compare_toBytes : compare a.toBytes b.toBytes = compare a b := by
  rw [← Bytes.compare_number_toList, number_toBytes, number_toBytes]
  rfl

theorem toBytes_lt_toBytes_iff : a.toBytes.toList < b.toBytes.toList ↔ a < b := by
  rw [← Bytes.number_lt_number_iff (Bytes.length_toList_eq _ _), number_toBytes, number_toBytes]
  rfl

end Amount

end FeeWindow
