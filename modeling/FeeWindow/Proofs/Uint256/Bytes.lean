import FeeWindow.Proofs.Amount.Bytes
import FeeWindow.Proofs.Uint256.Json
import FeeWindow.Proofs.Uint256.Message

/-!
Public natural numbers as bytes. However such a number is made, it is the one that was written, and
the least bytes of that leave room for the zero bytes that fill 32 up. Amounts, public numbers and
32 bytes therefore stand for each other, and amounts are ordered as their bytes are.
-/

namespace FeeWindow

/-- Bytes of a number without a zero byte in front, except that zero is one zero byte. -/
structure Bytes.IsLeast (v : Nat) (bytes : List UInt8) : Prop where
  number : Bytes.number bytes = v
  ne_nil : bytes ≠ []
  front : bytes.head? = some 0 → bytes = [0]

namespace Uint256

theorem isLeast_leastBytes (v : Nat) : Bytes.IsLeast v (leastBytes v) := by
  refine ⟨number_leastBytes v, ?_, ?_⟩
  · unfold leastBytes
    split
    · exact List.cons_ne_nil 0 []
    · next hv => simpa using Numeral.digits_ne_nil (by decide) hv
  · unfold leastBytes
    split
    · exact fun _ => rfl
    · intro hfront
      rw [List.head?_reverse, List.getLast?_map] at hfront
      obtain ⟨d, hlast, hd⟩ := Option.map_eq_some_iff.mp hfront
      have hlt : d < 256 := Numeral.lt_of_mem_digits (List.mem_of_getLast? hlast)
      have hzero : d = 0 := by
        have hbyte := congrArg UInt8.toNat hd
        rwa [UInt8.toNat_ofNat_of_lt' hlt] at hbyte
      rw [hzero] at hlast
      exact absurd hlast (Numeral.getLast?_digits_ne_zero (by decide) v)

/-- The public number stands for a number that fits, and its 32 bytes are the least bytes of that
behind as many zero bytes as there is room for. -/
structure Holds (n : Uint256) (v : Nat) : Prop where
  val : n.val = v
  fits : v < Nat.pow 2 256
  padded : ∃ zeros, zeros + (leastBytes v).length = 32 ∧
    n.toBytes.toList = List.replicate zeros 0 ++ leastBytes v
  least : Bytes.IsLeast v (leastBytes v)
  number : Bytes.number n.toBytes.toList = v

theorem holds_val (n : Uint256) : n.Holds n.val where
  val := rfl
  fits := n.val_lt
  padded := by
    have hroom := length_leastBytes_le_iff.mpr n.val_lt
    exact ⟨32 - (leastBytes n.val).length, Nat.sub_add_cancel hroom, rfl⟩
  least := isLeast_leastBytes n.val
  number := number_toBytes n

theorem holds_of_val_eq {n : Uint256} {v : Nat} (h : n.val = v) : n.Holds v := by
  rw [← h]
  exact n.holds_val

theorem exists_ofNat?_iff {v : Nat} : (∃ n, ofNat? v = some n) ↔ v < Nat.pow 2 256 := by
  constructor
  · intro h
    obtain ⟨n, hn⟩ := h
    rw [ofNat?_eq_some.mp hn]
    exact n.val_lt
  · intro hv
    exact ⟨⟨v, hv⟩, ofNat?_eq_some.mpr rfl⟩

theorem toBytes_toAmount (n : Uint256) : n.toAmount.toBytes = n.toBytes :=
  Amount.toBytes_ofBytes n.toBytes

theorem ofBytes_toBytes (n : Uint256) : ofBytes n.toBytes = n := by
  apply ext
  exact number_toBytes n

theorem toBytes_ofBytes (bytes : Bytes 32) : (ofBytes bytes).toBytes = bytes := by
  apply Bytes.eq_of_number_eq
  rw [number_toBytes]
  rfl

/-- Amounts and 32 bytes are carried over to each other and back without loss, and amounts are
compared as their bytes are, by the first one that differs. Amounts and public numbers too are
carried over to each other and back without loss, keeping the number and its bytes. A natural number
is accepted exactly if it is below `2 ^ 256`. What is made of a number, of bytes, of a machine word,
of JSON or of a message stands for the number that is written there, so that filling up its least
bytes to 32 always succeeds. -/
theorem amounts_numbers_bytes_agree :
    ((∀ a : Amount, Amount.ofBytes a.toBytes = a) ∧
      (∀ bytes : Bytes 32, (Amount.ofBytes bytes).toBytes = bytes) ∧
      ∀ a b : Amount, compare a b = compare a.toBytes.toList b.toBytes.toList ∧
        (a < b ↔ a.toBytes.toList < b.toBytes.toList)) ∧
    ((∀ a : Amount, (ofAmount a).toAmount = a ∧ (ofAmount a).Holds a.val ∧
        (ofAmount a).toBytes = a.toBytes) ∧
      ∀ n : Uint256, ofAmount n.toAmount = n ∧ n.Holds n.toAmount.val ∧
        n.toAmount.toBytes = n.toBytes) ∧
    (∀ v, ((∃ n, ofNat? v = some n) ↔ v < Nat.pow 2 256) ∧
      ((leastBytes v).length ≤ 32 ↔ v < Nat.pow 2 256) ∧
      ∀ n, ofNat? v = some n → n.Holds v) ∧
    ((∀ n : Uint256, ofBytes n.toBytes = n) ∧
      ∀ bytes : Bytes 32, (ofBytes bytes).toBytes = bytes ∧
        (ofBytes bytes).Holds (Bytes.number bytes.toList)) ∧
    (∀ width (word : BitVec width) (h : width ≤ 256), (ofWord word h).Holds word.toNat) ∧
    (∀ j n, ofJson? j = some n → ∃ v, j.Denotes v ∧ n.Holds v) ∧
    ∀ bytes n, ofMessage? bytes = some n → ∃ groups, bytes = natHeader ++ groups ∧
      SevenBit groups ∧ n.Holds (sevenBitValue groups) := by
  refine ⟨⟨Amount.ofBytes_toBytes, Amount.toBytes_ofBytes, ?_⟩, ⟨?_, ?_⟩, ?_,
    ⟨ofBytes_toBytes, ?_⟩, ?_, ?_, ?_⟩
  · intro a b
    exact ⟨(a.compare_toBytes b).symm, (a.toBytes_lt_toBytes_iff b).symm⟩
  · intro a
    exact ⟨toAmount_ofAmount a, holds_of_val_eq (val_ofAmount a), toBytes_ofBytes a.toBytes⟩
  · intro n
    exact ⟨ofAmount_toAmount n, holds_of_val_eq (val_toAmount n).symm, toBytes_toAmount n⟩
  · intro v
    refine ⟨exists_ofNat?_iff, length_leastBytes_le_iff, ?_⟩
    intro n hn
    exact holds_of_val_eq (ofNat?_eq_some.mp hn).symm
  · intro bytes
    exact ⟨toBytes_ofBytes bytes, holds_of_val_eq rfl⟩
  · intro width word h
    exact holds_of_val_eq rfl
  · intro j n hn
    exact ⟨n.val, denotes_of_ofJson? hn, n.holds_val⟩
  · intro bytes n hn
    obtain ⟨groups, hbytes, hgroups, hvalue⟩ := ofMessage?_eq_some_iff.mp hn
    exact ⟨groups, hbytes, hgroups, holds_of_val_eq hvalue.symm⟩

/-- Zero, which is all padding but for one byte, the largest number and the next one, and a number
in two longer forms than it needs. -/
theorem amounts_numbers_bytes_agree_at_ends :
    (∃ n, ofNat? 0 = some n ∧ n.Holds 0 ∧ n.toBytes = Bytes.zeros 32) ∧
    (∃ n, ofNat? Amount.largest.val = some n ∧ n.Holds Amount.largest.val ∧
      n.toBytes = Amount.largest.toBytes) ∧
    (¬ ∃ n, ofNat? (Nat.pow 2 256) = some n) ∧
    (∃ n, ofJson? (.str "0_05") = some n ∧ ∃ v, (Json.str "0_05").Denotes v ∧ n.Holds v) ∧
    ∃ n, ofMessage? (natHeader ++ [0x85, 0x00]) = some n ∧ ∃ groups,
      natHeader ++ [0x85, 0x00] = natHeader ++ groups ∧ n.Holds (sevenBitValue groups) := by
  obtain ⟨-, ⟨hamounts, -⟩, hnumbers, -, -, hjson, hmessages⟩ := amounts_numbers_bytes_agree
  have hread : ofJson? (.str "0_05") = some ⟨5, by decide⟩ := by decide +kernel
  have hreadMessage : ofMessage? (natHeader ++ [0x85, 0x00]) = some ⟨5, by decide⟩ := by
    decide +kernel
  refine ⟨⟨⟨0, by decide⟩, ?_⟩, ⟨ofAmount Amount.largest, ?_⟩, ?_, ⟨_, hread, hjson _ _ hread⟩,
    ⟨_, hreadMessage, ?_⟩⟩
  · have hzero : ofNat? 0 = some ⟨0, by decide⟩ := ofNat?_eq_some.mpr rfl
    exact ⟨hzero, (hnumbers 0).2.2 _ hzero, by decide +kernel⟩
  · obtain ⟨-, hholds, hbytes⟩ := hamounts Amount.largest
    exact ⟨ofNat?_eq_some.mpr hholds.val.symm, hholds, hbytes⟩
  · rw [(hnumbers (Nat.pow 2 256)).1]
    exact Nat.lt_irrefl _
  · obtain ⟨groups, hbytes, -, hholds⟩ := hmessages _ _ hreadMessage
    exact ⟨groups, hbytes, hholds⟩

end Uint256

end FeeWindow
