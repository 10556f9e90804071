import FeeWindow.Numeral
import FeeWindow.Proofs.Traversal
import Mathlib.Data.Nat.Digits.Lemmas

/-!
Numerals as the digits of natural numbers in the library's sense, which brings its theory of them:
a number below a power of the base is told by that many digits, zeros at the top change nothing,
and a list of digits without a zero at the top is the only one of its number. A text is read where
it has digits only and at least one, as the number that they denote from the left; in base ten,
writing gives the library's own numerals.
-/

namespace FeeWindow.Numeral

theorem value_eq_ofDigits (base : Nat) (ds : List Nat) : value base ds = Nat.ofDigits base ds := by
  induction ds with
  | nil => rfl
  | cons d rest ih => rw [value, Nat.ofDigits_cons, ih]

theorem digits_eq_natDigits {base : Nat} (hbase : 1 < base) (n : Nat) :
    digits base n = Nat.digits base n := by
  induction n using Nat.strongRecOn with
  | ind n ih =>
      rw [digits]
      split
      · next h => rw [ih _ (Nat.div_lt_self h.2 h.1), Nat.digits_def' h.1 h.2]
      · next h =>
          obtain rfl : n = 0 := by omega
          rw [Nat.digits_zero]

variable {base : Nat} {ds : List Nat}

theorem value_append (base : Nat) (ds es : List Nat) :
    value base (ds ++ es) = value base ds + Nat.pow base ds.length * value base es := by
  rw [value_eq_ofDigits, value_eq_ofDigits, value_eq_ofDigits]
  exact Nat.ofDigits_append

/-- Zeros at the top of a numeral do not count. -/
theorem value_append_zeros (base : Nat) (ds : List Nat) (k : Nat) :
    value base (ds ++ List.replicate k 0) = value base ds := by
  rw [value_eq_ofDigits, value_eq_ofDigits]
  exact Nat.ofDigits_append_replicate_zero ds

/-- The lowest `k` digits of a number denote its remainder. -/
theorem value_map_range (base n k : Nat) :
    value base ((List.range k).map fun i => n / Nat.pow base i % base) = n % Nat.pow base k := by
  induction k with
  | zero => exact (Nat.mod_one n).symm
  | succ k ih =>
      rw [List.range_succ, List.map_append, value_append, ih, List.length_map, List.length_range]
      exact (Nat.mod_pow_succ).symm

/-- Digits survive a form that keeps every number below the base. -/
theorem map_map_digits {α : Type} {write : Nat → α} {read : α → Nat}
    (hread : ∀ d, d < base → read (write d) = d) (n : Nat) :
    ((digits base n).map write).map read = digits base n := by
  have hsame : ∀ d ∈ digits base n, (read ∘ write) d = id d := by
    intro d hd
    exact hread d (lt_of_mem_digits hd)
  rw [List.map_map, List.map_congr_left hsame, List.map_id]

/-- A list of digits without a zero at the top is the one that its number is written with. -/
theorem digits_value (hbase : 1 < base) (hds : ∀ d ∈ ds, d < base)
    (htop : ds.getLast? ≠ some 0) : digits base (value base ds) = ds := by
  rw [digits_eq_natDigits hbase, value_eq_ofDigits]
  apply Nat.digits_ofDigits base hbase ds hds
  intro hne hzero
  exact htop (by rw [List.getLast?_eq_some_getLast hne, hzero])

theorem digits_ne_nil (hbase : 1 < base) {n : Nat} (hn : n ≠ 0) : digits base n ≠ [] := by
  rw [digits_eq_natDigits hbase]
  exact Nat.digits_ne_nil_iff_ne_zero.mpr hn

theorem getLast?_digits_ne_zero (hbase : 1 < base) (n : Nat) :
    (digits base n).getLast? ≠ some 0 := by
  rw [digits_eq_natDigits hbase]
  by_cases hn : n = 0
  · rw [hn, Nat.digits_zero]
    exact nofun
  · rw [List.getLast?_eq_some_getLast (Nat.digits_ne_nil_iff_ne_zero.mpr hn)]
    intro hzero
    exact Nat.getLast_digit_ne_zero base hn (Option.some.inj hzero)

section Texts

variable {s : List Char} {n : Nat}

/-- Read from the left, each digit multiplies what came before it by the base. -/
theorem foldl_eq_value_reverse (base : Nat) (ds : List Nat) :
    ds.foldl (fun sofar d => base * sofar + d) 0 = value base ds.reverse := by
  induction ds using List.reverseRecOn with
  | nil => rfl
  | append_singleton ds d ih =>
      rw [List.foldl_concat, ih, List.reverse_concat, value, Nat.add_comm]

/-- Exactly the texts of one or more digits are read. -/
theorem ofText?_eq_some_iff : ofText? base s = some n ↔ s ≠ [] ∧
    ∃ ds, List.Forall₂ (fun c d => digit? c = some d ∧ d < base) s ds ∧
      value base ds.reverse = n := by
  have hdigit : ∀ c d, (digit? c).filter (· < base) = some d ↔ digit? c = some d ∧ d < base := by
    intro c d
    rw [Option.filter_eq_some_iff, decide_eq_true_iff]
  unfold ofText?
  split
  · next hnil => exact ⟨nofun, fun h => absurd hnil h.1⟩
  · next hnil =>
      simp only [Option.map_eq_some_iff, Traversal.mapM_eq_some_iff, hdigit]
      constructor
      · rintro ⟨ds, hds, hvalue⟩
        refine ⟨hnil, ds.reverse, ?_, by rwa [List.reverse_reverse]⟩
        rwa [← List.forall₂_reverse_iff, List.reverse_reverse]
      · rintro ⟨-, ds, hds, hvalue⟩
        exact ⟨ds.reverse, List.forall₂_reverse_iff.mpr hds, hvalue⟩

theorem digit?_lt_ten_iff {c : Char} {d : Nat} :
    digit? c = some d ∧ d < 10 ↔ c.isDigit = true ∧ c.toNat - 48 = d := by
  have hdigit : c.isDigit = true ↔ 48 ≤ c.toNat ∧ c.toNat ≤ 57 := Char.isDigit_iff_toNat
  rw [hdigit]
  unfold digit?
  split_ifs <;> grind

/-- In base ten, exactly the decimal digits are read. -/
theorem ofText?_ten_eq_some_iff :
    ofText? 10 s = some n ↔ s ≠ [] ∧ (∀ c ∈ s, c.isDigit = true) ∧ Nat.ofDigitChars 10 s 0 = n := by
  have hvalue : value 10 (s.map fun c => c.toNat - 48).reverse = Nat.ofDigitChars 10 s 0 := by
    rw [← foldl_eq_value_reverse, List.foldl_map]
    rfl
  simp only [ofText?_eq_some_iff, digit?_lt_ten_iff, List.forall₂_and_left]
  constructor
  · rintro ⟨hne, ds, ⟨hdigits, hds⟩, hn⟩
    obtain rfl : s.map (fun c => c.toNat - 48) = ds := by
      rwa [← List.forall₂_eq_eq_eq, List.forall₂_map_left_iff]
    exact ⟨hne, hdigits, hvalue.symm.trans hn⟩
  · rintro ⟨hne, hdigits, hn⟩
    refine ⟨hne, _, ⟨hdigits, ?_⟩, hvalue.trans hn⟩
    rw [List.forall₂_map_right_iff, List.forall₂_same]
    exact fun _ _ => rfl

theorem digitChar_of_lt_ten {d : Nat} (hd : d < 10) : digitChar d = Nat.digitChar d := by
  have h : ∀ d < 10, digitChar d = Nat.digitChar d := by decide
  exact h d hd

/-- In base ten, numbers are written as the library writes them. -/
theorem text_ten (n : Nat) : text 10 n = Nat.toDigits 10 n := by
  induction n using Nat.strongRecOn with
  | ind n ih =>
      rcases Nat.lt_or_ge n 10 with hsmall | hlarge
      · rw [Nat.toDigits_of_lt_base hsmall, ← digitChar_of_lt_ten hsmall]
        rcases Nat.eq_zero_or_pos n with hzero | hpos
        · rw [hzero]
          rfl
        · have hnext : n / 10 = 0 := Nat.div_eq_of_lt hsmall
          rw [text, if_neg hpos.ne', digits, dif_pos ⟨by decide, hpos⟩, hnext, digits,
            dif_neg (by omega), Nat.mod_eq_of_lt hsmall]
          rfl
      · have hnext : n / 10 ≠ 0 := by omega
        have hdigit : n % 10 < 10 := Nat.mod_lt n (by decide)
        rw [Nat.toDigits_of_base_le (by decide) hlarge, ← ih _ (by omega),
          ← digitChar_of_lt_ten hdigit, text, if_neg (by omega), digits,
          dif_pos ⟨by decide, by omega⟩, text, if_neg hnext, List.map_cons, List.reverse_cons]

end Texts

end FeeWindow.Numeral
