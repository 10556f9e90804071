import FeeWindow.Codec.Amount
import FeeWindow.Proofs.Numeral

/-!
Public natural numbers in JSON. A JSON value denotes a natural number if it is a count, a decimal
numeral or a list of limbs, of any length each. What such a value is read as depends on the number
alone, so all forms of one number are read alike, and written again as its only list of limbs that
has no zero limb at the top.
-/

namespace FeeWindow

section Decimals

variable {cs : List Char} {n : Uint256}

/-- Decimal digits with underscores among them, though not in front. -/
structure IsDecimal (cs : List Char) : Prop where
  head : ∃ c, cs.head? = some c ∧ c.isDigit = true
  digits : ∀ c ∈ cs, c ≠ '_' → c.isDigit = true

/-- The number that decimal digits denote. Underscores do not count. -/
def decimalValue (cs : List Char) : Nat := Nat.ofDigitChars 10 (cs.filter (· != '_')) 0

theorem IsDecimal.head?_ne (h : IsDecimal cs) {c : Char} (hc : c.isDigit = false) :
    cs.head? ≠ some c := by
  obtain ⟨d, hhead, hd⟩ := h.head
  rw [hhead]
  rintro ⟨⟩
  rw [hd] at hc
  cases hc

theorem IsDecimal.ofText?_eq (h : IsDecimal cs) :
    Numeral.ofText? 10 (cs.filter (· != '_')) = some (decimalValue cs) := by
  obtain ⟨c, hhead, hc⟩ := h.head
  refine Numeral.ofText?_ten_eq_some_iff.mpr ⟨?_, ?_, rfl⟩
  · have hne : c ≠ '_' := by
      rintro rfl
      cases hc
    apply List.ne_nil_of_mem
    exact List.mem_filter.mpr ⟨List.mem_of_mem_head? hhead, bne_iff_ne.mpr hne⟩
  · intro c hc
    obtain ⟨hmem, hne⟩ := List.mem_filter.mp hc
    exact h.digits c hmem (bne_iff_ne.mp hne)

theorem IsDecimal.ofPlainDecimal?_eq (h : IsDecimal cs) :
    Uint256.ofPlainDecimal? cs = Uint256.ofNat? (decimalValue cs) := by
  unfold Uint256.ofPlainDecimal?
  rw [if_neg (h.head?_ne rfl), h.ofText?_eq]
  rfl

/-- Nothing but decimal digits is read as a numeral. -/
theorem isDecimal_of_ofPlainDecimal? (h : Uint256.ofPlainDecimal? cs = some n) :
    IsDecimal cs ∧ decimalValue cs = n.val := by
  unfold Uint256.ofPlainDecimal? at h
  split at h
  · cases h
  · next hhead =>
      obtain ⟨v, htext, hv⟩ := Option.bind_eq_some_iff.mp h
      obtain ⟨hne, hdigits, hvalue⟩ := Numeral.ofText?_ten_eq_some_iff.mp htext
      have hall : ∀ c ∈ cs, c ≠ '_' → c.isDigit = true := by
        intro c hc hplain
        exact hdigits c (List.mem_filter.mpr ⟨hc, bne_iff_ne.mpr hplain⟩)
      refine ⟨⟨?_, hall⟩, hvalue.trans (Uint256.ofNat?_eq_some.mp hv)⟩
      cases cs with
      | nil => exact absurd rfl hne
      | cons c rest =>
          refine ⟨c, rfl, hall c List.mem_cons_self ?_⟩
          rintro rfl
          exact hhead rfl

end Decimals

namespace Json

def ofLimbs (limbs : List UInt32) : Json := ofList (fun limb => .int limb.toNat) limbs

def limbsValue (limbs : List UInt32) : Nat := Nat.ofDigits UInt32.size (limbs.map UInt32.toNat)

/-- The natural number that a JSON value denotes. -/
inductive Denotes : Json → Nat → Prop
  | count {n : Nat} (h : n < UInt64.size) : Denotes (.int n) n
  | decimal {s : String} {cs : List Char} (hs : s.toList = cs ∨ s.toList = '+' :: cs)
      (h : IsDecimal cs) : Denotes (.str s) (decimalValue cs)
  | limbs (ls : List UInt32) : Denotes (ofLimbs ls) (limbsValue ls)

theorem count?_eq_some_iff {j : Json} {n : UInt64} : j.count? = some n ↔ j = .int n.toNat := by
  constructor
  · intro h
    cases j with
    | int m =>
        simp only [count?, Option.ite_none_right_eq_some, Option.some.injEq] at h
        obtain ⟨hm, rfl⟩ := h
        rw [UInt64.toNat_ofNat_of_lt' ((Int.toNat_lt hm.1).mpr hm.2), Int.toNat_of_nonneg hm.1]
    | _ => cases h
  · rintro rfl
    have hsize : 0 ≤ (n.toNat : Int) ∧ (n.toNat : Int) < UInt64.size :=
      ⟨Int.natCast_nonneg _, Int.ofNat_lt.mpr n.toNat_lt⟩
    rw [count?, if_pos hsize, Int.toNat_natCast, UInt64.ofNat_toNat]

theorem limb?_eq_some_iff {j : Json} {limb : UInt32} :
    j.limb? = some limb ↔ j = .int limb.toNat := by
  constructor
  · intro h
    cases j with
    | int m =>
        simp only [limb?, Option.ite_none_right_eq_some, Option.some.injEq] at h
        obtain ⟨hm, rfl⟩ := h
        rw [UInt32.toNat_ofNat_of_lt' ((Int.toNat_lt hm.1).mpr hm.2), Int.toNat_of_nonneg hm.1]
    | _ => cases h
  · rintro rfl
    have hsize : 0 ≤ (limb.toNat : Int) ∧ (limb.toNat : Int) < UInt32.size :=
      ⟨Int.natCast_nonneg _, Int.ofNat_lt.mpr limb.toNat_lt⟩
    rw [limb?, if_pos hsize, Int.toNat_natCast, UInt32.ofNat_toNat]

theorem mapM_limb?_eq_some_iff {items : List Json} {ls : List UInt32} :
    items.mapM limb? = some ls ↔ .arr items = ofLimbs ls := by
  rw [Traversal.mapM_eq_some_iff_eq_map fun _ _ => limb?_eq_some_iff]
  exact (arr.injEq _ _).symm.to_iff

/-- Limbs of a number with no zero limb at the top. -/
structure LeastLimbs (v : Nat) (ls : List UInt32) : Prop where
  value : limbsValue ls = v
  top : ls.getLast? ≠ some 0

end Json

namespace Uint256

open Json

theorem ofDecimal?_eq {s : String} {cs : List Char} (hs : s.toList = cs ∨ s.toList = '+' :: cs)
    (h : IsDecimal cs) : ofDecimal? s = ofNat? (decimalValue cs) := by
  unfold ofDecimal?
  rcases hs with hs | hs
  · rw [hs]
    split
    · exact absurd rfl (h.head?_ne rfl)
    · exact h.ofPlainDecimal?_eq
  · rw [hs]
    exact h.ofPlainDecimal?_eq

theorem denotes_of_ofDecimal? {s : String} {n : Uint256} (h : ofDecimal? s = some n) :
    (Json.str s).Denotes n.val := by
  unfold ofDecimal? at h
  split at h
  · next rest hs =>
      obtain ⟨hdecimal, hvalue⟩ := isDecimal_of_ofPlainDecimal? h
      rw [← hvalue]
      exact .decimal (.inr hs) hdecimal
  · obtain ⟨hdecimal, hvalue⟩ := isDecimal_of_ofPlainDecimal? h
    rw [← hvalue]
    exact .decimal (.inl rfl) hdecimal

theorem ofLimbs?_eq (ls : List UInt32) : ofLimbs? ls = ofNat? (limbsValue ls) := by
  unfold ofLimbs? limbsValue
  rw [Numeral.value_eq_ofDigits]

variable {j : Json} {v : Nat} {n : Uint256}

/-- What a JSON value is read as depends on the number alone that it denotes. -/
theorem ofJson?_eq_of_denotes (h : j.Denotes v) : ofJson? j = ofNat? v := by
  cases h with
  | count hlt =>
      have hcount : (Json.int v).count? = some (UInt64.ofNat v) := by
        rw [count?_eq_some_iff, UInt64.toNat_ofNat_of_lt' hlt]
      change ((Json.int v).count?.bind fun n => ofNat? n.toNat) = _
      rw [hcount, Option.bind_some, UInt64.toNat_ofNat_of_lt' hlt]
  | decimal hs hdecimal => exact ofDecimal?_eq hs hdecimal
  | limbs ls =>
      change ((ls.map fun limb => Json.int limb.toNat).mapM limb?).bind ofLimbs? = _
      rw [mapM_limb?_eq_some_iff.mpr rfl, Option.bind_some, ofLimbs?_eq]

/-- A JSON value that denotes no number is not read. -/
theorem denotes_of_ofJson? (h : ofJson? j = some n) : j.Denotes n.val := by
  have hcount {j : Json} (h : (j.count?.bind fun n => ofNat? n.toNat) = some n) :
      j.Denotes n.val := by
    obtain ⟨count, hj, hn⟩ := Option.bind_eq_some_iff.mp h
    rw [count?_eq_some_iff.mp hj, ← ofNat?_eq_some.mp hn]
    exact .count count.toNat_lt
  cases j with
  | str s => exact denotes_of_ofDecimal? h
  | arr items =>
      obtain ⟨ls, hitems, hn⟩ := Option.bind_eq_some_iff.mp h
      rw [ofLimbs?_eq] at hn
      rw [mapM_limb?_eq_some_iff.mp hitems, ← ofNat?_eq_some.mp hn]
      exact .limbs ls
  | _ => exact hcount h

theorem map_toNat_limbs (n : Uint256) :
    n.limbs.map UInt32.toNat = Numeral.digits UInt32.size n.val :=
  Numeral.map_map_digits (fun _ => UInt32.toNat_ofNat_of_lt') n.val

/-- A number is written as limbs with no zero limb at the top. -/
theorem leastLimbs_limbs (n : Uint256) : LeastLimbs n.val n.limbs := by
  constructor
  · rw [limbsValue, map_toNat_limbs, ← Numeral.value_eq_ofDigits]
    exact Numeral.value_digits (by decide) n.val
  · intro htop
    have hbase : 1 < UInt32.size := by decide
    apply Numeral.getLast?_digits_ne_zero hbase n.val
    rw [← map_toNat_limbs, List.getLast?_map, htop]
    rfl

/-- There are no other limbs of a number with no zero limb at the top. -/
theorem eq_limbs_of_leastLimbs {ls : List UInt32} (h : LeastLimbs n.val ls) : ls = n.limbs := by
  have htop : (ls.map UInt32.toNat).getLast? ≠ some 0 := by
    intro hzero
    rw [List.getLast?_map] at hzero
    obtain ⟨limb, hlast, hlimb⟩ := Option.map_eq_some_iff.mp hzero
    obtain rfl : limb = 0 := UInt32.toNat_inj.mp hlimb
    exact h.top hlast
  have hlt : ∀ d ∈ ls.map UInt32.toNat, d < UInt32.size := by
    intro d hd
    obtain ⟨limb, _, rfl⟩ := List.mem_map.mp hd
    exact limb.toNat_lt
  have hdigits := Numeral.digits_value (by decide) hlt htop
  rw [Numeral.value_eq_ofDigits, ← limbsValue, h.value, ← map_toNat_limbs] at hdigits
  exact (List.map_injective_iff.mpr fun _ _ => UInt32.toNat_inj.mp) hdigits.symm

/-- A number is written as its only limbs with no zero limb at the top, which are none for zero,
and read back from them. A JSON value that denotes a number, whether as a count, as a decimal
numeral or as limbs with any zeros at the top, is read exactly where that number fits, as nothing
but that number, alike in all its forms, and it is written again as those limbs. Nothing else is
read. -/
theorem json_least :
    (∀ n : Uint256, ∃ ls, n.toJson = ofLimbs ls ∧ LeastLimbs n.val ls ∧
      (∀ others, LeastLimbs n.val others → others = ls) ∧ (ls = [] ↔ n.val = 0) ∧
      ofJson? n.toJson = some n) ∧
    (∀ j v, j.Denotes v →
      ((∃ n, ofJson? j = some n) ↔ v < Nat.pow 2 256) ∧
      ∀ n, ofJson? j = some n →
        n.val = v ∧ ∃ ls, n.toJson = ofLimbs ls ∧ LeastLimbs v ls) ∧
    (∀ i j v, i.Denotes v → j.Denotes v → ofJson? i = ofJson? j) ∧
    ∀ j n, ofJson? j = some n → j.Denotes n.val := by
  refine ⟨?_, ?_, ?_, fun j n => denotes_of_ofJson?⟩
  · intro n
    have hleast := leastLimbs_limbs n
    refine ⟨n.limbs, rfl, hleast, fun others => eq_limbs_of_leastLimbs, ⟨?_, ?_⟩, ?_⟩
    · intro hnil
      rw [← hleast.value, hnil]
      rfl
    · intro hzero
      have hnone : LeastLimbs n.val [] := ⟨hzero.symm, nofun⟩
      exact (eq_limbs_of_leastLimbs hnone).symm
    · have hdenotes : n.toJson.Denotes n.val := by
        rw [← hleast.value]
        exact .limbs n.limbs
      rw [ofJson?_eq_of_denotes hdenotes]
      exact ofNat?_eq_some.mpr rfl
  · intro j v hj
    rw [ofJson?_eq_of_denotes hj]
    refine ⟨⟨?_, ?_⟩, ?_⟩
    · rintro ⟨n, hn⟩
      rw [ofNat?_eq_some.mp hn]
      exact n.val_lt
    · intro hlt
      exact ⟨⟨v, hlt⟩, ofNat?_eq_some.mpr rfl⟩
    · intro n hn
      obtain rfl := ofNat?_eq_some.mp hn
      exact ⟨rfl, n.limbs, rfl, leastLimbs_limbs n⟩
  · intro i j v hi hj
    rw [ofJson?_eq_of_denotes hi, ofJson?_eq_of_denotes hj]

example : ofJson? (.str "+4_294_967_301") = ofJson? (.arr [.int 5, .int 1, .int 0]) := by
  decide +kernel

end Uint256

end FeeWindow
