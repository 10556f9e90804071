import FeeWindow.Codec.Amount
import FeeWindow.Proofs.Json.Forms
import FeeWindow.Proofs.Numeral.Hexadecimal

/-!
Amounts in JSON. Of all JSON values exactly the quantities are read, with any zeros in front, in
either case and after a plus sign or none, as the number that they denote if it is in range. An
amount is written as the only quantity of its number that has lower case, no sign and no zero in
front of other digits.
-/

namespace FeeWindow

/-- The number that a quantity denotes: `0x` and one or more hexadecimal digits, after a plus sign
or none. -/
def IsQuantity (s : String) (v : Nat) : Prop :=
  ∃ ds, (s.toList = '0' :: 'x' :: ds ∨ s.toList = '+' :: '0' :: 'x' :: ds) ∧ ds ≠ [] ∧
    (∀ c ∈ ds, Numeral.IsHexDigit c) ∧ Numeral.hexNumber ds = v

/-- A quantity without a sign, in lower case and with no zero in front of other digits. -/
def IsLeastQuantity (s : String) (v : Nat) : Prop :=
  ∃ ds, s.toList = '0' :: 'x' :: ds ∧ Numeral.IsLeastHex ds ∧ Numeral.hexNumber ds = v

theorem IsLeastQuantity.isQuantity {s : String} {v : Nat} (h : IsLeastQuantity s v) :
    IsQuantity s v := by
  obtain ⟨ds, hs, hleast, hvalue⟩ := h
  refine ⟨ds, .inl hs, hleast.ne_nil, ?_, hvalue⟩
  intro c hc
  exact Numeral.isHexDigit_of_mem_hexDigits (hleast.digits c hc)

/-- A text denotes at most one number. -/
theorem IsQuantity.unique {s : String} {v w : Nat} (hv : IsQuantity s v) (hw : IsQuantity s w) :
    v = w := by
  obtain ⟨ds, hds, -, -, rfl⟩ := hv
  obtain ⟨es, hes, -, -, rfl⟩ := hw
  rcases hds with hds | hds <;> rcases hes with hes | hes <;> rw [hds] at hes <;> cases hes <;> rfl

namespace Amount

variable {cs : List Char} {s : String} {a : Amount}

theorem ofPlainQuantity?_eq_some_iff : ofPlainQuantity? cs = some a ↔
    ∃ ds, cs = '0' :: 'x' :: ds ∧ ds ≠ [] ∧ (∀ c ∈ ds, Numeral.IsHexDigit c) ∧
      Numeral.hexNumber ds = a.val := by
  constructor
  · intro h
    unfold ofPlainQuantity? at h
    split at h
    · next ds =>
        obtain ⟨v, htext, hv⟩ := Option.bind_eq_some_iff.mp h
        obtain ⟨hne, hdigits, hvalue⟩ := Numeral.ofText?_sixteen_eq_some_iff.mp htext
        exact ⟨ds, rfl, hne, hdigits, hvalue.trans (ofNat?_eq_some.mp hv)⟩
    · cases h
  · rintro ⟨ds, rfl, hne, hdigits, hvalue⟩
    have htext : Numeral.ofText? 16 ds = some a.val :=
      Numeral.ofText?_sixteen_eq_some_iff.mpr ⟨hne, hdigits, hvalue⟩
    change (Numeral.ofText? 16 ds).bind ofNat? = some a
    rw [htext]
    exact ofNat?_val a

/-- Exactly the quantities are read, as the number that they denote. -/
theorem ofQuantity?_eq_some_iff : ofQuantity? s = some a ↔ IsQuantity s a.val := by
  unfold ofQuantity?
  split
  · next rest hs =>
      rw [ofPlainQuantity?_eq_some_iff]
      constructor
      · rintro ⟨ds, rfl, hds⟩
        exact ⟨ds, .inr hs, hds⟩
      · rintro ⟨ds, hplain | hsigned, hds⟩
        · rw [hs] at hplain
          cases hplain
        · rw [hs] at hsigned
          exact ⟨ds, List.tail_eq_of_cons_eq hsigned, hds⟩
  · next hunsigned =>
      rw [ofPlainQuantity?_eq_some_iff]
      constructor
      · rintro ⟨ds, hplain, hds⟩
        exact ⟨ds, .inl hplain, hds⟩
      · rintro ⟨ds, hplain | hsigned, hds⟩
        · exact ⟨ds, hplain, hds⟩
        · exact absurd hsigned (hunsigned _)

theorem isLeastQuantity_quantity (a : Amount) : IsLeastQuantity a.quantity a.val :=
  ⟨Numeral.text 16 a.val, String.toList_ofList, Numeral.isLeastHex_text a.val,
    Numeral.hexNumber_text a.val⟩

theorem eq_quantity_of_isLeastQuantity (h : IsLeastQuantity s a.val) : s = a.quantity := by
  obtain ⟨ds, hs, hleast, hvalue⟩ := h
  rw [Numeral.eq_text_of_isLeastHex hleast, hvalue] at hs
  rw [← String.toList_inj, hs]
  exact String.toList_ofList.symm

/-- Exactly the strings that are quantities are read. -/
theorem ofJson?_eq_some_iff {j : Json} :
    ofJson? j = some a ↔ ∃ s, j = .str s ∧ IsQuantity s a.val := by
  constructor
  · intro h
    obtain ⟨s, hs, hquantity⟩ := Option.bind_eq_some_iff.mp h
    exact ⟨s, Json.str?_eq_some_iff.mp hs, ofQuantity?_eq_some_iff.mp hquantity⟩
  · rintro ⟨s, rfl, hquantity⟩
    exact ofQuantity?_eq_some_iff.mpr hquantity

/-- An amount is written as the only quantity of its number without a sign, in lower case and with
no zero in front of other digits, and read back from it. A JSON value is read exactly where it is
a string that is a quantity whose number is in range, as nothing but that number, and what it is
read as is written again as that least quantity. Nothing else is read. -/
theorem json_quantity :
    (∀ a : Amount, ∃ s, a.toJson = .str s ∧ IsLeastQuantity s a.val ∧
      (∀ other, IsLeastQuantity other a.val → other = s) ∧ ofJson? a.toJson = some a) ∧
    zero.toJson = .str "0x0" ∧
    (∀ j, (∃ a, ofJson? j = some a) ↔
      ∃ s v, j = .str s ∧ IsQuantity s v ∧ v < Nat.pow 2 256) ∧
    ∀ s v a, IsQuantity s v → ofJson? (.str s) = some a →
      a.val = v ∧ ∃ least, a.toJson = .str least ∧ IsLeastQuantity least v := by
  refine ⟨?_, rfl, ?_, ?_⟩
  · intro a
    have hleast := isLeastQuantity_quantity a
    refine ⟨a.quantity, rfl, hleast, fun other => eq_quantity_of_isLeastQuantity, ?_⟩
    exact ofJson?_eq_some_iff.mpr ⟨a.quantity, rfl, hleast.isQuantity⟩
  · intro j
    simp only [ofJson?_eq_some_iff]
    constructor
    · rintro ⟨a, s, hj, hs⟩
      exact ⟨s, a.val, hj, hs, a.val_lt⟩
    · rintro ⟨s, v, hj, hs, hlt⟩
      exact ⟨⟨v, hlt⟩, s, hj, hs⟩
  · intro s v a hs hread
    obtain ⟨t, ht, hquantity⟩ := ofJson?_eq_some_iff.mp hread
    obtain rfl : s = t := by injection ht
    obtain rfl : v = a.val := hs.unique hquantity
    exact ⟨rfl, a.quantity, rfl, isLeastQuantity_quantity a⟩

example : ofJson? (.str "+0x00fF") = ofJson? (.str "0xff") := by decide

end Amount

end FeeWindow
