import FeeWindow.Proofs.Numeral

/-!
Hexadecimal digits. The two cases of a letter are read as the same digit, and written again it is
in lower case. A text of digits is the one that its number is written as if its letters are in
lower case and no zero stands in front of other digits.
-/

namespace FeeWindow.Numeral

/-- The hexadecimal digits in ascending order, letters in lower case. -/
def hexDigits : List Char :=
  ['0', '1', '2', '3', '4', '5', '6', '7', '8', '9', 'a', 'b', 'c', 'd', 'e', 'f']

/-- A hexadecimal digit, whose letter may be of either case. -/
def IsHexDigit (c : Char) : Prop := c.toLower ∈ hexDigits

instance : DecidablePred IsHexDigit := fun c => inferInstanceAs (Decidable (c.toLower ∈ hexDigits))

def hexValue (c : Char) : Nat := hexDigits.idxOf c.toLower

/-- The number that hexadecimal digits denote, the first one the most significant. -/
def hexNumber (cs : List Char) : Nat := Nat.ofDigits 16 (cs.map hexValue).reverse

section Digits

variable {c : Char} {d : Nat}

theorem exists_digitChar_eq (h : c ∈ hexDigits) : ∃ d, d < 16 ∧ digitChar d = c := by
  have hdigits : hexDigits = (List.range 16).map digitChar := by decide
  rw [hdigits] at h
  obtain ⟨d, hd, rfl⟩ := List.mem_map.mp h
  exact ⟨d, List.mem_range.mp hd, rfl⟩

theorem toLower_of_mem_hexDigits (h : c ∈ hexDigits) : c.toLower = c := by
  obtain ⟨d, hd, rfl⟩ := exists_digitChar_eq h
  revert d
  decide

theorem isHexDigit_of_mem_hexDigits (h : c ∈ hexDigits) : IsHexDigit c := by
  unfold IsHexDigit
  rwa [toLower_of_mem_hexDigits h]

theorem toNat_lt_of_mem_hexDigits (h : c ∈ hexDigits) : c.toNat < 128 := by
  obtain ⟨d, hd, rfl⟩ := exists_digitChar_eq h
  revert d
  decide

/-- Outside the first 128 characters there are no digits and no two cases of a letter. -/
theorem toLower_of_le_toNat (h : 128 ≤ c.toNat) : c.toLower = c := by
  unfold Char.toLower
  rw [dif_neg]
  rintro ⟨-, hle⟩
  have hle : c.toNat ≤ 90 := UInt32.le_iff_toNat_le.mp hle
  omega

theorem toNat_lt_of_isHexDigit (h : IsHexDigit c) : c.toNat < 128 := by
  by_contra hge
  unfold IsHexDigit at h
  rw [toLower_of_le_toNat (Nat.le_of_not_lt hge)] at h
  exact hge (toNat_lt_of_mem_hexDigits h)

/-- A character is read as the digit that it stands for, if it is one. -/
theorem digit?_eq (c : Char) : digit? c = if IsHexDigit c then some (hexValue c) else none := by
  have hsmall : ∀ n < 128, digit? (Char.ofNat n) =
      if IsHexDigit (Char.ofNat n) then some (hexValue (Char.ofNat n)) else none := by
    decide
  by_cases hc : c.toNat < 128
  · have h := hsmall c.toNat hc
    rwa [Char.ofNat_toNat] at h
  · have hnot : ¬ IsHexDigit c := fun h => hc (toNat_lt_of_isHexDigit h)
    rw [if_neg hnot]
    unfold digit?
    split_ifs <;> first | rfl | omega

theorem digit?_eq_some_iff : digit? c = some d ↔ IsHexDigit c ∧ hexValue c = d := by
  rw [digit?_eq]
  simp only [Option.ite_none_right_eq_some, Option.some.injEq]

theorem hexValue_lt (h : IsHexDigit c) : hexValue c < 16 :=
  List.idxOf_lt_length_of_mem h

/-- A digit that was read is written in lower case. -/
theorem digitChar_hexValue (h : IsHexDigit c) : digitChar (hexValue c) = c.toLower := by
  obtain ⟨d, hd, heq⟩ := exists_digitChar_eq h
  unfold hexValue
  rw [← heq]
  clear heq h
  revert d
  decide

theorem digitChar_mem_hexDigits (h : d < 16) : digitChar d ∈ hexDigits := by
  revert h d
  decide

theorem hexValue_digitChar (h : d < 16) : hexValue (digitChar d) = d := by
  revert h d
  decide

end Digits

section Texts

variable {s : List Char} {n : Nat}

/-- In base sixteen, exactly the hexadecimal digits are read. -/
theorem ofText?_sixteen_eq_some_iff :
    ofText? 16 s = some n ↔ s ≠ [] ∧ (∀ c ∈ s, IsHexDigit c) ∧ hexNumber s = n := by
  have hdigit : ∀ c d, (digit? c = some d ∧ d < 16) ↔ IsHexDigit c ∧ hexValue c = d := by
    intro c d
    rw [digit?_eq_some_iff]
    constructor
    · exact And.left
    · intro h
      exact ⟨h, h.2 ▸ hexValue_lt h.1⟩
  simp only [ofText?_eq_some_iff, hdigit, List.forall₂_and_left, hexNumber, value_eq_ofDigits]
  constructor
  · rintro ⟨hne, ds, ⟨hdigits, hds⟩, hn⟩
    obtain rfl : s.map hexValue = ds := by
      rwa [← List.forall₂_eq_eq_eq, List.forall₂_map_left_iff]
    exact ⟨hne, hdigits, hn⟩
  · rintro ⟨hne, hdigits, hn⟩
    refine ⟨hne, _, ⟨hdigits, ?_⟩, hn⟩
    rw [List.forall₂_map_right_iff, List.forall₂_same]
    exact fun _ _ => rfl

/-- Digits in lower case with no zero in front of others. -/
structure IsLeastHex (ds : List Char) : Prop where
  ne_nil : ds ≠ []
  digits : ∀ c ∈ ds, c ∈ hexDigits
  top : ds.head? = some '0' → ds = ['0']

theorem text_of_ne_zero (base : Nat) (hn : n ≠ 0) :
    text base n = ((digits base n).map digitChar).reverse :=
  if_neg hn

theorem hexNumber_text (n : Nat) : hexNumber (text 16 n) = n := by
  by_cases hn : n = 0
  · rw [hn]
    rfl
  · have hread : ∀ d, d < 16 → hexValue (digitChar d) = d := fun _ => hexValue_digitChar
    rw [text_of_ne_zero 16 hn, hexNumber, List.map_reverse, List.reverse_reverse,
      map_map_digits hread, ← value_eq_ofDigits]
    exact value_digits (by decide) n

theorem isLeastHex_text (n : Nat) : IsLeastHex (text 16 n) := by
  by_cases hn : n = 0
  · rw [hn]
    exact ⟨by decide, List.forall_mem_singleton.mpr (by decide), fun _ => rfl⟩
  · rw [text_of_ne_zero 16 hn]
    constructor
    · intro hnil
      rw [List.reverse_eq_nil_iff, List.map_eq_nil_iff] at hnil
      exact digits_ne_nil (by decide) hn hnil
    · intro c hc
      obtain ⟨d, hd, rfl⟩ := List.mem_map.mp (List.mem_reverse.mp hc)
      exact digitChar_mem_hexDigits (lt_of_mem_digits hd)
    · intro htop
      rw [List.head?_reverse, List.getLast?_map] at htop
      obtain ⟨d, hlast, hd⟩ := Option.map_eq_some_iff.mp htop
      have hzero : d = 0 := by
        rw [← hexValue_digitChar (lt_of_mem_digits (List.mem_of_getLast? hlast)), hd]
        rfl
      rw [hzero] at hlast
      exact absurd hlast (getLast?_digits_ne_zero (by decide) n)

/-- A number is written in only one way in lower case with no zero in front of other digits. -/
theorem eq_text_of_isLeastHex (h : IsLeastHex s) : s = text 16 (hexNumber s) := by
  have hwritten : ∀ c ∈ s, digitChar (hexValue c) = c := by
    intro c hc
    have hdigit := h.digits c hc
    rw [digitChar_hexValue (isHexDigit_of_mem_hexDigits hdigit), toLower_of_mem_hexDigits hdigit]
  by_cases htop : s.head? = some '0'
  · rw [h.top htop]
    rfl
  · have hds : digits 16 (hexNumber s) = (s.map hexValue).reverse := by
      rw [hexNumber, ← value_eq_ofDigits]
      refine digits_value (by decide) ?_ ?_
      · intro d hd
        obtain ⟨c, hc, rfl⟩ := List.mem_map.mp (List.mem_reverse.mp hd)
        exact hexValue_lt (isHexDigit_of_mem_hexDigits (h.digits c hc))
      · intro hzero
        rw [List.getLast?_reverse, List.head?_map] at hzero
        obtain ⟨c, hhead, hc⟩ := Option.map_eq_some_iff.mp hzero
        have hchar := hwritten c (List.mem_of_head? hhead)
        rw [hc] at hchar
        exact htop (hhead.trans (congrArg some hchar.symm))
    have hn : hexNumber s ≠ 0 := by
      intro hzero
      rw [hzero, digits_eq_natDigits (by decide), Nat.digits_zero] at hds
      have hnil : s.map hexValue = [] := List.reverse_eq_nil_iff.mp hds.symm
      exact h.ne_nil (List.map_eq_nil_iff.mp hnil)
    have hmap : s.map (digitChar ∘ hexValue) = s.map id := List.map_congr_left hwritten
    rw [text_of_ne_zero 16 hn, hds, List.map_reverse, List.reverse_reverse, List.map_map, hmap,
      List.map_id]

end Texts

end FeeWindow.Numeral
