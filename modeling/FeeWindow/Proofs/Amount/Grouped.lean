import FeeWindow.Proofs.Bytes.Hex
import FeeWindow.Request

/-!
Amounts in messages. The text of an amount is its decimal numeral, cut into groups of three digits
from the right, with an underscore before every group but the first one. Without the underscores it
is the numeral again, so it belongs to no other amount; and since it has no blank in it, neither do
the messages that name two amounts, or a hash and an amount, belong to others.
-/

namespace FeeWindow

section Groups

variable {numeral shown : List Char}

/-- A numeral with an underscore before every group of three digits, counted from the right: what
is left at the top, one to three digits, stands alone, and each further group follows at the low
end. -/
inductive IsGrouped : List Char → List Char → Prop
  | top {digits : List Char} (hpos : 1 ≤ digits.length) (hshort : digits.length ≤ 3) :
      IsGrouped digits digits
  | group {numeral shown group : List Char} (h : IsGrouped numeral shown)
      (hgroup : group.length = 3) : IsGrouped (numeral ++ group) (shown ++ '_' :: group)

/-- Digits that are listed from the low end on are grouped from there. -/
theorem isGrouped_groupThrees {digits : List Char} (hne : digits ≠ []) :
    IsGrouped digits.reverse (groupThrees digits).reverse := by
  induction digits using groupThrees.induct with
  | case1 a b c d rest ih =>
      have hlength : [c, b, a].length = 3 := rfl
      have hlow := (ih (List.cons_ne_nil d rest)).group hlength
      simpa [groupThrees] using hlow
  | case2 short hshort =>
      have hlength : short.length ≤ 3 := by
        match short with
        | [] | [_] | [_, _] | [_, _, _] => simp
        | a :: b :: c :: d :: rest => exact absurd rfl (hshort a b c d rest)
      have hpos : 1 ≤ short.length := List.length_pos_iff.mpr hne
      rw [groupThrees.eq_2 short hshort]
      apply IsGrouped.top
      · simpa using hpos
      · simpa using hlength

namespace IsGrouped

/-- Nothing but the underscores is added. -/
theorem filter_eq (h : IsGrouped numeral shown) (hplain : '_' ∉ numeral) :
    shown.filter (· != '_') = numeral := by
  induction h with
  | top hpos hshort =>
      rw [List.filter_eq_self]
      intro c hc
      exact bne_iff_ne.mpr fun heq => hplain (heq ▸ hc)
  | @group numeral shown group h hgroup ih =>
      have hdigits : group.filter (· != '_') = group := by
        rw [List.filter_eq_self]
        intro c hc
        exact bne_iff_ne.mpr fun heq => hplain (List.mem_append_right _ (heq ▸ hc))
      have hrest : '_' ∉ numeral := fun hmem => hplain (List.mem_append_left _ hmem)
      simp [ih hrest, hdigits]

theorem ne_nil (h : IsGrouped numeral shown) : shown ≠ [] := by
  cases h with
  | top hpos hshort => exact List.ne_nil_of_length_pos hpos
  | group h hgroup => simp

/-- The top of the numeral stands in front. -/
theorem head?_ne (h : IsGrouped numeral shown) (hplain : '_' ∉ numeral) :
    shown.head? ≠ some '_' := by
  induction h with
  | top hpos hshort =>
      intro hhead
      exact hplain (List.mem_of_head? hhead)
  | group h hgroup ih =>
      rw [List.head?_append_of_ne_nil _ h.ne_nil]
      apply ih
      intro hmem
      exact hplain (List.mem_append_left _ hmem)

/-- A group of digits stands at the end. -/
theorem getLast?_ne (h : IsGrouped numeral shown) (hplain : '_' ∉ numeral) :
    shown.getLast? ≠ some '_' := by
  intro hlast
  cases h with
  | top hpos hshort => exact hplain (List.mem_of_getLast? hlast)
  | @group numeral shown group h hgroup =>
      have hne : group ≠ [] := List.ne_nil_of_length_eq_add_one hgroup
      rw [List.append_cons, List.getLast?_append_of_ne_nil _ hne] at hlast
      exact hplain (List.mem_append_right _ (List.mem_of_getLast? hlast))

end IsGrouped

end Groups

namespace Amount

variable (a : Amount)

theorem toList_grouped : a.grouped.toList = a.groupedChars := String.toList_ofList

theorem isGrouped_grouped : IsGrouped (Nat.toDigits 10 a.val) a.grouped.toList := by
  have hne : (Numeral.text 10 a.val).reverse ≠ [] := by
    simp [Numeral.text_ten, Nat.toDigits_ne_nil]
  have h := isGrouped_groupThrees hne
  rw [List.reverse_reverse, Numeral.text_ten] at h
  rw [toList_grouped, groupedChars, Numeral.text_ten]
  exact h

theorem isDigit_of_mem_toDigits {c : Char} (h : c ∈ Nat.toDigits 10 a.val) : c.isDigit = true :=
  Nat.isDigit_of_mem_toDigits (by decide) (by decide) h

theorem underscore_notMem_toDigits : '_' ∉ Nat.toDigits 10 a.val := by
  intro h
  cases a.isDigit_of_mem_toDigits h

theorem filter_grouped : a.grouped.toList.filter (· != '_') = Nat.toDigits 10 a.val :=
  a.isGrouped_grouped.filter_eq a.underscore_notMem_toDigits

theorem ofDigitChars_filter_grouped :
    Nat.ofDigitChars 10 (a.grouped.toList.filter (· != '_')) 0 = a.val := by
  rw [filter_grouped]
  exact Nat.ofDigitChars_toDigits (by decide) (by decide)

theorem mem_grouped {c : Char} (h : c ∈ a.grouped.toList) : c = '_' ∨ c.isDigit = true := by
  by_cases hc : c = '_'
  · exact .inl hc
  · right
    apply a.isDigit_of_mem_toDigits
    rw [← filter_grouped]
    exact List.mem_filter.mpr ⟨h, bne_iff_ne.mpr hc⟩

theorem blank_notMem_grouped : ' ' ∉ a.grouped.toList := by
  intro h
  rcases a.mem_grouped h with hc | hc
  · cases hc
  · cases hc

/-- Without its underscores the text is read as the amount. -/
theorem ofGrouped?_grouped : ofGrouped? a.grouped = some a := by
  have hread : Numeral.ofText? 10 (Nat.toDigits 10 a.val) = some a.val := by
    apply Numeral.ofText?_ten_eq_some_iff.mpr
    refine ⟨Nat.toDigits_ne_nil, fun c => a.isDigit_of_mem_toDigits, ?_⟩
    exact Nat.ofDigitChars_toDigits (by decide) (by decide)
  unfold ofGrouped?
  rw [filter_grouped, hread, Option.bind_some, ofNat?_val]

variable {a} in
theorem grouped_injective {b : Amount} (h : a.grouped = b.grouped) : a = b := by
  have hread := a.ofGrouped?_grouped
  rw [h, ofGrouped?_grouped] at hread
  exact (Option.some.inj hread).symm

end Amount

section Messages

/-- What stands before the first blank, and what stands after it. -/
theorem eq_of_append_blank {front other rest others : List Char} (hfront : ' ' ∉ front)
    (hother : ' ' ∉ other) (h : front ++ ' ' :: rest = other ++ ' ' :: others) :
    front = other ∧ rest = others := by
  have hcut (text after : List Char) (htext : ' ' ∉ text) :
      (text ++ ' ' :: after).takeWhile (· != ' ') = text := by
    have hall : ∀ c ∈ text, (c != ' ') = true := by
      intro c hc
      exact bne_iff_ne.mpr fun heq => htext (heq ▸ hc)
    rw [List.takeWhile_append_of_pos hall, List.takeWhile_cons_of_neg (by simp), List.append_nil]
  have hsame : front = other := by
    rw [← hcut front rest hfront, h, hcut other others hother]
  subst hsame
  exact ⟨rfl, List.tail_eq_of_cons_eq (List.append_cancel_left h)⟩

theorem RequestError.toList_message_afterChainHead (requested head : BlockNumber) :
    (afterChainHead requested head).message.toList = "requested block ".toList ++
      (requested.grouped.toList ++ ' ' :: ("is after chain head ".toList ++ head.grouped.toList)) := by
  have hmessage : (afterChainHead requested head).message =
      "requested block " ++ requested.grouped ++ " is after chain head " ++ head.grouped := rfl
  have hblank : " is after chain head ".toList = ' ' :: "is after chain head ".toList := rfl
  rw [hmessage, String.toList_append, String.toList_append, String.toList_append, hblank,
    List.append_assoc, List.append_assoc, List.cons_append]

theorem RequestError.afterChainHead_eq_of_message {requested head other otherHead : BlockNumber}
    (h : (afterChainHead requested head).message = (afterChainHead other otherHead).message) :
    requested = other ∧ head = otherHead := by
  have htext := congrArg String.toList h
  rw [toList_message_afterChainHead, toList_message_afterChainHead] at htext
  obtain ⟨hfront, hrest⟩ := eq_of_append_blank requested.blank_notMem_grouped
    other.blank_notMem_grouped (List.append_cancel_left htext)
  constructor
  · exact Amount.grouped_injective (String.toList_injective hfront)
  · exact Amount.grouped_injective (String.toList_injective (List.append_cancel_left hrest))

theorem Bytes.length_hex {n : Nat} (bytes : Bytes n) : bytes.hex.length = 2 * n + 2 := by
  unfold hex
  rw [String.length_ofList, List.length_cons, List.length_cons, length_flatMap_hexPair,
    bytes.length_toList]

theorem AbsentReceipt.eq_of_message {missing other : AbsentReceipt}
    (h : missing.message = other.message) : missing = other := by
  have hmessage (m : AbsentReceipt) : m.message = "no receipt for transaction " ++
      m.transaction.hex ++ " of finalized block " ++ m.block.grouped := rfl
  have htext := congrArg String.toList h
  rw [hmessage, hmessage] at htext
  simp only [String.toList_append, List.append_assoc] at htext
  have hlength : missing.transaction.hex.toList.length = other.transaction.hex.toList.length := by
    rw [String.length_toList, String.length_toList, Bytes.length_hex, Bytes.length_hex]
  obtain ⟨hhash, hrest⟩ := List.append_inj (List.append_cancel_left htext) hlength
  have hblock := Amount.grouped_injective
    (String.toList_injective (List.append_cancel_left hrest))
  have htransaction := Bytes.hex_injective (String.toList_injective hhash)
  cases missing
  cases other
  simp_all

/-- The text of an amount is its decimal numeral with an underscore before every group of three
digits, counted from the right, and neither in front nor at the end. Without the underscores it is
the numeral again, whose digits denote the amount. So two amounts never have one text, two requests
beyond the head never one message unless both their numbers are the same, and two missing receipts
never one message unless they are the same. -/
theorem grouped_unambiguous :
    (∀ a : Amount,
      IsGrouped (Nat.toDigits 10 a.val) a.grouped.toList ∧
      a.grouped.toList.head? ≠ some '_' ∧
      a.grouped.toList.getLast? ≠ some '_' ∧
      a.grouped.toList.filter (· != '_') = Nat.toDigits 10 a.val ∧
      Nat.ofDigitChars 10 (a.grouped.toList.filter (· != '_')) 0 = a.val ∧
      Amount.ofGrouped? a.grouped = some a) ∧
    (∀ a b : Amount, a.grouped = b.grouped ↔ a = b) ∧
    (∀ requested head other otherHead : BlockNumber,
      (RequestError.afterChainHead requested head).message =
          (RequestError.afterChainHead other otherHead).message ↔
        requested = other ∧ head = otherHead) ∧
    ∀ missing other : AbsentReceipt, missing.message = other.message ↔ missing = other := by
  refine ⟨?_, ?_, ?_, ?_⟩
  · intro a
    have hgrouped := a.isGrouped_grouped
    have hplain := a.underscore_notMem_toDigits
    exact ⟨hgrouped, hgrouped.head?_ne hplain, hgrouped.getLast?_ne hplain, a.filter_grouped,
      a.ofDigitChars_filter_grouped, a.ofGrouped?_grouped⟩
  · intro a b
    exact ⟨Amount.grouped_injective, congrArg Amount.grouped⟩
  · intro requested head other otherHead
    constructor
    · exact RequestError.afterChainHead_eq_of_message
    · intro h
      rw [h.1, h.2]
  · intro missing other
    exact ⟨AbsentReceipt.eq_of_message, congrArg AbsentReceipt.message⟩

example : (Amount.ofUInt64 1000000).grouped = "1_000_000" := by decide +kernel

end Messages

end FeeWindow
