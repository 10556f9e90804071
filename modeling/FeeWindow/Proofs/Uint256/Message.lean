import FeeWindow.Proofs.Numeral
import FeeWindow.Uint256.Message

/-!
Natural numbers as groups of seven bits. Bytes are the groups of a number if all of them but the
last have their top bit set; zero groups may follow its highest one and do not count. Reading finds
the groups in front of any bytes, and writing gives the only groups of a number that no others are
as short as. So a message is read exactly where the number in it fits, and is written again in its
shortest form.
-/

namespace FeeWindow

/-- Groups of seven bits: all bytes but the last one have their top bit set. -/
inductive SevenBit : List UInt8 → Prop
  | last {b : UInt8} (h : b < 128) : SevenBit [b]
  | more {b : UInt8} {rest : List UInt8} (h : ¬ b < 128) (hrest : SevenBit rest) :
      SevenBit (b :: rest)

/-- The number that groups denote, the lowest group first, whatever their top bits are. -/
def sevenBitValue (bytes : List UInt8) : Nat :=
  Numeral.value 128 (bytes.map fun b => b.toNat % 128)

section Groups

variable {b : UInt8} {bytes groups others rest : List UInt8} {n : Nat}

theorem sevenBitValue_cons : sevenBitValue (b :: rest) = b.toNat % 128 + 128 * sevenBitValue rest :=
  rfl

theorem toNat_mod_of_last (h : b < 128) : b.toNat % 128 = b.toNat :=
  Nat.mod_eq_of_lt (UInt8.lt_iff_toNat_lt.mp h)

theorem toNat_mod_of_more (h : ¬ b < 128) : b.toNat = b.toNat % 128 + 128 := by
  have hge : ¬ b.toNat < 128 := fun hlt => h (UInt8.lt_iff_toNat_lt.mpr hlt)
  have hlt := b.toNat_lt
  omega

theorem SevenBit.length_pos (h : SevenBit groups) : 0 < groups.length := by
  cases h with
  | last h => exact Nat.one_pos
  | more h hrest => exact Nat.succ_pos _

/-- Reading stops after the groups, and gives their number. -/
theorem SevenBit.ofSevenBit?_append (h : SevenBit groups) (rest : List UInt8) :
    ofSevenBit? (groups ++ rest) = some (sevenBitValue groups, rest) := by
  induction h with
  | last h => simp [ofSevenBit?, h, sevenBitValue, Numeral.value, toNat_mod_of_last h]
  | @more b groups h hrest ih =>
      have hgroup : b.toNat - 128 = b.toNat % 128 := by
        have := toNat_mod_of_more h
        omega
      rw [List.cons_append, ofSevenBit?, if_neg h, ih, sevenBitValue_cons, ← hgroup]
      rfl

/-- Whatever is read was groups. -/
theorem eq_append_of_ofSevenBit? (h : ofSevenBit? bytes = some (n, rest)) :
    ∃ groups, bytes = groups ++ rest ∧ SevenBit groups ∧ sevenBitValue groups = n := by
  induction bytes generalizing n with
  | nil => cases h
  | cons b bytes ih =>
      rw [ofSevenBit?] at h
      split at h
      · next hb =>
          obtain ⟨rfl, rfl⟩ := Prod.mk.inj (Option.some.inj h)
          refine ⟨[b], rfl, .last hb, ?_⟩
          rw [sevenBitValue_cons, toNat_mod_of_last hb]
          rfl
      · next hb =>
          obtain ⟨⟨m, after⟩, hread, heq⟩ := Option.map_eq_some_iff.mp h
          obtain ⟨rfl, rfl⟩ := Prod.mk.inj heq
          obtain ⟨groups, rfl, hgroups, rfl⟩ := ih hread
          refine ⟨b :: groups, rfl, .more hb hgroups, ?_⟩
          have hgroup := toNat_mod_of_more hb
          rw [sevenBitValue_cons]
          omega

/-- There are no two sequences of so many groups for one number. -/
theorem SevenBit.eq_of_value_eq (h : SevenBit groups) (hothers : SevenBit others)
    (hlength : groups.length = others.length)
    (hvalue : sevenBitValue groups = sevenBitValue others) : groups = others := by
  induction h generalizing others with
  | @last b hb =>
      cases hothers with
      | @last c hc =>
          simp only [sevenBitValue_cons, toNat_mod_of_last hb, toNat_mod_of_last hc] at hvalue
          rw [UInt8.toNat_inj.mp (Nat.add_right_cancel hvalue)]
      | more hc hrest =>
          have := hrest.length_pos
          simp only [List.length_cons, List.length_nil] at hlength
          omega
  | @more b groups hb hgroups ih =>
      cases hothers with
      | last hc =>
          have := hgroups.length_pos
          simp only [List.length_cons, List.length_nil] at hlength
          omega
      | @more c rest hc hrest =>
          simp only [sevenBitValue_cons] at hvalue
          have hbgroup := toNat_mod_of_more hb
          have hcgroup := toNat_mod_of_more hc
          have hhead : b = c := UInt8.toNat_inj.mp (by omega)
          have htail : groups = rest := ih hrest (Nat.succ.inj hlength) (by omega)
          rw [hhead, htail]

end Groups

section Writing

variable {ds : List Nat} {groups : List UInt8} {n : Nat}

theorem lastGroup {d : Nat} (hd : d < 128) :
    UInt8.ofNat d < 128 ∧ (UInt8.ofNat d).toNat % 128 = d := by
  have hbyte : (UInt8.ofNat d).toNat = d :=
    UInt8.toNat_ofNat_of_lt' (Nat.lt_trans hd (by decide))
  rw [UInt8.lt_iff_toNat_lt, hbyte]
  exact ⟨hd, Nat.mod_eq_of_lt hd⟩

theorem moreGroup {d : Nat} (hd : d < 128) :
    ¬ UInt8.ofNat (d + 128) < 128 ∧ (UInt8.ofNat (d + 128)).toNat % 128 = d := by
  have hbyte : (UInt8.ofNat (d + 128)).toNat = d + 128 :=
    UInt8.toNat_ofNat_of_lt' (Nat.add_lt_add_right hd 128)
  rw [UInt8.lt_iff_toNat_lt, hbyte, Nat.add_mod_right]
  exact ⟨Nat.not_lt_of_le (Nat.le_add_left 128 d), Nat.mod_eq_of_lt hd⟩

/-- Digits below 128 are written as one group each. -/
theorem sevenBit_sevenBitBytes (hne : ds ≠ []) (hds : ∀ d ∈ ds, d < 128) :
    SevenBit (sevenBitBytes ds) ∧ sevenBitValue (sevenBitBytes ds) = Numeral.value 128 ds ∧
      (sevenBitBytes ds).length = ds.length := by
  induction ds with
  | nil => exact absurd rfl hne
  | cons d rest ih =>
      cases rest with
      | nil =>
          obtain ⟨hlast, hgroup⟩ := lastGroup (hds d List.mem_cons_self)
          refine ⟨.last hlast, ?_, rfl⟩
          exact congrArg (· + 128 * 0) hgroup
      | cons e rest =>
          obtain ⟨hmore, hgroup⟩ := moreGroup (hds d List.mem_cons_self)
          obtain ⟨hrest, hvalue, hlength⟩ := ih (List.cons_ne_nil e rest) fun x hx =>
            hds x (List.mem_cons_of_mem d hx)
          refine ⟨.more hmore hrest, ?_, congrArg Nat.succ hlength⟩
          calc sevenBitValue (sevenBitBytes (d :: e :: rest))
              = (UInt8.ofNat (d + 128)).toNat % 128 +
                  128 * sevenBitValue (sevenBitBytes (e :: rest)) := rfl
            _ = d + 128 * Numeral.value 128 (e :: rest) := by rw [hgroup, hvalue]
            _ = Numeral.value 128 (d :: e :: rest) := rfl

theorem sevenBit_of_ne_zero (hn : n ≠ 0) :
    SevenBit (sevenBit n) ∧ sevenBitValue (sevenBit n) = n ∧
      (sevenBit n).length = (Numeral.digits 128 n).length := by
  obtain ⟨hgroups, hvalue, hlength⟩ :=
    sevenBit_sevenBitBytes (Numeral.digits_ne_nil (by decide) hn) fun _ => Numeral.lt_of_mem_digits
  rw [Numeral.value_digits (by decide)] at hvalue
  rw [sevenBit, if_neg hn]
  exact ⟨hgroups, hvalue, hlength⟩

theorem sevenBit_sevenBit (n : Nat) : SevenBit (sevenBit n) := by
  rcases eq_or_ne n 0 with rfl | hn
  · exact .last (by decide)
  · exact (sevenBit_of_ne_zero hn).1

theorem sevenBitValue_sevenBit (n : Nat) : sevenBitValue (sevenBit n) = n := by
  rcases eq_or_ne n 0 with rfl | hn
  · rfl
  · exact (sevenBit_of_ne_zero hn).2.1

theorem sevenBitValue_lt (groups : List UInt8) :
    sevenBitValue groups < Nat.pow 128 groups.length := by
  have hds : ∀ d ∈ groups.map fun b => b.toNat % 128, d < 128 := by
    intro d hd
    obtain ⟨b, _, rfl⟩ := List.mem_map.mp hd
    exact Nat.mod_lt _ (by decide)
  have hlt := Numeral.value_lt hds
  rwa [List.length_map] at hlt

theorem length_sevenBit_le (h : SevenBit groups) :
    (sevenBit (sevenBitValue groups)).length ≤ groups.length := by
  by_cases hn : sevenBitValue groups = 0
  · rw [hn]
    exact h.length_pos
  · rw [(sevenBit_of_ne_zero hn).2.2]
    exact Numeral.length_digits_le (sevenBitValue_lt groups)

/-- All other groups of a number are longer than those that are written. -/
theorem length_sevenBit_lt (h : SevenBit groups) (hne : groups ≠ sevenBit (sevenBitValue groups)) :
    (sevenBit (sevenBitValue groups)).length < groups.length := by
  apply Nat.lt_of_le_of_ne (length_sevenBit_le h)
  intro hlength
  apply hne
  exact h.eq_of_value_eq (sevenBit_sevenBit _) hlength.symm (sevenBitValue_sevenBit _).symm

end Writing

namespace Uint256

/-- Exactly the messages of groups whose number fits are read. -/
theorem ofMessage?_eq_some_iff {bytes : List UInt8} {n : Uint256} :
    ofMessage? bytes = some n ↔
      ∃ groups, bytes = natHeader ++ groups ∧ SevenBit groups ∧ sevenBitValue groups = n.val := by
  constructor
  · intro h
    unfold ofMessage? at h
    split at h
    · next hheader =>
        split at h
        · next v hread =>
            obtain ⟨groups, hdrop, hgroups, rfl⟩ := eq_append_of_ofSevenBit? hread
            refine ⟨groups, ?_, hgroups, ofNat?_eq_some.mp h⟩
            rw [List.append_nil] at hdrop
            calc bytes
                = bytes.take natHeader.length ++ bytes.drop natHeader.length :=
                  (List.take_append_drop _ bytes).symm
              _ = natHeader ++ groups := by rw [hheader, hdrop]
        · cases h
    · cases h
  · rintro ⟨groups, rfl, hgroups, hvalue⟩
    have hread : ofSevenBit? groups = some (sevenBitValue groups, []) := by
      have := hgroups.ofSevenBit?_append []
      rwa [List.append_nil] at this
    unfold ofMessage?
    rw [List.take_left, if_pos rfl, List.drop_left, hread]
    exact ofNat?_eq_some.mpr hvalue

theorem ofMessage?_message (n : Uint256) : ofMessage? n.message = some n :=
  ofMessage?_eq_some_iff.mpr
    ⟨sevenBit n.val, rfl, sevenBit_sevenBit n.val, sevenBitValue_sevenBit n.val⟩

/-- A number is written under the seven bytes of the header as the only shortest sequence of its
groups, as every natural number is. It is read back from that, and so from no other number's
message; and whatever sequence of groups follows the header, reading gives the number that they
denote, if it fits and only then, and writing it again the shortest sequence. After this header
nothing but groups is read. -/
theorem message_shortest :
    natHeader = [0x44, 0x49, 0x44, 0x4c, 0x00, 0x01, 0x7d] ∧
    (∀ n : Uint256, ofMessage? n.message = some n ∧ n.message = natMessage n.val) ∧
    (∀ v, ∃ shortest, natMessage v = natHeader ++ shortest ∧ SevenBit shortest ∧
      sevenBitValue shortest = v ∧
      ∀ groups, SevenBit groups → sevenBitValue groups = v → groups ≠ shortest →
        shortest.length < groups.length) ∧
    (∀ a b : Uint256, a.message = b.message → a = b) ∧
    (∀ groups, SevenBit groups →
      ((∃ n, ofMessage? (natHeader ++ groups) = some n) ↔
        sevenBitValue groups < Nat.pow 2 256) ∧
      ∀ n, ofMessage? (natHeader ++ groups) = some n →
        n.val = sevenBitValue groups ∧ n.message = natMessage (sevenBitValue groups)) ∧
    ∀ bytes n, ofMessage? (natHeader ++ bytes) = some n → SevenBit bytes := by
  have hread {groups : List UInt8} (hgroups : SevenBit groups) {n : Uint256} :
      ofMessage? (natHeader ++ groups) = some n ↔ sevenBitValue groups = n.val := by
    rw [ofMessage?_eq_some_iff]
    constructor
    · rintro ⟨others, heq, _, hvalue⟩
      rwa [List.append_cancel_left heq]
    · intro hvalue
      exact ⟨groups, rfl, hgroups, hvalue⟩
  refine ⟨rfl, ?_, ?_, ?_, ?_, ?_⟩
  · intro n
    exact ⟨ofMessage?_message n, rfl⟩
  · intro v
    refine ⟨sevenBit v, rfl, sevenBit_sevenBit v, sevenBitValue_sevenBit v, ?_⟩
    rintro groups hgroups rfl hne
    exact length_sevenBit_lt hgroups hne
  · intro a b heq
    have ha := ofMessage?_message a
    rw [heq, ofMessage?_message] at ha
    exact (Option.some.inj ha).symm
  · intro groups hgroups
    refine ⟨⟨?_, ?_⟩, ?_⟩
    · rintro ⟨n, h⟩
      rw [(hread hgroups).mp h]
      exact n.val_lt
    · intro hlt
      exact ⟨⟨_, hlt⟩, (hread hgroups).mpr rfl⟩
    · intro n h
      have hvalue := (hread hgroups).mp h
      exact ⟨hvalue.symm, congrArg natMessage hvalue.symm⟩
  · intro bytes n h
    obtain ⟨groups, hbytes, hgroups, _⟩ := ofMessage?_eq_some_iff.mp h
    rwa [List.append_cancel_left hbytes]

example : ofMessage? (natHeader ++ [0x85, 0x80, 0x00]) = ofMessage? (natHeader ++ [0x05]) := by
  decide +kernel

end Uint256

end FeeWindow
