import FeeWindow.Bytes.Hex
import FeeWindow.Proofs.Numeral.Hexadecimal

/-!
The hexadecimal form of byte sequences. A text is read exactly where it is `0x` and two digits for
each byte, and writing what was read gives the text in lower case. Every other text fails in one
way: without the mark, with too few or too many bytes after it, or at the first of these bytes
that is no digit. Characters of several bytes have none that is a digit.
-/

namespace FeeWindow

open Numeral (IsHexDigit hexDigits hexValue digitChar)

section Encoding

variable {cs : List Char} {c : Char} {b : UInt8}

theorem utf8_toList (s : String) : utf8 s.toList = s.toUTF8.data.toList := by
  rw [String.toUTF8_eq_toByteArray, ← String.utf8Encode_toList, List.utf8Encode,
    List.toList_data_toByteArray]
  rfl

theorem toList_toLower (s : String) : s.toLower.toList = s.toList.map Char.toLower :=
  String.toList_map

/-- The character that a byte is in ASCII and Latin-1. -/
def charOfByte (b : UInt8) : Char := Char.ofNat b.toNat

/-- A byte that is a hexadecimal digit. -/
def IsHexByte (b : UInt8) : Prop := IsHexDigit (charOfByte b)

theorem toNat_charOfByte (b : UInt8) : (charOfByte b).toNat = b.toNat := by
  have hvalid : b.toNat.isValidChar := .inl (Nat.lt_trans b.toNat_lt (by decide))
  unfold charOfByte Char.ofNat
  rw [dif_pos hvalid]
  rfl

theorem not_isHexByte_of_le (h : 128 ≤ b.toNat) : ¬ IsHexByte b := by
  intro hhex
  have hlt := Numeral.toNat_lt_of_isHexDigit hhex
  rw [toNat_charOfByte] at hlt
  omega

/-- One byte each stands for the first 128 characters. -/
theorem utf8EncodeChar_of_lt (h : c.toNat < 128) :
    ∃ b, String.utf8EncodeChar c = [b] ∧ charOfByte b = c := by
  have hbyte : (UInt8.ofNat c.toNat).toNat = c.toNat :=
    UInt8.toNat_ofNat_of_lt' (Nat.lt_trans h (by decide))
  refine ⟨UInt8.ofNat c.toNat, if_pos (Nat.le_of_lt_succ h), ?_⟩
  rw [charOfByte, hbyte, Char.ofNat_toNat]

/-- All other characters have a byte above those. -/
theorem exists_mem_utf8EncodeChar_of_le (h : 128 ≤ c.toNat) :
    ∃ b ∈ String.utf8EncodeChar c, 128 ≤ b.toNat := by
  have hbyte : (UInt8.ofNat (c.toNat % 64 + 128)).toNat = c.toNat % 64 + 128 :=
    UInt8.toNat_ofNat_of_lt' (Nat.lt_trans (Nat.add_lt_add_right (Nat.mod_lt _ (by decide)) 128)
      (by decide))
  refine ⟨UInt8.ofNat (c.toNat % 64 + 128), ?_, by rw [hbyte]; exact Nat.le_add_left 128 _⟩
  -- Whatever their number, the last of the bytes holds the lowest six bits.
  have hlarge : ¬ c.val.toNat ≤ 127 := Nat.not_le_of_lt h
  unfold String.utf8EncodeChar
  rw [if_neg hlarge]
  split_ifs <;> simp

theorem forall_isHexByte_utf8EncodeChar_iff (c : Char) :
    (∀ b ∈ String.utf8EncodeChar c, IsHexByte b) ↔ IsHexDigit c := by
  by_cases hc : c.toNat < 128
  · obtain ⟨b, hb, rfl⟩ := utf8EncodeChar_of_lt hc
    rw [hb, List.forall_mem_singleton]
    rfl
  · obtain ⟨b, hmem, hb⟩ := exists_mem_utf8EncodeChar_of_le (Nat.le_of_not_lt hc)
    constructor
    · intro h
      exact absurd (h b hmem) (not_isHexByte_of_le hb)
    · intro h
      exact absurd (Numeral.toNat_lt_of_isHexDigit h) hc

theorem forall_isHexByte_utf8_iff :
    (∀ b ∈ utf8 cs, IsHexByte b) ↔ ∀ c ∈ cs, IsHexDigit c := by
  simp only [utf8, List.forall_mem_flatMap, forall_isHexByte_utf8EncodeChar_iff]

/-- Digits have one byte each. -/
theorem map_charOfByte_utf8 (h : ∀ c ∈ cs, IsHexDigit c) : (utf8 cs).map charOfByte = cs := by
  induction cs with
  | nil => rfl
  | cons c cs ih =>
      obtain ⟨hc, hcs⟩ := List.forall_mem_cons.mp h
      obtain ⟨b, hb, hchar⟩ := utf8EncodeChar_of_lt (Numeral.toNat_lt_of_isHexDigit hc)
      rw [utf8, List.flatMap_cons, hb, List.map_append, List.map_singleton, hchar]
      exact congrArg (c :: ·) (ih hcs)

end Encoding

namespace Bytes

/-- The first of some bytes that is no hexadecimal digit, and how many bytes stand before it. -/
structure FirstBad (text : List UInt8) (byte : UInt8) (position : Nat) : Prop where
  here : text[position]? = some byte
  bad : ¬ IsHexByte byte
  before : ∀ i < position, ∀ b, text[i]? = some b → IsHexByte b

section Digits

variable {b : UInt8} {text bytes : List UInt8}

theorem hexDigit_of_isHexByte (h : IsHexByte b) (position : Nat) :
    hexDigit b position = .ok (hexValue (charOfByte b)) := by
  have hdigit : Numeral.digit? (Char.ofNat b.toNat) = some (hexValue (charOfByte b)) :=
    Numeral.digit?_eq_some_iff.mpr ⟨h, rfl⟩
  unfold hexDigit
  rw [hdigit]

theorem hexDigit_of_not_isHexByte (h : ¬ IsHexByte b) (position : Nat) :
    hexDigit b position = .error (.badDigit b position) := by
  have hdigit : Numeral.digit? (Char.ofNat b.toNat) = none := by
    rw [Numeral.digit?_eq]
    exact if_neg h
  unfold hexDigit
  rw [hdigit]

/-- A byte made of two digits is written as these, in lower case. -/
theorem hexPair_ofNat {high low : Char} (hhigh : IsHexDigit high) (hlow : IsHexDigit low) :
    hexPair (UInt8.ofNat (16 * hexValue high + hexValue low)) = [high.toLower, low.toLower] := by
  have hhighlt := Numeral.hexValue_lt hhigh
  have hlowlt := Numeral.hexValue_lt hlow
  have hbyte : (UInt8.ofNat (16 * hexValue high + hexValue low)).toNat =
      16 * hexValue high + hexValue low := UInt8.toNat_ofNat_of_lt' (by
        change _ < 256
        omega)
  have hdiv : (16 * hexValue high + hexValue low) / 16 = hexValue high := by omega
  have hmod : (16 * hexValue high + hexValue low) % 16 = hexValue low := by omega
  rw [hexPair, hbyte, hdiv, hmod, Numeral.digitChar_hexValue hhigh, Numeral.digitChar_hexValue hlow]

/-- Digits in pairs are read, and written again in lower case. -/
theorem exists_ofHexPairs_eq_ok : ∀ {text : List UInt8} (position : Nat), text.length % 2 = 0 →
    (∀ b ∈ text, IsHexByte b) → ∃ bytes, ofHexPairs position text = .ok bytes ∧
      bytes.flatMap hexPair = (text.map charOfByte).map Char.toLower
  | [], _, _, _ => ⟨[], rfl, rfl⟩
  | [_], _, heven, _ => absurd heven Nat.one_ne_zero
  | high :: low :: rest, position, heven, hall => by
      obtain ⟨hhigh, hrest⟩ := List.forall_mem_cons.mp hall
      obtain ⟨hlow, hrest⟩ := List.forall_mem_cons.mp hrest
      have hevenRest : rest.length % 2 = 0 := by
        simp only [List.length_cons] at heven
        omega
      obtain ⟨bytes, hread, hwritten⟩ := exists_ofHexPairs_eq_ok (position + 2) hevenRest hrest
      refine ⟨UInt8.ofNat (16 * hexValue (charOfByte high) + hexValue (charOfByte low)) :: bytes,
        ?_, ?_⟩
      · rw [ofHexPairs, hexDigit_of_isHexByte hhigh, hexDigit_of_isHexByte hlow]
        simp only [bind, Except.bind, hread]
        rfl
      · rw [List.flatMap_cons, hexPair_ofNat hhigh hlow, hwritten]
        rfl

/-- Reading pairs of digits fails at the first byte that is none. -/
theorem ofHexPairs_of_firstBad : ∀ {text : List UInt8} {byte : UInt8} {i : Nat} (position : Nat),
    text.length % 2 = 0 → FirstBad text byte i →
    ofHexPairs position text = .error (.badDigit byte (position + i))
  | [], _, _, _, _, hbad => nomatch hbad.here
  | [_], _, _, _, heven, _ => absurd heven Nat.one_ne_zero
  | high :: low :: rest, byte, 0, position, _, hbad => by
      obtain rfl := Option.some.inj hbad.here
      rw [ofHexPairs, hexDigit_of_not_isHexByte hbad.bad]
      rfl
  | high :: low :: rest, byte, 1, position, _, hbad => by
      obtain rfl := Option.some.inj hbad.here
      have hhigh : IsHexByte high := hbad.before 0 (by decide) high rfl
      rw [ofHexPairs, hexDigit_of_isHexByte hhigh, hexDigit_of_not_isHexByte hbad.bad]
      rfl
  | high :: low :: rest, byte, i + 2, position, heven, hbad => by
      have hhigh : IsHexByte high := hbad.before 0 (by omega) high rfl
      have hlow : IsHexByte low := hbad.before 1 (by omega) low rfl
      have hevenRest : rest.length % 2 = 0 := by
        simp only [List.length_cons] at heven
        omega
      have hrest : FirstBad rest byte i :=
        ⟨hbad.here, hbad.bad, fun k hk => hbad.before (k + 2) (by omega)⟩
      have hread := ofHexPairs_of_firstBad (position + 2) hevenRest hrest
      have hplace : position + 2 + i = position + (i + 2) := by omega
      rw [ofHexPairs, hexDigit_of_isHexByte hhigh, hexDigit_of_isHexByte hlow]
      simp only [bind, Except.bind, hread, hplace]

/-- Among bytes that are not all digits, one is the first that is none. -/
theorem exists_firstBad (h : ¬ ∀ b ∈ text, IsHexByte b) : ∃ byte i, FirstBad text byte i := by
  induction text with
  | nil => exact absurd nofun h
  | cons b rest ih =>
      by_cases hb : IsHexByte b
      · have hrest : ¬ ∀ c ∈ rest, IsHexByte c := by
          intro hall
          exact h (List.forall_mem_cons.mpr ⟨hb, hall⟩)
        obtain ⟨byte, i, hbad⟩ := ih hrest
        refine ⟨byte, i + 1, hbad.here, hbad.bad, ?_⟩
        rintro (_ | k) hk c hc
        · obtain rfl := Option.some.inj hc
          exact hb
        · exact hbad.before k (Nat.lt_of_succ_lt_succ hk) c hc
      · exact ⟨b, 0, rfl, hb, nofun⟩

end Digits

/-- Two bytes are not written alike. -/
theorem hexPair_injective {a b : UInt8} (h : hexPair a = hexPair b) : a = b := by
  have hread : ∀ {m n}, m < 16 → n < 16 → digitChar m = digitChar n → m = n := by
    intro m n hm hn heq
    rw [← Numeral.hexValue_digitChar hm, heq, Numeral.hexValue_digitChar hn]
  have ha := a.toNat_lt
  have hb := b.toNat_lt
  simp only [hexPair, List.cons.injEq, and_true] at h
  have hhigh : a.toNat / 16 = b.toNat / 16 := hread (by omega) (by omega) h.1
  have hlow : a.toNat % 16 = b.toNat % 16 := hread (by omega) (by omega) h.2
  exact UInt8.toNat_inj.mp (by omega)

theorem flatMap_hexPair_injective : ∀ {a b : List UInt8},
    a.flatMap hexPair = b.flatMap hexPair → a = b
  | [], [], _ => rfl
  | _ :: _, [], h | [], _ :: _, h => nomatch h
  | a :: as, b :: bs, h => by
      obtain ⟨hhead, htail⟩ := List.append_inj h rfl
      rw [hexPair_injective hhead, flatMap_hexPair_injective htail]

/-- Two byte sequences are not written alike. -/
theorem hex_injective {n : Nat} {a b : Bytes n} (h : a.hex = b.hex) : a = b := by
  have hlist : '0' :: 'x' :: a.toList.flatMap hexPair = '0' :: 'x' :: b.toList.flatMap hexPair :=
    String.ofList_injective h
  exact ext (flatMap_hexPair_injective (List.tail_eq_of_cons_eq (List.tail_eq_of_cons_eq hlist)))

section Reading

variable {n : Nat} {s : String} {byte : UInt8} {i : Nat}

def HasMark (s : String) : Prop := ['0', 'x'] <+: s.toList

/-- The UTF-8 bytes of a text after the mark. -/
def afterMark (s : String) : List UInt8 := s.toUTF8.data.toList.drop 2

/-- What reading a text as `n` bytes comes to. -/
inductive HexOutcome (n : Nat) (s : String) : Except HexError (Bytes n) → Prop
  | missingMark (hmark : ¬ HasMark s) : HexOutcome n s (.error .missingMark)
  | wrongLength (hmark : HasMark s) (hlength : (afterMark s).length ≠ 2 * n) :
      HexOutcome n s (.error (.wrongLength (2 * n) (afterMark s).length))
  | badDigit {byte : UInt8} {position : Nat} (hmark : HasMark s)
      (hlength : (afterMark s).length = 2 * n) (hbad : FirstBad (afterMark s) byte position) :
      HexOutcome n s (.error (.badDigit byte position))
  | read {bytes : Bytes n} (hmark : HasMark s) (hlength : (afterMark s).length = 2 * n)
      (hdigits : ∀ b ∈ afterMark s, IsHexByte b) (hwritten : bytes.hex = s.toLower) :
      HexOutcome n s (.ok bytes)

theorem hasMark_iff : HasMark s ↔ ∃ rest, s.toList = '0' :: 'x' :: rest :=
  ⟨fun ⟨rest, h⟩ => ⟨rest, h.symm⟩, fun ⟨rest, h⟩ => ⟨rest, h.symm⟩⟩

theorem afterMark_eq {rest : List Char} (h : s.toList = '0' :: 'x' :: rest) :
    afterMark s = utf8 rest := by
  rw [afterMark, ← utf8_toList, h]
  rfl

theorem ofHex_of_unmarked (h : ¬ HasMark s) : ofHex n s = .error .missingMark := by
  unfold ofHex
  split
  · next rest hs => exact absurd (hasMark_iff.mpr ⟨rest, hs⟩) h
  · rfl

/-- Behind the mark, the length is checked before the digits are read. -/
theorem ofHex_of_hasMark (h : HasMark s) : ofHex n s =
    if (afterMark s).length = 2 * n then ofHexDigits n (afterMark s)
    else .error (.wrongLength (2 * n) (afterMark s).length) := by
  obtain ⟨rest, hs⟩ := hasMark_iff.mp h
  unfold ofHex
  rw [afterMark_eq hs, hs]
  rfl

/-- The checks of the reader of digits never fail on so many bytes. -/
theorem ofHexDigits_eq {text : List UInt8} (h : text.length = 2 * n) :
    (ofHexDigits n text).map toList = ofHexPairs 0 text := by
  have heven : ¬ text.length % 2 ≠ 0 := by omega
  have hsize : text.length / 2 = n := by omega
  unfold ofHexDigits
  rw [if_neg heven, dif_pos hsize]
  split
  · next hread => exact hread.symm
  · next hread => exact hread.symm

theorem ofHexDigits_of_firstBad {text : List UInt8} (h : text.length = 2 * n)
    (hbad : FirstBad text byte i) : ofHexDigits n text = .error (.badDigit byte i) := by
  have hread : (ofHexDigits n text).map toList = .error (.badDigit byte (0 + i)) :=
    (ofHexDigits_eq h).trans (ofHexPairs_of_firstBad 0 (by omega) hbad)
  rw [Nat.zero_add] at hread
  cases hresult : ofHexDigits n text with
  | error e =>
      rw [hresult] at hread
      exact congrArg Except.error (Except.error.inj hread)
  | ok bytes =>
      rw [hresult] at hread
      cases hread

theorem exists_ofHexDigits_eq_ok {text : List UInt8} (h : text.length = 2 * n)
    (hdigits : ∀ b ∈ text, IsHexByte b) : ∃ bytes, ofHexDigits n text = .ok bytes ∧
      bytes.toList.flatMap hexPair = (text.map charOfByte).map Char.toLower := by
  obtain ⟨bytes, hread, hwritten⟩ := exists_ofHexPairs_eq_ok 0 (by omega) hdigits
  rw [← ofHexDigits_eq h] at hread
  cases hresult : ofHexDigits n text with
  | error e =>
      rw [hresult] at hread
      cases hread
  | ok result =>
      rw [hresult] at hread
      obtain rfl := Except.ok.inj hread
      exact ⟨result, rfl, hwritten⟩

theorem exists_ofHex_eq_ok (hmark : HasMark s) (hlength : (afterMark s).length = 2 * n)
    (hdigits : ∀ b ∈ afterMark s, IsHexByte b) :
    ∃ bytes, ofHex n s = .ok bytes ∧ bytes.hex = s.toLower := by
  obtain ⟨rest, hs⟩ := hasMark_iff.mp hmark
  obtain ⟨bytes, hread, hwritten⟩ := exists_ofHexDigits_eq_ok hlength hdigits
  rw [afterMark_eq hs] at hdigits hwritten
  rw [map_charOfByte_utf8 (forall_isHexByte_utf8_iff.mp hdigits)] at hwritten
  refine ⟨bytes, ?_, ?_⟩
  · rw [ofHex_of_hasMark hmark, if_pos hlength, hread]
  · rw [← String.toList_inj, hex, hwritten, String.toList_ofList, toList_toLower, hs]
    rfl

theorem ofHex_eq_iff {result : Except HexError (Bytes n)} :
    ofHex n s = result ↔ HexOutcome n s result := by
  constructor
  · rintro rfl
    by_cases hmark : HasMark s
    · by_cases hlength : (afterMark s).length = 2 * n
      · by_cases hdigits : ∀ b ∈ afterMark s, IsHexByte b
        · obtain ⟨bytes, hread, hwritten⟩ := exists_ofHex_eq_ok hmark hlength hdigits
          rw [hread]
          exact .read hmark hlength hdigits hwritten
        · obtain ⟨byte, i, hbad⟩ := exists_firstBad hdigits
          rw [ofHex_of_hasMark hmark, if_pos hlength, ofHexDigits_of_firstBad hlength hbad]
          exact .badDigit hmark hlength hbad
      · rw [ofHex_of_hasMark hmark, if_neg hlength]
        exact .wrongLength hmark hlength
    · rw [ofHex_of_unmarked hmark]
      exact .missingMark hmark
  · intro h
    cases h with
    | missingMark hmark => exact ofHex_of_unmarked hmark
    | wrongLength hmark hlength => rw [ofHex_of_hasMark hmark, if_neg hlength]
    | badDigit hmark hlength hbad =>
        rw [ofHex_of_hasMark hmark, if_pos hlength, ofHexDigits_of_firstBad hlength hbad]
    | read hmark hlength hdigits hwritten =>
        obtain ⟨bytes, hread, hsame⟩ := exists_ofHex_eq_ok hmark hlength hdigits
        rw [hread, hex_injective (hsame.trans hwritten.symm)]

/-- A text is read as `n` bytes if it is the mark and `2 * n` digits. -/
theorem exists_ofHex_eq_ok_iff : (∃ bytes, ofHex n s = .ok bytes) ↔
    ∃ ds, s.toList = '0' :: 'x' :: ds ∧ ds.length = 2 * n ∧ ∀ c ∈ ds, IsHexDigit c := by
  constructor
  · rintro ⟨bytes, hread⟩
    cases ofHex_eq_iff.mp hread with
    | read hmark hlength hdigits _ =>
        obtain ⟨ds, hs⟩ := hasMark_iff.mp hmark
        rw [afterMark_eq hs] at hlength hdigits
        have hall := forall_isHexByte_utf8_iff.mp hdigits
        rw [← List.length_map charOfByte, map_charOfByte_utf8 hall] at hlength
        exact ⟨ds, hs, hlength, hall⟩
  · rintro ⟨ds, hs, hlength, hall⟩
    have hbytes : (afterMark s).length = 2 * n := by
      rw [afterMark_eq hs, ← List.length_map charOfByte, map_charOfByte_utf8 hall, hlength]
    have hdigits : ∀ b ∈ afterMark s, IsHexByte b := by
      rw [afterMark_eq hs]
      exact forall_isHexByte_utf8_iff.mpr hall
    obtain ⟨bytes, hread, _⟩ := exists_ofHex_eq_ok (hasMark_iff.mpr ⟨ds, hs⟩) hbytes hdigits
    exact ⟨bytes, hread⟩

/-- What was read is written as the text in lower case. -/
theorem hex_eq_toLower {bytes : Bytes n} (h : ofHex n s = .ok bytes) : bytes.hex = s.toLower := by
  cases ofHex_eq_iff.mp h with
  | read _ _ _ hwritten => exact hwritten

end Reading

section Writing

variable {n : Nat}

theorem length_flatMap_hexPair (text : List UInt8) :
    (text.flatMap hexPair).length = 2 * text.length := by
  induction text with
  | nil => rfl
  | cons b text ih =>
      rw [List.flatMap_cons, List.length_append, ih, List.length_cons]
      change 2 + 2 * text.length = _
      omega

theorem mem_hexPair {b : UInt8} {c : Char} (h : c ∈ hexPair b) : c ∈ hexDigits := by
  have hb := b.toNat_lt
  rcases List.mem_pair.mp h with rfl | rfl
  · exact Numeral.digitChar_mem_hexDigits (by omega)
  · exact Numeral.digitChar_mem_hexDigits (by omega)

theorem mem_flatMap_hexPair {text : List UInt8} {c : Char} (h : c ∈ text.flatMap hexPair) :
    c ∈ hexDigits := by
  obtain ⟨b, _, hc⟩ := List.mem_flatMap.mp h
  exact mem_hexPair hc

theorem toLower_hex (bytes : Bytes n) : bytes.hex.toLower = bytes.hex := by
  have hlower : (bytes.toList.flatMap hexPair).map Char.toLower =
      (bytes.toList.flatMap hexPair).map id :=
    List.map_congr_left fun c hc => Numeral.toLower_of_mem_hexDigits (mem_flatMap_hexPair hc)
  rw [← String.toList_inj, toList_toLower, hex, String.toList_ofList, List.map_cons,
    List.map_cons, hlower, List.map_id]
  rfl

/-- Exactly the forms of a byte sequence are read as it: the texts with the mark that are its own
form in lower case. -/
theorem ofHex_eq_ok_iff {s : String} {bytes : Bytes n} :
    ofHex n s = .ok bytes ↔ HasMark s ∧ s.toLower = bytes.hex := by
  constructor
  · intro h
    cases ofHex_eq_iff.mp h with
    | read hmark _ _ hwritten => exact ⟨hmark, hwritten.symm⟩
  · rintro ⟨hmark, hlower⟩
    obtain ⟨ds, hs⟩ := hasMark_iff.mp hmark
    have hdigits : ds.map Char.toLower = bytes.toList.flatMap hexPair := by
      rw [← String.toList_inj, toList_toLower, hs, hex, String.toList_ofList] at hlower
      exact List.tail_eq_of_cons_eq (List.tail_eq_of_cons_eq hlower)
    have hread : ∃ others, ofHex n s = .ok others := by
      refine exists_ofHex_eq_ok_iff.mpr ⟨ds, hs, ?_, ?_⟩
      · rw [← List.length_map Char.toLower, hdigits, length_flatMap_hexPair, bytes.length_toList]
      · intro c hc
        have hmem : c.toLower ∈ bytes.toList.flatMap hexPair :=
          hdigits ▸ List.mem_map_of_mem hc
        exact mem_flatMap_hexPair hmem
    obtain ⟨others, hothers⟩ := hread
    rw [hothers, hex_injective ((hex_eq_toLower hothers).trans hlower)]

theorem hasMark_hex (bytes : Bytes n) : HasMark bytes.hex :=
  hasMark_iff.mpr ⟨bytes.toList.flatMap hexPair, String.toList_ofList⟩

/-- A byte sequence is read from its hexadecimal form. -/
theorem ofHex_hex (bytes : Bytes n) : ofHex n bytes.hex = .ok bytes :=
  ofHex_eq_ok_iff.mpr ⟨hasMark_hex bytes, toLower_hex bytes⟩

/-- Reading a text as `n` bytes comes to exactly one outcome. It succeeds where the text is the mark
and `2 * n` digits and nowhere else, and writing what was read gives the text in lower case; every
byte sequence is read from its own form, which no other one has. Whatever the text, the checks of
the reader of digits on their number never fail. -/
theorem hex_grammar (n : Nat) (s : String) :
    (∀ result, ofHex n s = result ↔ HexOutcome n s result) ∧
    ((∃ bytes, ofHex n s = .ok bytes) ↔
      ∃ ds, s.toList = '0' :: 'x' :: ds ∧ ds.length = 2 * n ∧ ∀ c ∈ ds, IsHexDigit c) ∧
    (∀ bytes, ofHex n s = .ok bytes → bytes.hex = s.toLower) ∧
    (∀ bytes : Bytes n, ofHex n bytes.hex = .ok bytes) ∧
    (∀ a b : Bytes n, a.hex = b.hex → a = b) ∧
    ofHex n s ≠ .error .oddDigits ∧ ofHex n s ≠ .error .wrongSize := by
  refine ⟨fun _ => ofHex_eq_iff, exists_ofHex_eq_ok_iff, fun _ => hex_eq_toLower, ofHex_hex,
    fun _ _ => hex_injective, ?_, ?_⟩
  · intro h
    cases ofHex_eq_iff.mp h
  · intro h
    cases ofHex_eq_iff.mp h

example : ofHex 1 "0xé" = .error (.badDigit 0xc3 0) := by decide +kernel

end Writing

end Bytes

end FeeWindow
