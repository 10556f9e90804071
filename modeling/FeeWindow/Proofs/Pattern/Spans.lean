import FeeWindow.Pattern.Matches

/-!
Parts of a text by the positions where they begin and end. Parts that follow each other meet at a
position, and repeated parts go from position to position, so that the parts that do not move can be
left out: a part is repeated no more often than it has characters.
-/

namespace FeeWindow.Pattern

/-- The part of a text between two positions satisfies a predicate. -/
def Spans (P : PartPredicate) (text : List Char) (i j : Nat) : Prop :=
  ∃ before part after, text = before ++ part ++ after ∧ before.length = i ∧
    (before ++ part).length = j ∧ P before part after

variable {P Q : PartPredicate} {text : List Char} {i j m n : Nat}

namespace Spans

theorem le (h : Spans P text i j) : i ≤ j := by
  obtain ⟨before, part, after, _, rfl, rfl, _⟩ := h
  simp

theorem le_length (h : Spans P text i j) : j ≤ text.length := by
  obtain ⟨before, part, after, rfl, _, rfl, _⟩ := h
  simp

end Spans

section Conditions

theorem spans_or_iff :
    Spans (fun before part after => P before part after ∨ Q before part after) text i j ↔
      Spans P text i j ∨ Spans Q text i j := by
  constructor
  · rintro ⟨before, part, after, htext, hi, hj, hP | hQ⟩
    · exact .inl ⟨before, part, after, htext, hi, hj, hP⟩
    · exact .inr ⟨before, part, after, htext, hi, hj, hQ⟩
  · rintro (⟨before, part, after, htext, hi, hj, hP⟩ | ⟨before, part, after, htext, hi, hj, hQ⟩)
    · exact ⟨before, part, after, htext, hi, hj, .inl hP⟩
    · exact ⟨before, part, after, htext, hi, hj, .inr hQ⟩

theorem spans_and_iff {condition : Prop} :
    Spans (fun before part after => condition ∧ P before part after) text i j ↔
      condition ∧ Spans P text i j := by
  constructor
  · rintro ⟨before, part, after, htext, hi, hj, hcondition, hP⟩
    exact ⟨hcondition, before, part, after, htext, hi, hj, hP⟩
  · rintro ⟨hcondition, before, part, after, htext, hi, hj, hP⟩
    exact ⟨before, part, after, htext, hi, hj, hcondition, hP⟩

theorem spans_exists_iff {each : Nat → PartPredicate} :
    Spans (fun before part after => ∃ n, each n before part after) text i j ↔
      ∃ n, Spans (each n) text i j := by
  constructor
  · rintro ⟨before, part, after, htext, hi, hj, n, heach⟩
    exact ⟨n, before, part, after, htext, hi, hj, heach⟩
  · rintro ⟨n, before, part, after, htext, hi, hj, heach⟩
    exact ⟨before, part, after, htext, hi, hj, n, heach⟩

end Conditions

section Parts

/-- Where a part may only be empty, what holds of it is a condition on a position. -/
theorem spans_empty_and_iff {condition : List Char → List Char → Prop} :
    Spans (fun before part after => part = [] ∧ condition before after) text i j ↔
      i = j ∧ j ≤ text.length ∧ condition (text.take j) (text.drop j) := by
  constructor
  · rintro ⟨before, part, after, rfl, rfl, rfl, rfl, hcondition⟩
    simpa using hcondition
  · rintro ⟨rfl, hi, hcondition⟩
    have hlength : (text.take i).length = i := List.length_take_of_le hi
    exact ⟨text.take i, [], text.drop i, by simp, hlength, by simpa using hlength, rfl, hcondition⟩

theorem spans_empty_iff :
    Spans (fun _ part _ => part = []) text i j ↔ i = j ∧ j ≤ text.length := by
  simpa using @spans_empty_and_iff text i j fun _ _ => True

theorem spans_char_iff {member : Char → Prop} :
    Spans (fun _ part _ => ∃ c, part = [c] ∧ member c) text i j ↔
      j = i + 1 ∧ ∃ c, text[i]? = some c ∧ member c := by
  constructor
  · rintro ⟨before, part, after, rfl, rfl, rfl, c, rfl, hmember⟩
    refine ⟨by simp, c, ?_, hmember⟩
    simp
  · rintro ⟨rfl, c, hc, hmember⟩
    obtain ⟨hi, rfl⟩ := List.getElem?_eq_some_iff.mp hc
    refine ⟨text.take i, [text[i]], text.drop (i + 1), ?_, ?_, ?_, text[i], rfl, hmember⟩
    · simp
    · exact List.length_take_of_le (Nat.le_of_lt hi)
    · rw [List.take_append_getElem]
      exact List.length_take_of_le hi

/-- Two parts that follow each other meet at a position. -/
theorem spans_followed_iff :
    Spans (Followed P Q) text i j ↔ ∃ k, Spans P text i k ∧ Spans Q text k j := by
  constructor
  · rintro ⟨before, part, after, rfl, rfl, rfl, left, right, rfl, hleft, hright⟩
    refine ⟨(before ++ left).length, ?_, ?_⟩
    · exact ⟨before, left, right ++ after, by simp, rfl, rfl, hleft⟩
    · exact ⟨before ++ left, right, after, by simp, rfl, by simp, hright⟩
  · rintro ⟨k, ⟨before, left, rest, htext, rfl, rfl, hleft⟩,
      ⟨front, right, after, rfl, hk, rfl, hright⟩⟩
    rw [List.append_assoc] at htext
    obtain ⟨rfl, rfl⟩ := List.append_inj htext hk
    exact ⟨before, left ++ right, after, by simp, rfl, by simp, left, right, rfl, hleft, hright⟩

end Parts

section Repetitions

@[simp] theorem spans_times_zero_iff :
    Spans (Times P 0) text i j ↔ i = j ∧ j ≤ text.length :=
  spans_empty_iff

theorem spans_times_succ_iff :
    Spans (Times P (n + 1)) text i j ↔ ∃ k, Spans P text i k ∧ Spans (Times P n) text k j :=
  spans_followed_iff

theorem spans_times_add_iff :
    Spans (Times P (m + n)) text i j ↔
      ∃ k, Spans (Times P m) text i k ∧ Spans (Times P n) text k j := by
  induction m generalizing i with
  | zero =>
      rw [Nat.zero_add]
      constructor
      · intro h
        exact ⟨i, by simpa using Nat.le_trans h.le h.le_length, h⟩
      · rintro ⟨k, hzero, h⟩
        obtain ⟨rfl, _⟩ := spans_times_zero_iff.mp hzero
        exact h
  | succ m ih =>
      rw [Nat.add_right_comm]
      simp only [spans_times_succ_iff, ih]
      constructor
      · rintro ⟨l, hfirst, k, hm, hn⟩
        exact ⟨k, ⟨l, hfirst, hm⟩, hn⟩
      · rintro ⟨k, ⟨l, hfirst, hm⟩, hn⟩
        exact ⟨l, hfirst, k, hm, hn⟩

/-- A repetition that leaves out the parts without characters has no more parts than characters. -/
theorem Spans.exists_times_le (h : Spans (Times P n) text i j) :
    ∃ count ≤ j - i, Spans (Times P count) text i j := by
  induction n generalizing i with
  | zero => exact ⟨0, Nat.zero_le _, h⟩
  | succ n ih =>
      obtain ⟨k, hfirst, hrest⟩ := spans_times_succ_iff.mp h
      obtain ⟨count, hcount, htimes⟩ := ih hrest
      have hik := hfirst.le
      have hkj := hrest.le
      -- A first part without characters is left out; any other pays for itself.
      rcases Nat.eq_or_lt_of_le hik with rfl | hmoves
      · exact ⟨count, hcount, htimes⟩
      · exact ⟨count + 1, by omega, spans_times_succ_iff.mpr ⟨k, hfirst, htimes⟩⟩

/-- Beyond a least count, more parts than the text has characters reach nothing more. -/
theorem Spans.exists_times_le_add (h : Spans (Times P n) text i j) (hmn : m ≤ n) :
    ∃ count, m ≤ count ∧ count ≤ m + text.length ∧ Spans (Times P count) text i j := by
  obtain ⟨extra, rfl⟩ := Nat.exists_eq_add_of_le hmn
  obtain ⟨k, hleast, hextra⟩ := spans_times_add_iff.mp h
  obtain ⟨count, hcount, htimes⟩ := hextra.exists_times_le
  have hlength := hextra.le_length
  refine ⟨m + count, Nat.le_add_right m count, by omega, ?_⟩
  exact spans_times_add_iff.mpr ⟨k, hleast, htimes⟩

/-- A least count of parts and then some more. -/
theorem spans_times_followed_iff :
    Spans (Followed (Times P m) fun before part after =>
        ∃ extra, extra ≤ n ∧ Times P extra before part after) text i j ↔
      ∃ count, m ≤ count ∧ count ≤ m + n ∧ Spans (Times P count) text i j := by
  simp only [spans_followed_iff, spans_exists_iff, spans_and_iff]
  constructor
  · rintro ⟨k, hleast, extra, hextra, htimes⟩
    exact ⟨m + extra, Nat.le_add_right m extra, Nat.add_le_add_left hextra m,
      spans_times_add_iff.mpr ⟨k, hleast, htimes⟩⟩
  · rintro ⟨count, hleast, hmost, htimes⟩
    obtain ⟨extra, rfl⟩ := Nat.exists_eq_add_of_le hleast
    obtain ⟨k, hfirst, hrest⟩ := spans_times_add_iff.mp htimes
    exact ⟨k, hfirst, extra, Nat.le_of_add_le_add_left hmost, hrest⟩

end Repetitions

end FeeWindow.Pattern
