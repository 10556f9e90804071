import FeeWindow.Pattern.Search
import FeeWindow.Proofs.Pattern.Spans
import Mathlib.Logic.Function.Iterate

/-!
The search by sets of positions. A step moves sets by a property of parts if it takes a set to the
positions where the parts end that have the property and begin in the set. Each motion moves sets by
what its pattern matches: by induction on the pattern, with a lemma for each kind of motion. So a
text contains a pattern exactly if a part of it matches, wherever it stands.
-/

namespace FeeWindow.Pattern

variable {P Q : PartPredicate} {text : List Char} {step next : Nat → Nat} {set i j count : Nat}

section Bits

theorem testBit_toNat_add_zero (b : Bool) (rest : Nat) : (b.toNat + 2 * rest).testBit 0 = b := by
  cases b <;> simp

theorem testBit_toNat_add_succ (b : Bool) (rest i : Nat) :
    (b.toNat + 2 * rest).testBit (i + 1) = rest.testBit i := by
  have hhalf : (b.toNat + 2 * rest) / 2 = rest := by
    have hb := b.toNat_le
    omega
  rw [Nat.testBit_succ, hhalf]

/-- The place in front of a position says whether the assertion holds between its neighbours; the
neighbour before the whole text is the one that is given. -/
theorem testBit_assertionPlaces (a : Assertion) (text : List Char) (front : Option Char) (i : Nat) :
    (assertionPlaces a front text).testBit i = true ↔
      i ≤ text.length ∧
      a.holds ((text.take i).getLast?.or front) (text.drop i).head? = true := by
  induction text generalizing front i with
  | nil =>
      rw [assertionPlaces, Nat.testBit_bool_toNat]
      cases i <;> simp
  | cons c rest ih =>
      cases i with
      | zero =>
          rw [assertionPlaces, testBit_toNat_add_zero]
          simp
      | succ i =>
          -- The character that is passed is the neighbour before the next place.
          have hlast : ((c :: rest).take (i + 1)).getLast?.or front =
              ((rest.take i).getLast?).or (some c) := by
            cases h : (rest.take i).getLast? <;> simp [List.getLast?_cons, h]
          rw [assertionPlaces, testBit_toNat_add_succ, ih, hlast]
          simp

namespace CharIndex

variable (members : CharSet) (c : Char) (position : Nat)

theorem places_cons (entry : Char × Nat) (index : CharIndex) :
    places (entry :: index) members =
      if members.mem entry.1 then entry.2 ||| index.places members else index.places members :=
  rfl

theorem testBit_places_insert (index : CharIndex) :
    ((insert c position index).places members).testBit i =
      ((members.mem c && decide (position = i)) || (index.places members).testBit i) := by
  have hone : (1 <<< position).testBit i = decide (position = i) := by
    rw [Nat.one_shiftLeft, Nat.testBit_two_pow]
  induction index with
  | nil =>
      unfold insert
      rw [places_cons]
      cases members.mem c <;> simp [places, hone]
  | cons entry index ih =>
      obtain ⟨d, places⟩ := entry
      unfold insert
      split
      · next hcd =>
          subst hcd
          simp only [places_cons]
          cases members.mem c <;> simp [hone, Bool.or_comm, Bool.or_assoc]
      · simp only [places_cons]
        cases members.mem d <;> simp [ih, Bool.or_left_comm]

theorem testBit_places_ofText (text : List Char) :
    ((ofText position text).places members).testBit i = true ↔
      ∃ k, i = position + k ∧ ∃ c, text[k]? = some c ∧ members.mem c = true := by
  induction text generalizing position with
  | nil => simp [ofText, places]
  | cons d rest ih =>
      rw [ofText, testBit_places_insert, Bool.or_eq_true, ih]
      constructor
      · rintro (hhere | ⟨k, rfl, c, hc, hmem⟩)
        · obtain ⟨hmem, hi⟩ := Bool.and_eq_true_iff.mp hhere
          exact ⟨0, (of_decide_eq_true hi).symm, d, rfl, hmem⟩
        · exact ⟨k + 1, by omega, c, hc, hmem⟩
      · rintro ⟨k, rfl, c, hc, hmem⟩
        cases k with
        | zero =>
            obtain rfl : d = c := by simpa using hc
            left
            simp [hmem]
        | succ k => exact .inr ⟨k, by omega, c, by simpa using hc, hmem⟩

end CharIndex

/-- The positions of a text: those in front of its characters, and its end. -/
theorem testBit_positions (length i : Nat) :
    ((1 <<< (length + 1)) - 1).testBit i = decide (i ≤ length) := by
  rw [Nat.one_shiftLeft, Nat.testBit_two_pow_sub_one, decide_eq_decide]
  exact Nat.lt_succ_iff

end Bits

section Steps

/-- A set of positions of a text. -/
def IsWithin (text : List Char) (set : Nat) : Prop :=
  ∀ i, set.testBit i = true → i ≤ text.length

/-- A step takes each set of positions to those where the parts end that begin in the set and
satisfy a predicate. -/
def Moves (text : List Char) (P : PartPredicate) (step : Nat → Nat) : Prop :=
  ∀ set, IsWithin text set → ∀ j, (step set).testBit j = true ↔
    ∃ i, set.testBit i = true ∧ Spans P text i j

theorem iterate_eq : iterate step count set = step^[count] set := by
  induction count generalizing set with
  | zero => rfl
  | succ count ih =>
      unfold iterate
      rw [Function.iterate_succ_apply]
      dsimp only
      split
      · next hfixed =>
          rw [hfixed, Function.iterate_fixed hfixed]
      · exact ih

theorem iterate_succ : iterate step (count + 1) set = iterate step count (step set) := by
  rw [iterate_eq, iterate_eq, Function.iterate_succ_apply]

/-- How many steps a repetition may take beyond its least count. Where it has no greatest one, as
many as the text has characters are enough. -/
def extraSteps (text : List Char) (least : Nat) : Option Nat → Nat
  | none => text.length
  | some most => most - least

namespace Moves

theorem isWithin (h : Moves text P step) (hset : IsWithin text set) : IsWithin text (step set) := by
  intro j hj
  obtain ⟨i, _, hspans⟩ := (h set hset j).mp hj
  exact hspans.le_length

theorem congr (h : Moves text P step) (hiff : ∀ i j, Spans P text i j ↔ Spans Q text i j) :
    Moves text Q step := by
  intro set hset j
  simp only [h set hset j, hiff]

theorem stay : Moves text (fun _ part _ => part = []) fun set => set := by
  intro set hset j
  simp only [spans_empty_iff]
  constructor
  · intro hj
    exact ⟨j, hj, rfl, hset j hj⟩
  · rintro ⟨i, hi, rfl, _⟩
    exact hi

theorem keep (a : Assertion) :
    Moves text (Pattern.assertion a).Matches fun set => set &&& assertionPlaces a none text := by
  intro set hset j
  unfold Matches
  simp only [Nat.testBit_and, Bool.and_eq_true, testBit_assertionPlaces, Option.or_none,
    spans_empty_and_iff]
  constructor
  · rintro ⟨hj, hle, hholds⟩
    exact ⟨j, hj, rfl, hle, hholds⟩
  · rintro ⟨i, hi, rfl, hle, hholds⟩
    exact ⟨hi, hle, hholds⟩

theorem advance (members : CharSet) :
    Moves text (Pattern.one members).Matches fun set =>
      (set &&& (CharIndex.ofText 0 text).places members) <<< 1 := by
  intro set hset j
  unfold Matches
  simp only [Nat.testBit_shiftLeft, Nat.testBit_and, Bool.and_eq_true, decide_eq_true_eq,
    CharIndex.testBit_places_ofText, spans_char_iff]
  constructor
  · rintro ⟨hpos, hi, k, hk, hchar⟩
    obtain rfl : j - 1 = k := by omega
    exact ⟨j - 1, hi, by omega, hchar⟩
  · rintro ⟨i, hi, rfl, hchar⟩
    exact ⟨Nat.le_add_left 1 i, hi, i, (Nat.zero_add i).symm, hchar⟩

/-- A step after another one: the parts follow each other. -/
theorem seq (hfirst : Moves text P step) (hsecond : Moves text Q next) :
    Moves text (Followed P Q) fun set => next (step set) := by
  intro set hset j
  simp only [hsecond _ (hfirst.isWithin hset), hfirst set hset, spans_followed_iff]
  constructor
  · rintro ⟨k, ⟨i, hi, hleft⟩, hright⟩
    exact ⟨i, hi, k, hleft, hright⟩
  · rintro ⟨i, hi, k, hleft, hright⟩
    exact ⟨k, ⟨i, hi, hleft⟩, hright⟩

theorem alt (hleft : Moves text P step) (hright : Moves text Q next) :
    Moves text (fun before part after => P before part after ∨ Q before part after) fun set =>
      step set ||| next set := by
  intro set hset j
  simp only [Nat.testBit_or, Bool.or_eq_true, hleft set hset, hright set hset, spans_or_iff,
    and_or_left, exists_or]

theorem iterate (h : Moves text P step) (count : Nat) :
    Moves text (Times P count) (iterate step count) := by
  induction count with
  | zero => exact stay
  | succ count ih =>
      intro set hset j
      rw [iterate_succ]
      exact h.seq ih set hset j

/-- A step that keeps what is reached: no part or one. -/
theorem reachedWithin (h : Moves text P step) (count : Nat) :
    Moves text (fun before part after => ∃ n, n ≤ count ∧ Times P n before part after)
      (reachedWithin step count) := by
  intro set hset j
  unfold Pattern.reachedWithin
  simp only [spans_exists_iff, spans_and_iff]
  -- What is reached after one step is the set that the other steps begin with.
  induction count generalizing set with
  | zero =>
      simp only [Nat.le_zero, exists_eq_left, spans_times_zero_iff]
      have hstay := stay set hset j
      simp only [spans_empty_iff] at hstay
      exact hstay
  | succ count ih =>
      have hnext : IsWithin text (set ||| step set) := by
        intro i hi
        rw [Nat.testBit_or, Bool.or_eq_true] at hi
        exact hi.elim (hset i) (h.isWithin hset i)
      rw [iterate_succ, ih _ hnext]
      simp only [Nat.testBit_or, Bool.or_eq_true, h set hset]
      constructor
      · rintro ⟨i, hi | ⟨k, hk, hfirst⟩, n, hn, htimes⟩
        · exact ⟨i, hi, n, Nat.le_succ_of_le hn, htimes⟩
        · exact ⟨k, hk, n + 1, Nat.succ_le_succ hn, spans_times_succ_iff.mpr ⟨i, hfirst, htimes⟩⟩
      · rintro ⟨i, hi, n, hn, htimes⟩
        cases n with
        | zero => exact ⟨i, .inl hi, 0, Nat.zero_le count, htimes⟩
        | succ n =>
            obtain ⟨k, hfirst, hrest⟩ := spans_times_succ_iff.mp htimes
            exact ⟨k, .inr ⟨i, hi, hfirst⟩, n, Nat.le_of_succ_le_succ hn, hrest⟩

/-- A repetition: the least count of steps, and then some more. -/
theorem repeated (h : Moves text P step) {least : Nat} {most : Option Nat}
    (hcounts : ∀ m, most = some m → least ≤ m) :
    Moves text (fun before part after => ∃ count, least ≤ count ∧
        (∀ m, most = some m → count ≤ m) ∧ Times P count before part after) fun set =>
      Pattern.reachedWithin step (extraSteps text least most) (Pattern.iterate step least set) := by
  refine ((h.iterate least).seq (h.reachedWithin _)).congr ?_
  intro i j
  rw [spans_times_followed_iff]
  simp only [spans_exists_iff, spans_and_iff]
  cases most with
  | none =>
      constructor
      · rintro ⟨count, hleast, _, htimes⟩
        exact ⟨count, hleast, nofun, htimes⟩
      · rintro ⟨count, hleast, _, htimes⟩
        exact htimes.exists_times_le_add hleast
  | some most =>
      have hmost := hcounts most rfl
      simp only [extraSteps, Nat.add_sub_of_le hmost, Option.some.injEq, forall_eq']

end Moves

end Steps

/-- In each repetition the greatest count, if there is one, is no less than the least one. -/
def HasOrderedCounts : Pattern → Prop
  | .empty | .one _ | .assertion _ => True
  | .group _ p => p.HasOrderedCounts
  | .repeated p least most _ => (∀ m, most = some m → least ≤ m) ∧ p.HasOrderedCounts
  | .seq p q | .alt p q => p.HasOrderedCounts ∧ q.HasOrderedCounts

/-- The motion of a pattern moves sets of positions by what the pattern matches. -/
theorem HasOrderedCounts.moves {p : Pattern} (h : p.HasOrderedCounts) (text : List Char) :
    Moves text p.Matches (p.motion text (.ofText 0 text)).run := by
  induction p with
  | empty => exact .stay
  | one members => exact .advance members
  | assertion a => exact .keep a
  | group kind p ih => exact ih h
  | repeated p least most eager ih => exact (ih h.2).repeated h.1
  | seq p q ihp ihq => exact (ihp h.1).seq (ihq h.2)
  | alt p q ihp ihq => exact (ihp h.1).alt (ihq h.2)

/-- Some part of a text matches a pattern, with the rest of the text around it. -/
def OccursIn (p : Pattern) (text : List Char) : Prop :=
  ∃ before part after, text = before ++ part ++ after ∧ p.Matches before part after

theorem occursIn_iff_exists_spans {p : Pattern} :
    p.OccursIn text ↔ ∃ i j, Spans p.Matches text i j := by
  constructor
  · rintro ⟨before, part, after, htext, hmatches⟩
    exact ⟨_, _, before, part, after, htext, rfl, rfl, hmatches⟩
  · rintro ⟨i, j, before, part, after, htext, _, _, hmatches⟩
    exact ⟨before, part, after, htext, hmatches⟩

theorem ne_zero_iff_exists_testBit : set ≠ 0 ↔ ∃ i, set.testBit i = true := by
  constructor
  · exact Nat.exists_testBit_of_ne_zero
  · rintro ⟨i, hi⟩ rfl
    simp at hi

/-- The search finds a pattern in a text exactly if some part of the text matches it. -/
theorem HasOrderedCounts.isIn_iff {p : Pattern} (h : p.HasOrderedCounts) (text : String) :
    p.isIn text = true ↔ p.OccursIn text.toList := by
  have hall : IsWithin text.toList ((1 <<< (text.toList.length + 1)) - 1) := by
    intro i hi
    simpa only [testBit_positions, decide_eq_true_eq] using hi
  unfold isIn
  simp only [bne_iff_ne, ne_zero_iff_exists_testBit, h.moves _ _ hall, testBit_positions,
    decide_eq_true_eq, occursIn_iff_exists_spans]
  constructor
  · rintro ⟨j, i, _, hspans⟩
    exact ⟨i, j, hspans⟩
  · rintro ⟨i, j, hspans⟩
    exact ⟨j, i, Nat.le_trans hspans.le hspans.le_length, hspans⟩

end FeeWindow.Pattern
