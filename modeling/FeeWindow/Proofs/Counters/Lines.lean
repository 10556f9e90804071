import FeeWindow.Counters.Exposition
import FeeWindow.Proofs.Numeral.Hexadecimal

/-!
The text of an exposition falls back into its lines: whatever the counters, their labels and the
time, no line is broken by a newline of its own.
-/

namespace FeeWindow

theorem splitOn_flatMap_concat {lines : List (List Char)} (h : ∀ line ∈ lines, '\n' ∉ line) :
    (lines.flatMap (· ++ ['\n'])).splitOn '\n' = lines ++ [[]] := by
  induction lines with
  | nil => rfl
  | cons line rest ih =>
      obtain ⟨hline, hrest⟩ := List.forall_mem_cons.mp h
      have hkept : ∀ c ∈ line, (c == '\n') = false := by
        intro c hc
        exact beq_false_of_ne fun heq => hline (heq ▸ hc)
      rw [List.flatMap_cons, List.append_assoc, List.singleton_append, List.splitOn,
        List.splitOnP_append_cons_of_forall_mem hkept '\n' rfl, ← List.splitOn, ih hrest,
        List.cons_append]

section Numbers

theorem Numeral.newline_notMem_text {base : Nat} (hbase : base ≤ 16) (n : Nat) :
    '\n' ∉ text base n := by
  unfold text
  split
  · decide
  · intro h
    obtain ⟨d, hd, hchar⟩ := List.mem_map.mp (List.mem_reverse.mp h)
    have hlt : d < 16 := Nat.lt_of_lt_of_le (lt_of_mem_digits hd) hbase
    have hnewline : '\n' ∉ hexDigits := by decide
    apply hnewline
    rw [← hchar]
    exact digitChar_mem_hexDigits hlt

theorem newline_notMem_toString (n : Int) : '\n' ∉ (toString n).toList := by
  have hdigits (m : Nat) : '\n' ∉ Nat.toDigits 10 m := by
    intro h
    cases Nat.isDigit_of_mem_toDigits (by decide) (by decide) h
  cases n with
  | ofNat m =>
      change '\n' ∉ m.repr.toList
      rw [Nat.toList_repr]
      exact hdigits m
  | negSucc m =>
      change '\n' ∉ ("-" ++ (m + 1).repr).toList
      simp [hdigits]

namespace NumberStyle

variable (style : NumberStyle)

theorem newline_notMem_plain {digits : List Char} (h : '\n' ∉ digits) (exponent : Int) :
    '\n' ∉ style.plain digits exponent := by
  have htake (k : Nat) : '\n' ∉ digits.take k := fun hmem => h (List.mem_of_mem_take hmem)
  have hdrop (k : Nat) : '\n' ∉ digits.drop k := fun hmem => h (List.mem_of_mem_drop hmem)
  unfold plain
  split
  · cases style.keepsPoint <;> simp [h]
  · dsimp only
    split
    · simp [htake, hdrop]
    · simp [h]

theorem newline_notMem_scientific {digits : List Char} (h : '\n' ∉ digits) (leading : Int) :
    '\n' ∉ style.scientific digits leading := by
  have htext := Numeral.newline_notMem_text (by decide : 10 ≤ 16) leading.natAbs
  have hsign : '\n' ∉
      if leading < 0 then ['-'] else if style.signsExponent then ['+'] else [] := by
    split
    · decide
    · cases style.signsExponent <;> decide
  unfold scientific
  split
  · simp_all
  · simp_all

theorem newline_notMem_render (x : Binary64) : '\n' ∉ (style.render x).toList := by
  have hmagnitude : '\n' ∉
      if x.isInfinite then ['i', 'n', 'f']
      else if x.isZero then style.plain ['0'] 0
      else style.decimal (Binary64.shortest style.half x.rank) := by
    split
    · decide
    · split
      · exact style.newline_notMem_plain (by decide) 0
      · have htext := Numeral.newline_notMem_text (by decide : 10 ≤ 16)
          (Binary64.shortest style.half x.rank).digits
        unfold decimal
        dsimp only
        split
        · exact style.newline_notMem_plain htext _
        · exact style.newline_notMem_scientific htext _
  unfold render
  split
  · decide
  · rw [String.toList_ofList]
    split
    · simp [hmagnitude]
    · exact hmagnitude

end NumberStyle

end Numbers

namespace ExpositionLine

/-- The names and the explanation in a line have no newline. The values of labels may have one. -/
def HasPlainNames : ExpositionLine → Prop
  | .help name text => '\n' ∉ name.toList ∧ '\n' ∉ text.toList
  | .counterType name => '\n' ∉ name.toList
  | .sample name labels _ _ => '\n' ∉ name.toList ∧ ∀ pair ∈ labels, '\n' ∉ pair.1.toList

theorem newline_notMem_escapedChar (c : Char) : '\n' ∉ escapedChar c := by
  unfold escapedChar
  split
  · decide
  · decide
  · decide
  · next hnewline => exact fun h => hnewline (List.mem_singleton.mp h).symm

theorem newline_notMem_label {pair : String × String} (h : '\n' ∉ pair.1.toList) :
    '\n' ∉ (label pair).toList := by
  simp [label, h, newline_notMem_escapedChar]

theorem newline_notMem_intercalate {texts : List (List Char)} (h : ∀ text ∈ texts, '\n' ∉ text) :
    '\n' ∉ [','].intercalate texts := by
  induction texts with
  | nil => decide
  | cons text rest ih =>
      obtain ⟨htext, hrest⟩ := List.forall_mem_cons.mp h
      cases rest with
      | nil => simpa [List.intercalate] using htext
      | cons next rest =>
          have hih := ih hrest
          simp only [List.intercalate, List.intersperse_cons_cons, List.flatten_cons] at hih ⊢
          simp [htext, hih]

theorem newline_notMem_labelSet {labels : List (String × String)}
    (h : ∀ pair ∈ labels, '\n' ∉ pair.1.toList) : '\n' ∉ (labelSet labels).toList := by
  unfold labelSet
  split
  · decide
  · have hlabels : '\n' ∉ (String.intercalate "," (labels.map label)).toList := by
      rw [String.toList_intercalate]
      apply newline_notMem_intercalate
      intro text htext
      obtain ⟨_, hmem, rfl⟩ := List.mem_map.mp htext
      obtain ⟨pair, hpair, rfl⟩ := List.mem_map.mp hmem
      exact newline_notMem_label (h pair hpair)
    simp only [String.toList_append, List.mem_append, not_or]
    exact ⟨⟨by decide, hlabels⟩, by decide⟩

/-- A line takes one line, as newlines in the values of labels are escaped. -/
theorem newline_notMem_text {line : ExpositionLine} (h : line.HasPlainNames) :
    '\n' ∉ line.text.toList := by
  cases line with
  | help name text =>
      change '\n' ∉ ("# HELP " ++ name ++ " " ++ text).toList
      simp [h.1, h.2]
  | counterType name =>
      have hname : '\n' ∉ name.toList := h
      change '\n' ∉ ("# TYPE " ++ name ++ " counter").toList
      simp [hname]
  | sample name labels value time =>
      change '\n' ∉ (name ++ labelSet labels ++ " " ++ NumberStyle.message.render value ++ " " ++
        toString time).toList
      simp only [String.toList_append, List.mem_append, not_or]
      exact ⟨⟨⟨⟨⟨h.1, newline_notMem_labelSet h.2⟩, by decide⟩,
        NumberStyle.message.newline_notMem_render value⟩, by decide⟩, newline_notMem_toString time⟩

end ExpositionLine

namespace Counters

variable (counters : Counters) (time : Int)

theorem hasPlainNames_of_mem_counterLines {name help : String} {labels : List (String × String)}
    {value : UInt64} (hname : '\n' ∉ name.toList) (hhelp : '\n' ∉ help.toList)
    (hlabels : ∀ pair ∈ labels, '\n' ∉ pair.1.toList) :
    ∀ line ∈ counterLines name help labels value time, line.HasPlainNames := by
  simp only [counterLines, List.forall_mem_cons]
  exact ⟨⟨hname, hhelp⟩, hname, ⟨hname, hlabels⟩, nofun⟩

theorem hasPlainNames_of_mem_exposition :
    ∀ line ∈ counters.exposition time, line.HasPlainNames := by
  intro line hline
  have hnone := List.forall_mem_nil fun pair : String × String => '\n' ∉ pair.1.toList
  rcases List.mem_append.mp hline with hplain | herrors
  · rcases List.mem_append.mp hplain with hmem | hmem
    · exact hasPlainNames_of_mem_counterLines time (by decide) (by decide) hnone line hmem
    · exact hasPlainNames_of_mem_counterLines time (by decide) (by decide) hnone line hmem
  · obtain ⟨lines, hlines, hmem⟩ := List.mem_flatten.mp herrors
    obtain ⟨entry, _, rfl⟩ := List.mem_map.mp hlines
    refine hasPlainNames_of_mem_counterLines time (by decide) (by decide) ?_ line hmem
    simp only [ErrorLabel.pairs, List.forall_mem_cons]
    exact ⟨by decide, by decide, nofun⟩

/-- Split at its newlines, the text of an exposition gives the lines, and nothing after the last. -/
theorem splitOn_expositionText : (counters.expositionText time).toList.splitOn '\n' =
    (counters.exposition time).map (fun line => line.text.toList) ++ [[]] := by
  have htext : (counters.expositionText time).toList =
      ((counters.exposition time).map fun line => line.text.toList).flatMap (· ++ ['\n']) := by
    unfold expositionText
    rw [String.toList_join, List.flatMap_map, List.flatMap_map]
    simp only [String.toList_append]
    rfl
  rw [htext]
  apply splitOn_flatMap_concat
  intro text hmem
  obtain ⟨line, hline, rfl⟩ := List.mem_map.mp hmem
  apply ExpositionLine.newline_notMem_text
  exact counters.hasPlainNames_of_mem_exposition time line hline

end Counters

end FeeWindow
