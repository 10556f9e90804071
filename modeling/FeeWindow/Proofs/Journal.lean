import FeeWindow.Journal
import Mathlib.Data.List.Induction
import Mathlib.Tactic.Common

/-!
What a log holds after any events. Every event makes one entry, numbered in turn across both
levels. Of the entries of a level the log keeps the last thousand in order, so its numbers ascend
within a level and none is there twice.
-/

namespace FeeWindow

namespace Buffer

variable {buffer : Buffer} {entries : List Entry}

/-- A buffer holds the newest of all entries that were added to it. -/
def Keeps (buffer : Buffer) (entries : List Entry) : Prop :=
  buffer.newestFirst = entries.reverse.take bufferCapacity

theorem keeps_empty : empty.Keeps [] := rfl

theorem Keeps.push (h : buffer.Keeps entries) (entry : Entry) :
    (buffer.push entry).Keeps (entries ++ [entry]) := by
  have hpositive : bufferCapacity = 999 + 1 := rfl
  unfold Keeps at h ⊢
  unfold Buffer.push
  rw [h, List.reverse_concat, hpositive, List.take_succ_cons, List.take_succ_cons, List.take_take]
  rfl

theorem Keeps.toList_eq (h : buffer.Keeps entries) :
    buffer.toList = entries.drop (entries.length - bufferCapacity) := by
  unfold Keeps at h
  unfold Buffer.toList
  rw [h, List.take_reverse, List.reverse_reverse]

end Buffer

namespace Journal

variable (journal : Journal) (events : List Event)

def appendAll : Journal := events.foldl append journal

/-- The entry that an event makes, with its level. -/
def entryFor (event : Event) : Level × Entry :=
  (event.level, ⟨journal.count + 1, event.origin, event.message⟩)

@[simp] theorem fst_entryFor (event : Event) : (journal.entryFor event).1 = event.level := rfl

/-- The entries that events make one after another, whether they are still kept or not. -/
def made (journal : Journal) : List Event → List (Level × Entry)
  | [] => []
  | event :: rest => journal.entryFor event :: (journal.append event).made rest

/-- The entries of one level among those made. -/
def atLevel (level : Level) (entries : List (Level × Entry)) : List Entry :=
  (entries.filter fun entry => entry.1 = level).map Prod.snd

def buffer (journal : Journal) : Level → Buffer
  | .info => journal.info
  | .debug => journal.debug

theorem entries_eq_toList (level : Level) :
    journal.entries level = (journal.buffer level).toList := by
  cases level <;> rfl

@[simp] theorem count_append (event : Event) :
    (journal.append event).count = journal.count + 1 := by
  unfold append
  cases event.level <;> rfl

/-- An event is added to the buffer of its level and leaves the other one as it is. -/
theorem buffer_append (event : Event) (level : Level) : (journal.append event).buffer level =
    if event.level = level then (journal.buffer level).push (journal.entryFor event).2
    else journal.buffer level := by
  unfold append
  cases hevent : event.level <;> cases level <;> rfl

theorem appendAll_concat (event : Event) :
    journal.appendAll (events ++ [event]) = (journal.appendAll events).append event := by
  simp [appendAll]

theorem made_concat (event : Event) : journal.made (events ++ [event]) =
    journal.made events ++ [(journal.appendAll events).entryFor event] := by
  induction events generalizing journal with
  | nil => rfl
  | cons first rest ih => simp [made, ih, appendAll]

theorem map_fst_made : (journal.made events).map Prod.fst = events.map Event.level := by
  induction events generalizing journal with
  | nil => rfl
  | cons event rest ih => simp only [made, List.map_cons, ih, entryFor]

theorem length_made : (journal.made events).length = events.length := by
  have h := congrArg List.length (map_fst_made journal events)
  simpa using h

/-- The entries are numbered one after another, whatever their levels. -/
theorem map_counter_made : (journal.made events).map (fun entry => entry.2.counter) =
    List.range' (journal.count + 1) events.length := by
  induction events generalizing journal with
  | nil => rfl
  | cons event rest ih =>
      simp only [made, List.map_cons, ih, entryFor, count_append, List.length_cons,
        List.range'_succ]

theorem atLevel_concat (entries : List (Level × Entry)) (entry : Level × Entry) (level : Level) :
    atLevel level (entries ++ [entry]) =
      if entry.1 = level then atLevel level entries ++ [entry.2] else atLevel level entries := by
  unfold atLevel
  by_cases h : entry.1 = level <;> simp [h]

theorem keeps_appendAll (level : Level) :
    ((empty.appendAll events).buffer level).Keeps (atLevel level (empty.made events)) := by
  -- The last event is taken off, since a push looks at the newest end of the buffer.
  induction events using List.reverseRecOn with
  | nil => cases level <;> exact Buffer.keeps_empty
  | append_singleton events event ih =>
      rw [appendAll_concat, made_concat, buffer_append, atLevel_concat, fst_entryFor]
      by_cases hlevel : event.level = level
      · rw [if_pos hlevel, if_pos hlevel]
        exact ih.push _
      · rw [if_neg hlevel, if_neg hlevel]
        exact ih

/-- Of the entries made at a level the last thousand are kept, in order. -/
theorem entries_appendAll (level : Level) : (empty.appendAll events).entries level =
    (atLevel level (empty.made events)).drop
      ((atLevel level (empty.made events)).length - bufferCapacity) := by
  rw [entries_eq_toList]
  exact (keeps_appendAll events level).toList_eq

theorem pairwise_counter_made :
    (journal.made events).Pairwise fun a b => a.2.counter < b.2.counter := by
  rw [← List.pairwise_map, map_counter_made]
  exact List.pairwise_lt_range'

theorem pairwise_counter_atLevel (level : Level) :
    (atLevel level (journal.made events)).Pairwise fun a b => a.counter < b.counter := by
  unfold atLevel
  rw [List.pairwise_map]
  exact (pairwise_counter_made journal events).filter _

/-- Within a level the numbers of the kept entries ascend. -/
theorem pairwise_counter_entries (level : Level) :
    ((empty.appendAll events).entries level).Pairwise fun a b => a.counter < b.counter := by
  rw [entries_appendAll]
  exact (pairwise_counter_atLevel empty events level).sublist (List.drop_sublist _ _)

/-- The entries of both levels together are all entries made. -/
theorem atLevel_append_perm (entries : List (Level × Entry)) :
    (atLevel .info entries ++ atLevel .debug entries).Perm (entries.map Prod.snd) := by
  have hdebug : entries.filter (fun entry => entry.1 = Level.debug) =
      entries.filter (fun entry => !decide (entry.1 = Level.info)) := by
    apply List.filter_congr
    rintro ⟨level, entry⟩ _
    cases level <;> rfl
  unfold atLevel
  rw [← List.map_append, hdebug]
  exact (List.filter_append_perm _ entries).map Prod.snd

theorem all_eq_append : journal.all =
    (journal.entries .info).map (Level.info, ·) ++
      (journal.entries .debug).map (Level.debug, ·) := by
  simp [all, snapshot]

/-- No number is kept twice, within a level or across both. -/
theorem nodup_counter_all :
    ((empty.appendAll events).all.map fun entry => entry.2.counter).Nodup := by
  have hall : (empty.appendAll events).all.map (fun entry => entry.2.counter) =
      ((empty.appendAll events).entries .info ++ (empty.appendAll events).entries .debug).map
        Entry.counter := by
    simp [all_eq_append, Function.comp_def]
  -- What is kept is a part of what was made, and the numbers of that are a range.
  have hsublist : ((empty.appendAll events).entries .info ++
      (empty.appendAll events).entries .debug).Sublist
        (atLevel .info (empty.made events) ++ atLevel .debug (empty.made events)) := by
    rw [entries_appendAll, entries_appendAll]
    exact (List.drop_sublist _ _).append (List.drop_sublist _ _)
  have hmade : ((empty.made events).map Prod.snd).map Entry.counter =
      List.range' (empty.count + 1) events.length := by
    rw [List.map_map]
    exact map_counter_made empty events
  rw [hall]
  apply (hsublist.map Entry.counter).nodup
  rw [((atLevel_append_perm (empty.made events)).map Entry.counter).nodup_iff, hmade]
  exact List.nodup_range'

end Journal

end FeeWindow
