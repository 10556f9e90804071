import FeeWindow.Json
import FeeWindow.Proofs.Traversal

/-!
The forms in which records and choices may stand in JSON. A record is an object, whose names are in
any order and among any others, or the array of its values in the order of their declaration; a
field without a value is null in either, and may be left out of an object. A choice is an object
of one name. Reading takes exactly these forms wherever it takes exactly the forms of the parts.
-/

namespace FeeWindow.Json

/-- In no object, at any depth, do two fields have the same name. -/
inductive HasDistinctNames : Json → Prop
  | null : HasDistinctNames .null
  | bool (b : Bool) : HasDistinctNames (.bool b)
  | int (n : Int) : HasDistinctNames (.int n)
  | float (x : Binary64) : HasDistinctNames (.float x)
  | str (s : String) : HasDistinctNames (.str s)
  | arr {items : List Json} (hitems : ∀ item ∈ items, HasDistinctNames item) :
      HasDistinctNames (.arr items)
  | obj {entries : List (String × Json)} (hnames : (entries.map Prod.fst).Nodup)
      (hvalues : ∀ entry ∈ entries, HasDistinctNames entry.2) : HasDistinctNames (.obj entries)

/-- A field of a given record: its name, the JSON values that may stand for its value, and whether
it may be left out of an object. -/
structure Field where
  name : String
  IsValue : Json → Prop
  mayBeAbsent : Prop

namespace Field

/-- A field whose value stands in one of its forms. -/
def required (name : String) (IsForm : Json → Prop) : Field := ⟨name, IsForm, False⟩

/-- A field that need not have a value; without one it is null or absent. -/
def optional {α : Type} (name : String) (IsForm : α → Json → Prop) (a : Option α) : Field where
  name
  IsValue j :=
    match a with
    | none => j = .null
    | some a => IsForm a j
  mayBeAbsent := a = none

/-- An object has the field, or lacks one that may be absent. -/
def InObject (field : Field) (entries : List (String × Json)) : Prop :=
  (∃ value, (field.name, value) ∈ entries ∧ field.IsValue value) ∨
    (field.mayBeAbsent ∧ field.name ∉ entries.map Prod.fst)

/-- What was found for a field, if anything, may stand for it. -/
def Takes (field : Field) : Option Json → Prop
  | none => field.mayBeAbsent
  | some value => field.IsValue value

end Field

/-- The objects that stand for a record with the given fields. -/
def IsObjectOf (fields : List Field) (j : Json) : Prop :=
  ∃ entries, j = .obj entries ∧ (entries.map Prod.fst).Nodup ∧
    ∀ field ∈ fields, field.InObject entries

/-- The forms of a record with the given fields. -/
def IsRecordOf (fields : List Field) (j : Json) : Prop :=
  IsObjectOf fields j ∨ ∃ items, j = .arr items ∧ List.Forall₂ Field.IsValue fields items

/-- The object that stands for an alternative with some content. -/
def IsVariantOf (name : String) (IsContent : Json → Prop) (j : Json) : Prop :=
  ∃ content, j = .obj [(name, content)] ∧ IsContent content

/-- The forms of an alternative without content. -/
def IsBareVariant (name : String) (j : Json) : Prop :=
  j = .str name ∨ IsVariantOf name (· = .null) j

/-- The arrays of forms of the members of a list. -/
def IsListOf {α : Type} (IsForm : α → Json → Prop) (members : List α) (j : Json) : Prop :=
  ∃ items, j = .arr items ∧ List.Forall₂ IsForm members items

section Lookups

variable {name : String} {value : Json} {entries : List (String × Json)} {field : Field}

theorem lookup_eq_some_of_mem (hnames : (entries.map Prod.fst).Nodup)
    (hmem : (name, value) ∈ entries) : entries.lookup name = some value := by
  obtain ⟨before, after, rfl⟩ := List.append_of_mem hmem
  refine List.lookup_eq_some_iff.mpr ⟨before, after, rfl, ?_⟩
  intro entry hentry
  rw [List.map_append, List.map_cons] at hnames
  obtain ⟨-, -, hdisjoint⟩ := List.nodup_append.mp hnames
  exact bne_iff_ne.mpr (hdisjoint _ (List.mem_map_of_mem hentry) _ List.mem_cons_self).symm

theorem mem_of_lookup_eq_some (h : entries.lookup name = some value) :
    (name, value) ∈ entries := by
  obtain ⟨before, after, rfl, _⟩ := List.lookup_eq_some_iff.mp h
  exact List.mem_append_right before List.mem_cons_self

theorem lookup_eq_none_iff_notMem : entries.lookup name = none ↔ name ∉ entries.map Prod.fst := by
  rw [List.lookup_eq_none_iff]
  constructor
  · intro h hmem
    obtain ⟨entry, hentry, rfl⟩ := List.mem_map.mp hmem
    exact bne_iff_ne.mp (h entry hentry) rfl
  · intro h entry hentry
    refine bne_iff_ne.mpr ?_
    rintro rfl
    exact h (List.mem_map_of_mem hentry)

theorem Field.InObject.takes (h : field.InObject entries)
    (hnames : (entries.map Prod.fst).Nodup) : field.Takes (entries.lookup field.name) := by
  rcases h with ⟨value, hmem, hvalue⟩ | ⟨habsent, hnone⟩
  · rw [lookup_eq_some_of_mem hnames hmem]
    exact hvalue
  · rw [lookup_eq_none_iff_notMem.mpr hnone]
    exact habsent

theorem Field.Takes.inObject (h : field.Takes (entries.lookup field.name)) :
    field.InObject entries := by
  cases hlookup : entries.lookup field.name with
  | none =>
      rw [hlookup] at h
      exact .inr ⟨h, lookup_eq_none_iff_notMem.mp hlookup⟩
  | some value =>
      rw [hlookup] at h
      exact .inl ⟨value, mem_of_lookup_eq_some hlookup, h⟩

end Lookups

section Records

variable {fields : List Field} {names : List String} {j : Json} {values : List (Option Json)}

theorem forall₂_takes_lookup_iff {entries : List (String × Json)} :
    List.Forall₂ Field.Takes fields ((fields.map Field.name).map fun name => entries.lookup name) ↔
      ∀ field ∈ fields, field.Takes (entries.lookup field.name) := by
  rw [List.map_map, List.forall₂_map_right_iff, List.forall₂_same]
  rfl

/-- From every object of a record, values are looked up that may stand for its fields. -/
theorem IsObjectOf.exists_objectRecord?_eq (h : IsObjectOf fields j) :
    ∃ values, j.objectRecord? (fields.map Field.name) = some values ∧
      List.Forall₂ Field.Takes fields values := by
  obtain ⟨entries, rfl, hnames, hfields⟩ := h
  refine ⟨_, rfl, forall₂_takes_lookup_iff.mpr ?_⟩
  intro field hfield
  exact (hfields field hfield).takes hnames

theorem isObjectOf_of_objectRecord? (hj : j.HasDistinctNames)
    (hvalues : j.objectRecord? (fields.map Field.name) = some values)
    (htakes : List.Forall₂ Field.Takes fields values) : IsObjectOf fields j := by
  cases hj with
  | obj hnames _ =>
      obtain rfl := Option.some.inj hvalues
      refine ⟨_, rfl, hnames, ?_⟩
      intro field hfield
      exact (forall₂_takes_lookup_iff.mp htakes field hfield).inObject
  | _ => cases hvalues

/-- From every form of a record, values are read that may stand for its fields. -/
theorem IsRecordOf.exists_record?_eq (h : IsRecordOf fields j) :
    ∃ values, j.record? (fields.map Field.name) 0 = some values ∧
      List.Forall₂ Field.Takes fields values := by
  rcases h with hobject | ⟨items, rfl, hitems⟩
  · obtain ⟨values, hvalues, htakes⟩ := hobject.exists_objectRecord?_eq
    obtain ⟨entries, rfl, _⟩ := hobject
    exact ⟨values, hvalues, htakes⟩
  · have hlength : items.length = (fields.map Field.name).length := by
      rw [List.length_map, hitems.length_eq]
    refine ⟨items.map some, ?_, List.forall₂_map_right_iff.mpr hitems⟩
    rw [record?, if_pos ⟨Nat.le_of_eq hlength, Nat.le_of_eq hlength.symm⟩, hlength, Nat.sub_self,
      List.replicate_zero, List.append_nil]

theorem isRecordOf_of_record? (hj : j.HasDistinctNames)
    (hvalues : j.record? (fields.map Field.name) 0 = some values)
    (htakes : List.Forall₂ Field.Takes fields values) : IsRecordOf fields j := by
  cases hj with
  | obj hnames hentries =>
      exact .inl (isObjectOf_of_objectRecord? (.obj hnames hentries) hvalues htakes)
  | @arr items _ =>
      simp only [record?, Option.ite_none_right_eq_some, Option.some.injEq] at hvalues
      obtain ⟨hsize, rfl⟩ := hvalues
      have hnone : (fields.map Field.name).length - items.length = 0 := by omega
      rw [hnone, List.replicate_zero, List.append_nil, List.forall₂_map_right_iff] at htakes
      exact .inr ⟨items, rfl, htakes⟩
  | _ => cases hvalues

/-- An object that gives every field a value under its name stands for the record. -/
theorem isObjectOf_obj {entries : List (String × Json)} (hdistinct : (entries.map Prod.fst).Nodup)
    (hfields : List.Forall₂ (fun field entry => field.name = entry.1 ∧ field.IsValue entry.2)
      fields entries) : IsObjectOf fields (.obj entries) := by
  refine ⟨entries, rfl, hdistinct, ?_⟩
  intro field hfield
  obtain ⟨entry, hentry, hname, hvalue⟩ := Traversal.exists_mem_of_forall₂ hfields hfield
  refine .inl ⟨entry.2, ?_, hvalue⟩
  rw [hname]
  exact hentry

/-- What is found in a value under names that are distinct at every depth is such a value again. -/
theorem hasDistinctNames_of_objectRecord? (hj : j.HasDistinctNames)
    (hvalues : j.objectRecord? names = some values) :
    ∀ value ∈ values, ∀ found, value = some found → found.HasDistinctNames := by
  rintro _ hvalue found rfl
  cases hj with
  | obj _ hentries =>
      obtain rfl := Option.some.inj hvalues
      obtain ⟨name, _, hlookup⟩ := List.mem_map.mp hvalue
      exact hentries _ (mem_of_lookup_eq_some hlookup)
  | _ => cases hvalues

theorem hasDistinctNames_of_record? (hj : j.HasDistinctNames)
    (hvalues : j.record? names 0 = some values) :
    ∀ value ∈ values, ∀ found, value = some found → found.HasDistinctNames := by
  cases hj with
  | obj hnames hentries =>
      exact hasDistinctNames_of_objectRecord? (.obj hnames hentries) hvalues
  | arr hitems =>
      rintro _ hvalue found rfl
      simp only [record?, Option.ite_none_right_eq_some, Option.some.injEq] at hvalues
      obtain ⟨-, rfl⟩ := hvalues
      rcases List.mem_append.mp hvalue with hmem | hmem
      · obtain ⟨item, hitem, heq⟩ := List.mem_map.mp hmem
        exact Option.some.inj heq ▸ hitems item hitem
      · cases (List.mem_replicate.mp hmem).2
  | _ => cases hvalues

end Records

section Choices

variable {name : String} {j : Json}

theorem choice?_eq_some_some_iff {content : Json} :
    j.choice? = some (name, some content) ↔ j = .obj [(name, content)] := by
  constructor
  · intro h
    unfold choice? at h
    split at h <;> cases h
    rfl
  · rintro rfl
    rfl

theorem choice?_eq_some_none_iff : j.choice? = some (name, none) ↔ j = .str name := by
  constructor
  · intro h
    unfold choice? at h
    split at h <;> cases h
    rfl
  · rintro rfl
    rfl

theorem exists_eq_of_choice?_obj {entries : List (String × Json)} {choice : String × Option Json}
    (h : choice? (.obj entries) = some choice) : ∃ content, entries = [(choice.1, content)] := by
  unfold choice? at h
  split at h
  · next heq => cases heq
  · next name content heq =>
      obtain rfl := Json.obj.inj heq
      obtain rfl := Option.some.inj h
      exact ⟨content, rfl⟩
  · cases h

/-- The content of an alternative has distinct names if the whole choice has. -/
theorem HasDistinctNames.of_choice {content : Json}
    (h : HasDistinctNames (.obj [(name, content)])) : content.HasDistinctNames := by
  cases h with
  | obj _ hentries => exact hentries _ List.mem_cons_self

theorem isBareVariant_iff :
    IsBareVariant name j ↔ ∃ content, j.choice? = some (name, content) ∧ isBare content = true := by
  constructor
  · rintro (rfl | ⟨content, rfl, rfl⟩)
    · exact ⟨none, rfl, rfl⟩
    · exact ⟨some .null, rfl, rfl⟩
  · rintro ⟨content, hchoice, hbare⟩
    unfold isBare at hbare
    split at hbare
    · exact .inl (choice?_eq_some_none_iff.mp hchoice)
    · exact .inr ⟨.null, choice?_eq_some_some_iff.mp hchoice, rfl⟩
    · cases hbare

end Choices

theorem str?_eq_some_iff {j : Json} {s : String} : j.str? = some s ↔ j = .str s := by
  cases j <;> simp [str?]

end FeeWindow.Json
