import FeeWindow.Proofs.Json.Forms

/-!
Values that are written in JSON and read back. Where the values of its fields are written and read
without loss, so is a record, in each of its forms; where no value can be put together without
some of its fields, the record is refused without them.
-/

namespace FeeWindow.Json

/-- A value is written in one of its forms, and exactly its forms are read as that value. -/
structure Lossless {α : Type} (write : α → Json) (read : Json → Option α)
    (IsForm : α → Json → Prop) : Prop where
  isForm_write : ∀ a, IsForm a (write a)
  read_eq : ∀ {a j}, IsForm a j → read j = some a
  isForm_of_read : ∀ {a j}, j.HasDistinctNames → read j = some a → IsForm a j

namespace Lossless

variable {α : Type} {write : α → Json} {read : Json → Option α} {IsForm : α → Json → Prop}

theorem required_eq (h : Lossless write read IsForm) {name : String} {a : α} {value : Option Json}
    (htakes : (Field.required name (IsForm a)).Takes value) : required read value = some a := by
  cases value with
  | none => cases htakes
  | some j => exact h.read_eq htakes

theorem takes_required (h : Lossless write read IsForm) {name : String} {a : α}
    {value : Option Json} (hnames : ∀ j, value = some j → j.HasDistinctNames)
    (hread : required read value = some a) : (Field.required name (IsForm a)).Takes value := by
  cases value with
  | none => cases hread
  | some j => exact h.isForm_of_read (hnames j rfl) hread

theorem optional_eq (h : Lossless write read IsForm) (hnull : read .null = none) {name : String}
    {a : Option α} {value : Option Json} (htakes : (Field.optional name IsForm a).Takes value) :
    optional read value = some a := by
  cases a with
  | none =>
      cases value with
      | none => rfl
      | some j =>
          obtain rfl : j = .null := htakes
          rfl
  | some a =>
      cases value with
      | none => cases htakes
      | some j =>
          have hread : read j = some a := h.read_eq htakes
          cases j with
          | null =>
              rw [hnull] at hread
              cases hread
          | _ =>
              change (read _).map some = _
              rw [hread]
              rfl

theorem isValue_ofOption (h : Lossless write read IsForm) {name : String} (a : Option α) :
    (Field.optional name IsForm a).IsValue (ofOption write a) := by
  cases a with
  | none => rfl
  | some a => exact h.isForm_write a

theorem takes_optional (h : Lossless write read IsForm) {name : String} {a : Option α}
    {value : Option Json} (hnames : ∀ j, value = some j → j.HasDistinctNames)
    (hread : optional read value = some a) : (Field.optional name IsForm a).Takes value := by
  unfold optional at hread
  split at hread
  · obtain rfl := Option.some.inj hread
    trivial
  · obtain rfl := Option.some.inj hread
    rfl
  · next j _ =>
      obtain ⟨b, hb, rfl⟩ := Option.map_eq_some_iff.mp hread
      exact h.isForm_of_read (hnames j rfl) hb

theorem list (h : Lossless write read IsForm) :
    Lossless (ofList write) (list? read) (IsListOf IsForm) where
  isForm_write members := by
    refine ⟨_, rfl, ?_⟩
    rw [List.forall₂_map_right_iff, List.forall₂_same]
    exact fun a _ => h.isForm_write a
  read_eq := by
    rintro members _ ⟨items, rfl, hitems⟩
    exact Traversal.mapM_eq_some_iff.mpr (hitems.flip.imp fun _ _ => h.read_eq)
  isForm_of_read := by
    intro members j hj hread
    cases hj with
    | @arr items hnames =>
        have hreads := Traversal.mapM_eq_some_iff.mp hread
        have hforms := ((List.forall₂_and_left _ _).mpr ⟨hnames, hreads⟩).imp fun _ _ hitem =>
          h.isForm_of_read hitem.1 hitem.2
        exact ⟨items, rfl, hforms.flip⟩
    | _ => cases hread

/-- A record is written in one of its forms, and exactly its forms are read as it, if that holds of
the values that are found for its fields. -/
theorem record (fields : α → List Field) {names : List String}
    {ofValues? : List (Option Json) → Option α} (hnames : ∀ a, (fields a).map Field.name = names)
    (hwrite : ∀ a, IsObjectOf (fields a) (write a))
    (hread : ∀ {a values}, List.Forall₂ Field.Takes (fields a) values → ofValues? values = some a)
    (htakes : ∀ {a values},
      (∀ value ∈ values, ∀ found, value = some found → HasDistinctNames found) →
      ofValues? values = some a → List.Forall₂ Field.Takes (fields a) values) :
    Lossless write (fun j => (j.record? names 0).bind ofValues?)
      (fun a => IsRecordOf (fields a)) where
  isForm_write a := .inl (hwrite a)
  read_eq := by
    intro a j h
    obtain ⟨values, hvalues, htakes⟩ := h.exists_record?_eq
    rw [hnames] at hvalues
    rw [hvalues, Option.bind_some, hread htakes]
  isForm_of_read := by
    intro a j hj h
    obtain ⟨values, hvalues, h⟩ := Option.bind_eq_some_iff.mp h
    have hfields := htakes (hasDistinctNames_of_record? hj hvalues) h
    rw [← hnames a] at hvalues
    exact isRecordOf_of_record? hj hvalues hfields

end Lossless

/-- No object is read that lacks a required name. -/
def RefusesLacking {α : Type} (read : Json → Option α) (required : List String) : Prop :=
  ∀ entries, ∀ name ∈ required, name ∉ entries.map Prod.fst → read (.obj entries) = none

/-- A record is written and read without loss, and refused without a required field or with too
many or too few values. -/
structure RecordCodec {α : Type} (write : α → Json) (read : Json → Option α)
    (fields : α → List Field) (required : List String) (size : Nat) : Prop extends
    Lossless write read fun a => IsRecordOf (fields a) where
  refuses_lacking : RefusesLacking read required
  refuses_size : ∀ items, items.length ≠ size → read (.arr items) = none

/-- A choice is written and read without loss, and an object is refused that does not hold
exactly one name, that of an alternative. -/
structure ChoiceCodec {α : Type} (write : α → Json) (read : Json → Option α)
    (IsForm : α → Json → Prop) (names : List String) : Prop extends
    Lossless write read IsForm where
  refuses_others : ∀ entries, (¬ ∃ name ∈ names, ∃ content, entries = [(name, content)]) →
    read (.obj entries) = none

/-- The content of an alternative is an object, and refused without a required field. -/
structure RefusesContents {α : Type} (read : Json → Option α) (required : List String) : Prop where
  refuses_lacking : RefusesLacking read required
  refuses_arr : ∀ items, read (.arr items) = none

section Codecs

variable {α : Type} {write : α → Json} {names : List String}

/-- A record that no value can be put together for without a required field. -/
theorem RecordCodec.of_lossless {ofValues? : List (Option Json) → Option α}
    {fields : α → List Field} {required : List String}
    (hlossless : Lossless write (fun j => (j.record? names 0).bind ofValues?)
      fun a => IsRecordOf (fields a))
    (hlacking : ∀ find : String → Option Json, ∀ name ∈ required, find name = none →
      ofValues? (names.map find) = none) :
    RecordCodec write (fun j => (j.record? names 0).bind ofValues?) fields required
      names.length where
  toLossless := hlossless
  refuses_lacking entries name hname hmissing :=
    hlacking (fun name => entries.lookup name) name hname
      (lookup_eq_none_iff_notMem.mpr hmissing)
  refuses_size items hsize := by
    have hnone : record? names 0 (.arr items) = none := by
      rw [record?, if_neg]
      omega
    rw [hnone, Option.bind_none]

/-- A record of two fields, both required, is put together from the values of both. -/
theorem RecordCodec.of_pair {β γ : Type} {writeFirst : β → Json} {writeSecond : γ → Json}
    {readFirst : Json → Option β} {readSecond : Json → Option γ} {IsFirst : β → Json → Prop}
    {IsSecond : γ → Json → Prop} (hfirst : Lossless writeFirst readFirst IsFirst)
    (hsecond : Lossless writeSecond readSecond IsSecond) {name other : String}
    (hnames : [name, other].Nodup) (make : β → γ → α) (first : α → β) (second : α → γ)
    (hmake : ∀ a, make (first a) (second a) = a)
    (hparts : ∀ b c, first (make b c) = b ∧ second (make b c) = c) :
    RecordCodec (fun a => .obj [(name, writeFirst (first a)), (other, writeSecond (second a))])
      (fun j => (j.record? [name, other] 0).bind fun values =>
        match values with
        | [b, c] => (Json.required readFirst b).bind fun b =>
            (Json.required readSecond c).bind fun c => some (make b c)
        | _ => none)
      (fun a => [.required name (IsFirst (first a)), .required other (IsSecond (second a))])
      [name, other] 2 := by
  refine RecordCodec.of_lossless (Lossless.record _ (fun _ => rfl) ?_ ?_ ?_) ?_
  · intro a
    refine isObjectOf_obj hnames ?_
    exact .cons ⟨rfl, hfirst.isForm_write _⟩ (.cons ⟨rfl, hsecond.isForm_write _⟩ .nil)
  · intro a values h
    rcases h with _ | ⟨hb, _ | ⟨hc, ⟨⟩⟩⟩
    simp only [hfirst.required_eq hb, hsecond.required_eq hc, Option.bind_some, hmake]
  · intro a values hdistinct h
    split at h
    · simp only [List.forall_mem_cons] at hdistinct
      obtain ⟨hnamesFirst, hnamesSecond, -⟩ := hdistinct
      obtain ⟨b, hb, h⟩ := Option.bind_eq_some_iff.mp h
      obtain ⟨c, hc, h⟩ := Option.bind_eq_some_iff.mp h
      obtain rfl := Option.some.inj h
      rw [(hparts b c).1, (hparts b c).2]
      exact .cons (hfirst.takes_required hnamesFirst hb) (
        .cons (hsecond.takes_required hnamesSecond hc) .nil)
    · cases h
  · intro find found hfound hnone
    simp only [List.mem_cons, List.not_mem_nil, or_false] at hfound
    rcases hfound with rfl | rfl
    · simp [hnone, Json.required]
    · simp [hnone, Json.required]

/-- A choice that is refused under a name that is not that of an alternative. -/
theorem ChoiceCodec.of_lossless {ofChoice? : String × Option Json → Option α}
    {IsForm : α → Json → Prop}
    (hlossless : Lossless write (fun j => j.choice?.bind ofChoice?) IsForm)
    (hothers : ∀ name ∉ names, ∀ content, ofChoice? (name, content) = none) :
    ChoiceCodec write (fun j => j.choice?.bind ofChoice?) IsForm names where
  toLossless := hlossless
  refuses_others entries hentries := by
    cases hchoice : choice? (.obj entries) with
    | none => rfl
    | some choice =>
        obtain ⟨content, rfl⟩ := exists_eq_of_choice?_obj hchoice
        refine hothers choice.1 ?_ choice.2
        intro hname
        exact hentries ⟨choice.1, hname, content, rfl⟩

end Codecs

end FeeWindow.Json
