import Mathlib.Data.List.Forall2
import Mathlib.Tactic.Common

/-!
Lists that are gone through until something fails. In a list that is strictly ordered, the first
member with a property is the least one; a traversal that can fail ends with the failure of the
first member that fails, and otherwise with one result a member.
-/

namespace FeeWindow.Traversal

/-- The first member with a property, in a list ordered by an asymmetric relation, is the one
that comes before all others with the property. -/
theorem find?_eq_some_iff_least {α : Type} {R : α → α → Prop} {p : α → Bool} {l : List α}
    (hl : l.Pairwise R) (hasymm : ∀ a b, R a b → ¬ R b a) {a : α} :
    l.find? p = some a ↔ a ∈ l ∧ p a = true ∧ ∀ b ∈ l, p b = true → b = a ∨ R a b := by
  induction hl with
  | nil => simp
  | @cons x l hx hl ih =>
      by_cases hp : p x = true
      · rw [List.find?_cons_of_pos hp]
        constructor
        · intro h
          obtain rfl := Option.some.inj h
          refine ⟨List.mem_cons_self, hp, ?_⟩
          intro b hb _
          exact (List.mem_cons.mp hb).imp id (hx b)
        · rintro ⟨ha, _, hleast⟩
          rcases List.mem_cons.mp ha with rfl | ha
          · rfl
          · rcases hleast x List.mem_cons_self hp with rfl | hax
            · rfl
            · exact absurd hax (hasymm x a (hx a ha))
      · rw [List.find?_cons_of_neg hp, ih]
        constructor
        · rintro ⟨ha, hpa, hleast⟩
          refine ⟨List.mem_cons_of_mem x ha, hpa, ?_⟩
          intro b hb hpb
          rcases List.mem_cons.mp hb with rfl | hb
          · exact absurd hpb hp
          · exact hleast b hb hpb
        · rintro ⟨ha, hpa, hleast⟩
          rcases List.mem_cons.mp ha with rfl | ha
          · exact absurd hpa hp
          · exact ⟨ha, hpa, fun b hb => hleast b (List.mem_cons_of_mem x hb)⟩

/-- Where only the members of a front part have images, each image stands where its member
stands. -/
theorem getElem?_filterMap_of_pairwise {α β : Type} {f : α → Option β} {l : List α}
    (h : l.Pairwise fun a b => (f b).isSome = true → (f a).isSome = true) (i : Nat) :
    (l.filterMap f)[i]? = l[i]?.bind f := by
  induction h generalizing i with
  | nil => rfl
  | @cons a l ha _ ih =>
      cases hfa : f a with
      | some b =>
          rw [List.filterMap_cons_some hfa]
          cases i with
          | zero => exact hfa.symm
          | succ i => exact ih i
      | none =>
          have hnone (c : α) (hc : c ∈ a :: l) : f c = none := by
            rcases List.mem_cons.mp hc with rfl | hc
            · exact hfa
            · rw [← Option.not_isSome_iff_eq_none]
              intro hsome
              rw [hfa] at ha
              exact Bool.false_ne_true (ha c hc hsome)
          rw [List.filterMap_eq_nil_iff.mpr hnone, List.getElem?_nil]
          cases hplace : (a :: l)[i]? with
          | none => rfl
          | some c => exact (hnone c (List.mem_of_getElem? hplace)).symm

/-- Nothing is skipped where everything has an image. -/
theorem getElem?_filterMap_of_isSome {α β : Type} {f : α → Option β} {l : List α}
    (h : ∀ a ∈ l, (f a).isSome = true) (i : Nat) : (l.filterMap f)[i]? = l[i]?.bind f := by
  apply getElem?_filterMap_of_pairwise
  apply List.pairwise_of_forall_mem_list
  intro a ha _ _ _
  exact h a ha

/-- A member of a list has a partner in a list that is matched with it. -/
theorem exists_mem_of_forall₂ {α β : Type} {R : α → β → Prop} {l : List α} {l' : List β}
    (h : List.Forall₂ R l l') {a : α} (ha : a ∈ l) : ∃ b ∈ l', R a b := by
  induction h with
  | nil => cases ha
  | @cons x y l l' hxy _ ih =>
      rcases List.mem_cons.mp ha with rfl | ha
      · exact ⟨y, List.mem_cons_self, hxy⟩
      · obtain ⟨b, hb, hab⟩ := ih ha
        exact ⟨b, List.mem_cons_of_mem y hb, hab⟩

/-- Reading a list succeeds exactly with what each member is read as. -/
theorem mapM_eq_some_iff {α β : Type} {f : α → Option β} {l : List α} {results : List β} :
    l.mapM f = some results ↔ List.Forall₂ (fun a b => f a = some b) l results := by
  induction l generalizing results with
  | nil =>
      rw [List.mapM_nil, List.forall₂_nil_left_iff]
      exact ⟨fun h => (Option.some.inj h).symm, fun h => congrArg some h.symm⟩
  | cons a l ih =>
      rw [List.mapM_cons, List.forall₂_cons_left_iff]
      constructor
      · intro h
        obtain ⟨b, ha, h⟩ := Option.bind_eq_some_iff.mp h
        obtain ⟨rest, hrest, h⟩ := Option.bind_eq_some_iff.mp h
        exact ⟨b, rest, ha, ih.mp hrest, (Option.some.inj h).symm⟩
      · rintro ⟨b, rest, ha, hrest, rfl⟩
        rw [ha, ih.mpr hrest]
        rfl

/-- Where each member can be read back from what it is read as, so can the list. -/
theorem mapM_eq_some_iff_eq_map {α β : Type} {read : α → Option β} {write : β → α}
    (h : ∀ a b, read a = some b ↔ a = write b) {l : List α} {results : List β} :
    l.mapM read = some results ↔ l = results.map write := by
  simp only [mapM_eq_some_iff, h]
  rw [← List.forall₂_map_right_iff (R := Eq), List.forall₂_eq_eq_eq]

variable {α β ε : Type} {f : α → Except ε β}

def fails (result : Except ε β) : Bool := !result.isOk

theorem fails_iff {result : Except ε β} : fails result = true ↔ ∃ e, result = .error e := by
  cases result with
  | error e => exact ⟨fun _ => ⟨e, rfl⟩, fun _ => rfl⟩
  | ok b => exact ⟨fun h => (by cases h), fun ⟨_, h⟩ => (by cases h)⟩

/-- A traversal succeeds exactly with the results of its members. -/
theorem mapM_eq_ok_iff {l : List α} {results : List β} :
    l.mapM f = .ok results ↔ List.Forall₂ (fun a b => f a = .ok b) l results := by
  induction l generalizing results with
  | nil =>
      rw [List.mapM_nil, List.forall₂_nil_left_iff]
      exact ⟨fun h => (Except.ok.inj h).symm, fun h => congrArg Except.ok h.symm⟩
  | cons a l ih =>
      rw [List.mapM_cons, List.forall₂_cons_left_iff]
      constructor
      · intro h
        cases ha : f a with
        | error e => rw [ha] at h; cases h
        | ok b =>
            cases hrest : l.mapM f with
            | error e => rw [ha, hrest] at h; cases h
            | ok rest =>
                rw [ha, hrest] at h
                exact ⟨b, rest, rfl, ih.mp hrest, (Except.ok.inj h).symm⟩
      · rintro ⟨b, rest, ha, hrest, rfl⟩
        rw [ha, ih.mpr hrest]
        rfl

/-- A traversal asks its function for the members of the list only. -/
theorem mapM_congr {g : α → Except ε β} {l : List α} (h : ∀ a ∈ l, f a = g a) :
    l.mapM f = l.mapM g := by
  induction l with
  | nil => rfl
  | cons a l ih =>
      have hhead : f a = g a := h a List.mem_cons_self
      have htail : l.mapM f = l.mapM g := ih fun b hb => h b (List.mem_cons_of_mem a hb)
      rw [List.mapM_cons, List.mapM_cons, hhead, htail]

theorem length_of_mapM_eq_ok {l : List α} {results : List β} (h : l.mapM f = .ok results) :
    results.length = l.length :=
  (mapM_eq_ok_iff.mp h).length_eq.symm

/-- The result of a member stands where the member stands. -/
theorem getElem?_of_mapM_eq_ok {l : List α} {results : List β} (h : l.mapM f = .ok results)
    {i : Nat} {a : α} (ha : l[i]? = some a) : ∃ b, results[i]? = some b ∧ f a = .ok b := by
  have hpairs := mapM_eq_ok_iff.mp h
  clear h
  induction hpairs generalizing i with
  | nil => cases ha
  | @cons x b l results hx _ ih =>
      cases i with
      | zero =>
          obtain rfl := Option.some.inj ha
          exact ⟨b, rfl, hx⟩
      | succ i => exact ih ha

/-- A traversal fails exactly with the failure of its first member that fails. -/
theorem mapM_eq_error_iff {l : List α} {e : ε} :
    l.mapM f = .error e ↔ ∃ a, l.find? (fun a => fails (f a)) = some a ∧ f a = .error e := by
  induction l with
  | nil =>
      rw [List.mapM_nil]
      constructor
      · intro h
        cases h
      · rintro ⟨a, ha, _⟩
        cases ha
  | cons a l ih =>
      rw [List.mapM_cons]
      cases ha : f a with
      | error failure =>
          have hfails : fails (f a) = true := fails_iff.mpr ⟨failure, ha⟩
          rw [List.find?_cons_of_pos (p := fun a => fails (f a)) hfails]
          constructor
          · intro h
            exact ⟨a, rfl, ha.trans (congrArg Except.error (Except.error.inj h))⟩
          · rintro ⟨b, hb, hfb⟩
            obtain rfl := Option.some.inj hb
            rw [ha] at hfb
            exact congrArg Except.error (Except.error.inj hfb)
      | ok b =>
          have hpasses : ¬ fails (f a) = true := by
            rw [ha]
            exact Bool.false_ne_true
          rw [List.find?_cons_of_neg (p := fun a => fails (f a)) hpasses, ← ih]
          cases l.mapM f with
          | error failure => exact Iff.rfl
          | ok rest => exact ⟨fun h => (by cases h), fun h => (by cases h)⟩

end FeeWindow.Traversal
