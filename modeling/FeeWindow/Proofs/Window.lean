import FeeWindow.Chain.Store
import FeeWindow.Proofs.Amount.Arithmetic
import FeeWindow.Window
import Mathlib.Data.List.Basic
import Mathlib.Tactic.Common

/-!
A window holds exactly the consecutive numbers between its ends, ascending and each once. The
walk along a window is compared with a range of natural numbers, from which membership, order,
number of blocks and the joining of neighbouring windows are read off. The blocks of a window are
then the stored blocks with these numbers, and its headers are the headers of these blocks.
-/

namespace FeeWindow

theorem ChainStore.header?_of_block? {store : ChainStore} {n : BlockNumber} {block : Block}
    (h : store.block? n = some block) : store.header? n = some block.header := by
  unfold header?
  rw [h]
  rfl

theorem ChainStore.isSome_header? {store : ChainStore} {n : BlockNumber} :
    (store.header? n).isSome = (store.block? n).isSome :=
  Option.isSome_map

namespace Window

variable {window : Window} {n m : BlockNumber}

theorem after?_eq_some :
    window.after? n = some m ↔ m.val = n.val + 1 ∧ m ≤ window.newest := by
  unfold after?
  rw [Option.filter_eq_some_iff, Amount.succ?_eq_some, decide_eq_true_iff]

/-- The walk stops at the newest number, also where that is the largest one there is. -/
theorem after?_eq_none : window.after? n = none ↔ window.newest.val ≤ n.val := by
  constructor
  · intro h
    by_contra hlt
    have hnewest := window.newest.val_lt
    have hin : n.val + 1 < Nat.pow 2 256 := by omega
    have hafter : window.after? n = some ⟨n.val + 1, hin⟩ :=
      after?_eq_some.mpr ⟨rfl, show n.val + 1 ≤ window.newest.val by omega⟩
    rw [h] at hafter
    cases hafter
  · intro h
    cases hafter : window.after? n with
    | none => rfl
    | some m =>
        obtain ⟨hval, hle⟩ := after?_eq_some.mp hafter
        have hle : m.val ≤ window.newest.val := hle
        omega

theorem next?_eq_some : window.next? = some n ↔ n.val = window.newest.val + 1 :=
  Amount.succ?_eq_some

theorem next?_eq_none : window.next? = none ↔ window.newest = Amount.largest :=
  Amount.succ?_eq_none

/-- A walk that starts inside the window lists the consecutive numbers from its start, as many
as asked for or as there are. -/
theorem map_val_walk (window : Window) (limit : Nat) (n : BlockNumber)
    (hn : n ≤ window.newest) :
    (window.walk limit n).map Amount.val =
      List.range' n.val (min limit (window.newest.val - n.val + 1)) := by
  induction limit generalizing n with
  | zero => simp [walk]
  | succ limit ih =>
      have hle : n.val ≤ window.newest.val := hn
      cases hafter : window.after? n with
      | none =>
          have hend := after?_eq_none.mp hafter
          have hcount : min (limit + 1) (window.newest.val - n.val + 1) = 1 := by omega
          simp [walk, hafter, hcount]
      | some m =>
          obtain ⟨hval, hm⟩ := after?_eq_some.mp hafter
          have hm' : m.val ≤ window.newest.val := hm
          have hcount : min (limit + 1) (window.newest.val - n.val + 1) =
              min limit (window.newest.val - m.val + 1) + 1 := by omega
          simp only [walk, hafter, List.map_cons, ih m hm]
          rw [hcount, List.range'_succ, hval]

theorem map_val_firstNumbers (window : Window) (limit : Nat) :
    (window.firstNumbers limit).map Amount.val =
      List.range' window.oldest.val (min limit window.size) :=
  map_val_walk window limit window.oldest window.oldest_le_newest

theorem map_val_numbers (window : Window) :
    window.numbers.map Amount.val = List.range' window.oldest.val window.size := by
  unfold numbers
  rw [map_val_firstNumbers, Nat.min_self]

@[simp] theorem length_numbers (window : Window) : window.numbers.length = window.size := by
  have h := congrArg List.length (map_val_numbers window)
  simpa using h

theorem mem_numbers : n ∈ window.numbers ↔ window.oldest ≤ n ∧ n ≤ window.newest := by
  have hends : window.oldest.val ≤ window.newest.val := window.oldest_le_newest
  rw [← List.mem_map_of_injective Amount.val_injective, map_val_numbers, List.mem_range'_1]
  unfold size
  constructor
  · rintro ⟨hlow, hhigh⟩
    exact ⟨hlow, show n.val ≤ window.newest.val by omega⟩
  · rintro ⟨hlow, hhigh⟩
    have hhigh : n.val ≤ window.newest.val := hhigh
    exact ⟨hlow, by omega⟩

theorem pairwise_numbers (window : Window) : window.numbers.Pairwise (· < ·) := by
  have h : (window.numbers.map Amount.val).Pairwise (· < ·) := by
    rw [map_val_numbers]
    exact List.pairwise_lt_range'
  rw [List.pairwise_map] at h
  exact h

theorem getElem?_numbers {i : Nat} :
    window.numbers[i]? = some n ↔ n.val = window.oldest.val + i ∧ n ≤ window.newest := by
  have hends : window.oldest.val ≤ window.newest.val := window.oldest_le_newest
  have hmap : (window.numbers[i]?).map Amount.val =
      (List.range' window.oldest.val window.size)[i]? := by
    rw [← List.getElem?_map, map_val_numbers]
  constructor
  · intro h
    rw [h, Option.map_some] at hmap
    obtain ⟨hi, hval⟩ := List.getElem?_eq_some_iff.mp hmap.symm
    rw [List.length_range'] at hi
    rw [List.getElem_range'] at hval
    unfold size at hi
    exact ⟨by omega, show n.val ≤ window.newest.val by omega⟩
  · rintro ⟨hval, hle⟩
    have hle : n.val ≤ window.newest.val := hle
    have hi : i < window.size := by unfold size; omega
    rw [List.getElem?_range' hi] at hmap
    obtain ⟨m, hm, hmval⟩ := Option.map_eq_some_iff.mp hmap
    have : m = n := Amount.ext (by omega)
    rw [hm, this]

/-- Two neighbouring windows have the numbers of the window that covers both. -/
theorem numbers_append {older newer joint : Window}
    (hnext : newer.oldest.val = older.newest.val + 1)
    (holdest : joint.oldest = older.oldest) (hnewest : joint.newest = newer.newest) :
    joint.numbers = older.numbers ++ newer.numbers := by
  have holder : older.oldest.val ≤ older.newest.val := older.oldest_le_newest
  have hnewer : newer.oldest.val ≤ newer.newest.val := newer.oldest_le_newest
  apply List.map_injective_iff.mpr Amount.val_injective
  rw [List.map_append, map_val_numbers, map_val_numbers, map_val_numbers, holdest]
  have hstart : newer.oldest.val = older.oldest.val + older.size := by
    unfold size
    omega
  have hsize : joint.size = older.size + newer.size := by
    unfold size
    rw [holdest, hnewest]
    omega
  rw [hstart, hsize, List.range'_append_1]

@[simp] theorem newest_ending (blockCount : UInt64) (highest : BlockNumber) :
    (ending blockCount highest).newest = highest := rfl

@[simp] theorem val_oldest_ending (blockCount : UInt64) (highest : BlockNumber) :
    (ending blockCount highest).oldest.val = highest.val - (blockCount.toNat - 1) := by
  have hcount := blockCount.toNat_lt
  have hword : (UInt64.ofNat (blockCount.toNat - 1)).toNat = blockCount.toNat - 1 :=
    UInt64.toNat_ofNat_of_lt' (show blockCount.toNat - 1 < 2 ^ 64 by omega)
  simp only [ending, Amount.val_subClamped, Amount.val_ofUInt64, hword]

theorem size_ending (blockCount : UInt64) (highest : BlockNumber) :
    (ending blockCount highest).size = min (max blockCount.toNat 1) (highest.val + 1) := by
  unfold size
  rw [newest_ending, val_oldest_ending]
  omega

theorem headers_append {older newer joint : Window} (chain : ChainView)
    (h : joint.numbers = older.numbers ++ newer.numbers) :
    joint.headers chain = older.headers chain ++ newer.headers chain := by
  unfold headers
  rw [h, List.filterMap_append]

theorem blocks_append {older newer joint : Window} (chain : ChainView)
    (h : joint.numbers = older.numbers ++ newer.numbers) :
    joint.blocks chain = older.blocks chain ++ newer.blocks chain := by
  unfold blocks
  rw [h, List.filterMap_append]

section Stored

variable (window : Window) (store : ChainStore)

/-- Headers and blocks of a window are found under the same numbers. -/
theorem headers_eq_map_blocks :
    window.headers store.view = (window.blocks store.view).map Block.header :=
  List.map_filterMap.symm

theorem mem_blocks {window : Window} {store : ChainStore} {block : Block} :
    block ∈ window.blocks store.view ↔
      window.oldest ≤ block.header.number ∧ block.header.number ≤ window.newest ∧
        store.block? block.header.number = some block := by
  unfold blocks
  rw [List.mem_filterMap]
  constructor
  · rintro ⟨n, hn, hblock⟩
    have hnumber : block.header.number = n := store.number_of_block hblock
    obtain ⟨hlow, hhigh⟩ := mem_numbers.mp hn
    rw [hnumber]
    exact ⟨hlow, hhigh, hblock⟩
  · rintro ⟨hlow, hhigh, hblock⟩
    exact ⟨block.header.number, mem_numbers.mpr ⟨hlow, hhigh⟩, hblock⟩

theorem mem_blocks_of_stored {window : Window} {store : ChainStore} {n : BlockNumber}
    {block : Block} (hlow : window.oldest ≤ n) (hhigh : n ≤ window.newest)
    (hstored : store.block? n = some block) : block ∈ window.blocks store.view :=
  List.mem_filterMap.mpr ⟨n, mem_numbers.mpr ⟨hlow, hhigh⟩, hstored⟩

theorem pairwise_blocks :
    (window.blocks store.view).Pairwise fun a b => a.header.number < b.header.number := by
  apply List.Pairwise.filterMap store.view.block? _ (pairwise_numbers window)
  intro n m hlt a ha b hb
  rw [store.number_of_block ha, store.number_of_block hb]
  exact hlt

/-- A window has at most as many stored blocks as it has numbers. -/
theorem length_blocks_le : (window.blocks store.view).length ≤ window.size := by
  rw [← length_numbers]
  exact List.length_filterMap_le _ _

end Stored

end Window

end FeeWindow
