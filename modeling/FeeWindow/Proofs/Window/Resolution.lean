import FeeWindow.Proofs.Window

/-!
From the number of blocks that a request asks for to the numbers of its window. There is no window
exactly where the highest block lies beyond the head of the chain. Otherwise going on from number to
number ends by itself: it passes each number from the oldest to the newest once, ascending, also
where the newest is the largest number there is. The headers are those found under these numbers.
-/

namespace FeeWindow.Window

/-- The numbers passed from a number on, up to one that has no other after it in the window. -/
inductive Passes (window : Window) : BlockNumber → List BlockNumber → Prop where
  | last {n : BlockNumber} (hend : window.after? n = none) : window.Passes n [n]
  | more {n m : BlockNumber} {rest : List BlockNumber} (hnext : window.after? n = some m)
      (hrest : window.Passes m rest) : window.Passes n (n :: rest)

variable {window : Window} {n : BlockNumber}

/-- What is passed hangs on the start alone. -/
theorem Passes.unique {left right : List BlockNumber} (hleft : window.Passes n left)
    (hright : window.Passes n right) : left = right := by
  induction hleft generalizing right with
  | last hend =>
      cases hright with
      | last _ => rfl
      | more hnext _ =>
          rw [hend] at hnext
          cases hnext
  | more hnext hrest ih =>
      cases hright with
      | last hend =>
          rw [hend] at hnext
          cases hnext
      | more hnext' hrest' =>
          rw [hnext] at hnext'
          cases hnext'
          rw [ih hrest']

/-- A walk that may take as many steps as the window has numbers left ends by itself. -/
theorem passes_walk {limit : Nat} (hn : n ≤ window.newest)
    (hlimit : window.newest.val - n.val < limit) : window.Passes n (window.walk limit n) := by
  induction limit generalizing n with
  | zero => omega
  | succ limit ih =>
      unfold walk
      cases hafter : window.after? n with
      | none => exact .last hafter
      | some m =>
          obtain ⟨hval, hm⟩ := after?_eq_some.mp hafter
          have hm' : m.val ≤ window.newest.val := hm
          exact .more hafter (ih hm (by omega))

theorem passes_oldest_iff {numbers : List BlockNumber} :
    window.Passes window.oldest numbers ↔ numbers = window.numbers := by
  have hself : window.Passes window.oldest window.numbers :=
    passes_walk window.oldest_le_newest (Nat.lt_succ_self _)
  constructor
  · intro h
    exact h.unique hself
  · rintro rfl
    exact hself

/-- A window's headers by the plain numbers of its blocks. -/
theorem headers_eq_filterMap_range' (window : Window) (chain : ChainView) :
    window.headers chain = (List.range' window.oldest.val window.size).filterMap fun n =>
      (Amount.ofNat? n).bind chain.header? := by
  rw [← map_val_numbers, List.filterMap_map]
  unfold headers
  congr 1
  funext n
  simp only [Function.comp_apply, Amount.ofNat?_val, Option.bind_some]

section Resolving

variable (blockCount : UInt64) (highest chainHead : BlockNumber)

theorem resolve_eq_error_iff {error : RequestError} :
    resolve blockCount highest chainHead = .error error ↔
      chainHead < highest ∧ error = .afterChainHead highest chainHead := by
  unfold resolve
  split
  · next hafter =>
      rw [Except.error.injEq]
      constructor
      · intro h
        exact ⟨hafter, h.symm⟩
      · intro h
        exact h.2.symm
  · next hafter =>
      constructor
      · intro h
        cases h
      · intro h
        exact absurd h.1 hafter

theorem resolve_of_le (h : highest ≤ chainHead) :
    resolve blockCount highest chainHead = .ok (ending blockCount highest) :=
  if_neg (Nat.not_lt_of_le h)

/-- Take any number of blocks, zero being read as one, and any highest block and head of a chain.
There is no window exactly where the highest block lies beyond the head. Otherwise the window has
the consecutive numbers up to the highest block, as many as asked for or down to genesis: going on
from the oldest one passes these numbers and no others and then ends, each of them is passed once
and in ascending order, and the number after the window is missing exactly where the highest block
has the largest number there is. The headers are those that the chain has under these numbers, in
their order. -/
theorem resolve_numbers :
    (∀ error, resolve blockCount highest chainHead = .error error ↔
      chainHead < highest ∧ error = .afterChainHead highest chainHead) ∧
    (highest ≤ chainHead → ∃ window,
      resolve blockCount highest chainHead = .ok window ∧
      window.oldest.val = highest.val + 1 - max blockCount.toNat 1 ∧
      window.newest = highest ∧
      (∀ passed, window.Passes window.oldest passed ↔ passed = window.numbers) ∧
      window.numbers.map Amount.val =
        List.range' window.oldest.val (min (max blockCount.toNat 1) (highest.val + 1)) ∧
      (∀ n, n ∈ window.numbers ↔ window.oldest ≤ n ∧ n ≤ highest) ∧
      window.numbers.Pairwise (· < ·) ∧
      window.numbers.length = min (max blockCount.toNat 1) (highest.val + 1) ∧
      (∀ next, window.next? = some next ↔ next.val = highest.val + 1) ∧
      (window.next? = none ↔ highest = Amount.largest) ∧
      ∀ chain, window.headers chain =
        (List.range' window.oldest.val (min (max blockCount.toNat 1) (highest.val + 1))).filterMap
          fun n => (Amount.ofNat? n).bind chain.header?) := by
  refine ⟨fun error => resolve_eq_error_iff blockCount highest chainHead, ?_⟩
  intro hle
  have hsize := size_ending blockCount highest
  refine ⟨ending blockCount highest, resolve_of_le blockCount highest chainHead hle, ?_, rfl,
    fun passed => passes_oldest_iff, ?_, fun n => mem_numbers, pairwise_numbers _, ?_,
    fun next => next?_eq_some, next?_eq_none, ?_⟩
  · rw [val_oldest_ending]
    omega
  · rw [← hsize, map_val_numbers]
  · rw [length_numbers, hsize]
  · intro chain
    rw [← hsize, headers_eq_filterMap_range']

/-- The last numbers of all, and a window of one block at genesis for a count of zero. -/
theorem resolve_last_numbers :
    (Amount.largest ≤ Amount.largest ∧ Amount.zero ≤ Amount.largest) ∧
    (∃ window, resolve 3 Amount.largest Amount.largest = .ok window ∧
      window.numbers.map Amount.val =
        [Amount.largest.val - 2, Amount.largest.val - 1, Amount.largest.val] ∧
      window.next? = none) ∧
    ∃ window, resolve 0 Amount.zero Amount.largest = .ok window ∧
      window.numbers.map Amount.val = [0] ∧ window.next? = some Amount.one := by
  have hlargest : Amount.largest ≤ Amount.largest := Nat.le_refl _
  have hzero : Amount.zero ≤ Amount.largest := Nat.zero_le _
  refine ⟨⟨hlargest, hzero⟩, ?_, ?_⟩
  · obtain ⟨window, hresolve, holdest, _, _, hnumbers, _, _, _, _, hnone, _⟩ :=
      (resolve_numbers 3 Amount.largest Amount.largest).2 hlargest
    refine ⟨window, hresolve, ?_, hnone.mpr rfl⟩
    rw [hnumbers, holdest]
    decide +kernel
  · obtain ⟨window, hresolve, holdest, _, _, hnumbers, _, _, _, hnext, _, _⟩ :=
      (resolve_numbers 0 Amount.zero Amount.largest).2 hzero
    refine ⟨window, hresolve, ?_, (hnext _).mpr rfl⟩
    rw [hnumbers, holdest]
    decide +kernel

end Resolving

end FeeWindow.Window
