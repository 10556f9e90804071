import FeeWindow.Chain.Store
import Mathlib.Data.List.Induction
import Mathlib.Tactic.Common

/-!
A chain in memory after any run of updates. What an update writes under a key takes the place of
what was there and leaves every other key alone, so after a run a look-up gives what the last update
under its key wrote. Headers are looked up in the blocks, so both agree; and updates under different
keys may change places.
-/

namespace FeeWindow

namespace ChainUpdate

/-- The block that an update puts under a number. -/
def blockAt? (n : BlockNumber) : ChainUpdate → Option Block
  | .block added => if added.header.number = n then some added else none
  | _ => none

/-- The receipt that an update puts under a hash. -/
def receiptAt? (hash : Hash) : ChainUpdate → Option Receipt
  | .receipt added => if added.transactionHash = hash then some added else none
  | _ => none

def newHead? : ChainUpdate → Option BlockNumber
  | .head number => some number
  | _ => none

/-- What the last of the updates that write something writes: none after it does. -/
def LastWritten {α : Type} (write : ChainUpdate → Option α) (updates : List ChainUpdate)
    (written : α) : Prop :=
  ∃ before update after, updates = before ++ update :: after ∧ write update = some written ∧
    ∀ later ∈ after, write later = none

/-- Two inserted values that do not share a key: of one kind under different keys, or a block and
a receipt. -/
inductive Apart : ChainUpdate → ChainUpdate → Prop
  | blocks {a b : Block} (h : a.header.number ≠ b.header.number) : Apart (.block a) (.block b)
  | receipts {a b : Receipt} (h : a.transactionHash ≠ b.transactionHash) :
      Apart (.receipt a) (.receipt b)
  | blockReceipt (a : Block) (b : Receipt) : Apart (.block a) (.receipt b)
  | receiptBlock (a : Receipt) (b : Block) : Apart (.receipt a) (.block b)

theorem findSome?_reverse_eq_some_iff {α : Type} {write : ChainUpdate → Option α}
    {updates : List ChainUpdate} {written : α} :
    updates.reverse.findSome? write = some written ↔ LastWritten write updates written := by
  rw [List.findSome?_eq_some_iff]
  constructor
  · intro h
    obtain ⟨after, update, before, hupdates, hwrite, hafter⟩ := h
    refine ⟨before.reverse, update, after.reverse, ?_, hwrite, ?_⟩
    · simpa using congrArg List.reverse hupdates
    · simpa using hafter
  · intro h
    obtain ⟨before, update, after, hupdates, hwrite, hafter⟩ := h
    refine ⟨after.reverse, update, before.reverse, ?_, hwrite, ?_⟩
    · simp [hupdates]
    · simpa using hafter

end ChainUpdate

/-- Two chains that differ at most in the block under one number. -/
structure ChainView.SameButBlock (chain other : ChainView) (number : BlockNumber) : Prop where
  head : chain.head = other.head
  block : ∀ n, n ≠ number → chain.block? n = other.block? n
  header : ∀ n, n ≠ number → chain.header? n = other.header? n
  receipt : ∀ hash, chain.receipt? hash = other.receipt? hash

/-- Two chains that differ at most in the receipt under one hash. -/
structure ChainView.SameButReceipt (chain other : ChainView) (hash : Hash) : Prop where
  head : chain.head = other.head
  block : ∀ n, chain.block? n = other.block? n
  header : ∀ n, chain.header? n = other.header? n
  receipt : ∀ another, another ≠ hash → chain.receipt? another = other.receipt? another

/-- Every look-up gives what the updates wrote last under its key, and nothing where they wrote
nothing; what is found has the key under which it is found. Headers are those of the blocks. The
head is the last one set, and the first one if none was. -/
structure ChainView.TellsRun (view : ChainView) (first : BlockNumber)
    (updates : List ChainUpdate) : Prop where
  block : ∀ n found, view.block? n = some found ↔
    ChainUpdate.LastWritten (ChainUpdate.blockAt? n) updates found
  noBlock : ∀ n, view.block? n = none ↔ ∀ update ∈ updates, update.blockAt? n = none
  number : ∀ n found, view.block? n = some found → found.header.number = n
  header : ∀ n, view.header? n = (view.block? n).map Block.header
  receipt : ∀ hash found, view.receipt? hash = some found ↔
    ChainUpdate.LastWritten (ChainUpdate.receiptAt? hash) updates found
  noReceipt : ∀ hash, view.receipt? hash = none ↔ ∀ update ∈ updates, update.receiptAt? hash = none
  hash : ∀ hash found, view.receipt? hash = some found → found.transactionHash = hash
  head : ∀ number, ChainUpdate.LastWritten ChainUpdate.newHead? updates number →
    view.head = number
  noHead : (∀ update ∈ updates, update.newHead? = none) → view.head = first

namespace ChainStore

variable (store : ChainStore)

section Steps

variable (update : ChainUpdate)

theorem block?_apply (n : BlockNumber) :
    (store.apply update).block? n = (update.blockAt? n).or (store.block? n) := by
  cases update with
  | block added =>
      simp only [apply, ChainUpdate.blockAt?, block?_insertBlock]
      split <;> rfl
  | head number => simp [apply, ChainUpdate.blockAt?]
  | receipt added => simp [apply, ChainUpdate.blockAt?]

theorem receipt?_apply (hash : Hash) :
    (store.apply update).receipt? hash = (update.receiptAt? hash).or (store.receipt? hash) := by
  cases update with
  | receipt added =>
      simp only [apply, ChainUpdate.receiptAt?, receipt?_insertReceipt]
      split <;> rfl
  | head number => simp [apply, ChainUpdate.receiptAt?]
  | block added => simp [apply, ChainUpdate.receiptAt?]

theorem some_head_apply :
    some (store.apply update).head = update.newHead?.or (some store.head) := by
  cases update <;> rfl

end Steps

section Runs

variable (updates : List ChainUpdate)

/-- What every single update writes over what was there, a run of updates writes over it with its
last write. -/
theorem look_applyAll {α : Type} (look : ChainStore → Option α) (write : ChainUpdate → Option α)
    (hstep : ∀ store update, look (store.apply update) = (write update).or (look store)) :
    look (store.applyAll updates) = (updates.reverse.findSome? write).or (look store) := by
  induction updates using List.reverseRecOn with
  | nil => rfl
  | append_singleton updates update ih =>
      have hlast : store.applyAll (updates ++ [update]) =
          (store.applyAll updates).apply update := by simp [applyAll]
      rw [hlast, hstep, ih, List.reverse_concat, List.findSome?_cons]
      cases write update with
      | none => rfl
      | some written => rfl

variable (first : BlockNumber)

theorem block?_applyAll_empty (n : BlockNumber) :
    ((empty first).applyAll updates).block? n =
      updates.reverse.findSome? (ChainUpdate.blockAt? n) := by
  have hrun := look_applyAll (empty first) updates (fun store => store.block? n)
    (ChainUpdate.blockAt? n) fun store update => store.block?_apply update n
  simpa using hrun

theorem receipt?_applyAll_empty (hash : Hash) :
    ((empty first).applyAll updates).receipt? hash =
      updates.reverse.findSome? (ChainUpdate.receiptAt? hash) := by
  have hrun := look_applyAll (empty first) updates (fun store => store.receipt? hash)
    (ChainUpdate.receiptAt? hash) fun store update => store.receipt?_apply update hash
  simpa using hrun

theorem some_head_applyAll_empty :
    some ((empty first).applyAll updates).head =
      (updates.reverse.findSome? ChainUpdate.newHead?).or (some first) :=
  look_applyAll (empty first) updates (fun store => some store.head) ChainUpdate.newHead?
    some_head_apply

theorem tellsRun_applyAll_empty :
    ((empty first).applyAll updates).view.TellsRun first updates where
  block n found := by
    change ((empty first).applyAll updates).block? n = _ ↔ _
    rw [block?_applyAll_empty, ChainUpdate.findSome?_reverse_eq_some_iff]
  noBlock n := by
    change ((empty first).applyAll updates).block? n = _ ↔ _
    simp [block?_applyAll_empty]
  number n found h := ((empty first).applyAll updates).number_of_block h
  header n := rfl
  receipt hash found := by
    change ((empty first).applyAll updates).receipt? hash = _ ↔ _
    rw [receipt?_applyAll_empty, ChainUpdate.findSome?_reverse_eq_some_iff]
  noReceipt hash := by
    change ((empty first).applyAll updates).receipt? hash = _ ↔ _
    simp [receipt?_applyAll_empty]
  hash hash found h := ((empty first).applyAll updates).hash_of_receipt h
  head number h := by
    have hhead := some_head_applyAll_empty updates first
    rw [ChainUpdate.findSome?_reverse_eq_some_iff.mpr h] at hhead
    exact Option.some.inj hhead
  noHead h := by
    have hhead := some_head_applyAll_empty updates first
    have hnone : updates.reverse.findSome? ChainUpdate.newHead? = none := by simpa using h
    rw [hnone] at hhead
    exact Option.some.inj hhead

end Runs

section Frames

theorem sameButBlock_insertBlock (added : Block) :
    (store.insertBlock added).view.SameButBlock store.view added.header.number where
  head := rfl
  block n hn := by simp [view, hn.symm]
  header n hn := by simp [view, header?, hn.symm]
  receipt hash := rfl

theorem sameButReceipt_insertReceipt (added : Receipt) :
    (store.insertReceipt added).view.SameButReceipt store.view added.transactionHash where
  head := rfl
  block n := rfl
  header n := rfl
  receipt hash hhash := by simp [view, hhash.symm]

theorem insertBlock_comm {a b : Block} (h : a.header.number ≠ b.header.number) :
    (store.insertBlock a).insertBlock b = (store.insertBlock b).insertBlock a := by
  apply ext
  · rfl
  · apply Std.ExtTreeMap.ext_getElem?
    intro n
    change ((store.insertBlock a).insertBlock b).block? n =
      ((store.insertBlock b).insertBlock a).block? n
    simp only [block?_insertBlock]
    grind
  · rfl

theorem insertReceipt_comm {a b : Receipt} (h : a.transactionHash ≠ b.transactionHash) :
    (store.insertReceipt a).insertReceipt b = (store.insertReceipt b).insertReceipt a := by
  apply ext
  · rfl
  · rfl
  · apply Std.ExtTreeMap.ext_getElem?
    intro hash
    change ((store.insertReceipt a).insertReceipt b).receipt? hash =
      ((store.insertReceipt b).insertReceipt a).receipt? hash
    simp only [receipt?_insertReceipt]
    grind

theorem apply_comm {a b : ChainUpdate} (h : a.Apart b) :
    (store.apply a).apply b = (store.apply b).apply a := by
  cases h with
  | blocks h => exact store.insertBlock_comm h
  | receipts h => exact store.insertReceipt_comm h
  | blockReceipt added other => rfl
  | receiptBlock added other => rfl

end Frames

/-- After any updates of a new chain, every look-up gives what was inserted last under its key and
nothing where nothing was, headers are those of the blocks, and the head is the last one set.
Inserting a block or a receipt leaves the head and everything under other keys as it was, and what
is inserted under different keys may be inserted in either order. -/
theorem view_of_updates :
    (∀ first updates, ((empty first).applyAll updates).view.TellsRun first updates) ∧
    (∀ (store : ChainStore) added,
      (store.insertBlock added).view.SameButBlock store.view added.header.number) ∧
    (∀ (store : ChainStore) added,
      (store.insertReceipt added).view.SameButReceipt store.view added.transactionHash) ∧
    ∀ (store : ChainStore) (a b : ChainUpdate), a.Apart b →
      (store.apply a).apply b = (store.apply b).apply a := by
  refine ⟨?_, sameButBlock_insertBlock, sameButReceipt_insertReceipt, ?_⟩
  · intro first updates
    exact tellsRun_applyAll_empty updates first
  · intro store a b h
    exact store.apply_comm h

/-- A block without transactions that used that much gas. -/
def bareBlock (number : BlockNumber) (gasUsed : Gas) : Block :=
  ⟨⟨number, none, gasUsed, Amount.largest, Bytes.zeros 32⟩, []⟩

/-- The first block is replaced after another one was inserted, and the head is set twice. -/
def replacement : List ChainUpdate :=
  [.head Amount.largest, .block (bareBlock Amount.zero Amount.zero),
    .block (bareBlock Amount.one Amount.zero), .head Amount.one,
    .block (bareBlock Amount.zero Amount.one)]

theorem view_of_replacement :
    ((empty Amount.zero).applyAll replacement).view.block? Amount.zero =
      some (bareBlock Amount.zero Amount.one) ∧
    ((empty Amount.zero).applyAll replacement).view.head = Amount.one ∧
    (ChainUpdate.Apart (.block (bareBlock Amount.zero Amount.one))
        (.block (bareBlock Amount.one Amount.zero)) ∧
      ((empty Amount.zero).insertBlock (bareBlock Amount.zero Amount.one)).insertBlock
          (bareBlock Amount.one Amount.zero) =
        ((empty Amount.zero).insertBlock (bareBlock Amount.one Amount.zero)).insertBlock
          (bareBlock Amount.zero Amount.one)) := by
  obtain ⟨hrun, -, -, hcomm⟩ := view_of_updates
  have htells := hrun Amount.zero replacement
  have hkeys : ChainUpdate.Apart (.block (bareBlock Amount.zero Amount.one))
      (.block (bareBlock Amount.one Amount.zero)) := .blocks (by decide)
  refine ⟨?_, ?_, hkeys, hcomm _ _ _ hkeys⟩
  · apply (htells.block _ _).mpr
    exact ⟨replacement.take 4, _, [], rfl, by decide, nofun⟩
  · apply htells.head
    refine ⟨replacement.take 3, _, replacement.drop 4, rfl, rfl, ?_⟩
    simp [replacement, ChainUpdate.newHead?]

end ChainStore

end FeeWindow
