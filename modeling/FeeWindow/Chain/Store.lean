import FeeWindow.Chain
import Std.Data.ExtTreeMap

/-!
A chain held in memory. A block is found under its number and a receipt under the hash of its
transaction; a later one replaces an earlier one under the same key. The head is set apart from
the blocks, so there can be gaps below it.
-/

namespace FeeWindow

/-- Blocks by number, receipts by transaction, and the number of the newest block. -/
structure ChainStore where
  head : BlockNumber
  blocks : Std.ExtTreeMap BlockNumber Block
  receipts : Std.ExtTreeMap Hash Receipt
  number_of_block : ∀ {n : BlockNumber} {block : Block},
    blocks[n]? = some block → block.header.number = n
  hash_of_receipt : ∀ {hash : Hash} {receipt : Receipt},
    receipts[hash]? = some receipt → receipt.transactionHash = hash

inductive ChainUpdate where
  | head (number : BlockNumber)
  | block (block : Block)
  | receipt (receipt : Receipt)

namespace ChainStore

@[ext] theorem ext {a b : ChainStore} (hhead : a.head = b.head) (hblocks : a.blocks = b.blocks)
    (hreceipts : a.receipts = b.receipts) : a = b := by
  cases a; cases b; cases hhead; cases hblocks; cases hreceipts; rfl

def empty (head : BlockNumber) : ChainStore where
  head
  blocks := ∅
  receipts := ∅
  number_of_block := by simp
  hash_of_receipt := by simp

def setHead (store : ChainStore) (head : BlockNumber) : ChainStore := { store with head }

def insertBlock (store : ChainStore) (block : Block) : ChainStore where
  head := store.head
  blocks := store.blocks.insert block.header.number block
  receipts := store.receipts
  number_of_block := by
    intro n found h
    rw [Std.ExtTreeMap.getElem?_insert] at h
    split at h
    · next hkey =>
        injection h with h
        rw [← h]
        exact Std.LawfulEqOrd.eq_of_compare hkey
    · exact store.number_of_block h
  hash_of_receipt := store.hash_of_receipt

def insertReceipt (store : ChainStore) (receipt : Receipt) : ChainStore where
  head := store.head
  blocks := store.blocks
  receipts := store.receipts.insert receipt.transactionHash receipt
  number_of_block := store.number_of_block
  hash_of_receipt := by
    intro hash found h
    rw [Std.ExtTreeMap.getElem?_insert] at h
    split at h
    · next hkey =>
        injection h with h
        rw [← h]
        exact Std.LawfulEqOrd.eq_of_compare hkey
    · exact store.hash_of_receipt h

def apply (store : ChainStore) : ChainUpdate → ChainStore
  | .head number => store.setHead number
  | .block block => store.insertBlock block
  | .receipt receipt => store.insertReceipt receipt

def applyAll (store : ChainStore) (updates : List ChainUpdate) : ChainStore :=
  updates.foldl apply store

def block? (store : ChainStore) (number : BlockNumber) : Option Block := store.blocks[number]?

def header? (store : ChainStore) (number : BlockNumber) : Option BlockHeader :=
  (store.block? number).map Block.header

def receipt? (store : ChainStore) (hash : Hash) : Option Receipt := store.receipts[hash]?

def view (store : ChainStore) : ChainView where
  head := store.head
  header? := store.header?
  block? := store.block?
  receipt? := store.receipt?

@[simp] theorem block?_empty (head n : BlockNumber) : (empty head).block? n = none := by
  simp [empty, block?]

@[simp] theorem receipt?_empty (head : BlockNumber) (hash : Hash) :
    (empty head).receipt? hash = none := by
  simp [empty, receipt?]

@[simp] theorem block?_insertBlock (store : ChainStore) (block : Block) (n : BlockNumber) :
    (store.insertBlock block).block? n =
      if block.header.number = n then some block else store.block? n := by
  simp only [block?, insertBlock, Std.ExtTreeMap.getElem?_insert, Std.compare_eq_iff_eq]

@[simp] theorem receipt?_insertBlock (store : ChainStore) (block : Block) (hash : Hash) :
    (store.insertBlock block).receipt? hash = store.receipt? hash := rfl

@[simp] theorem block?_insertReceipt (store : ChainStore) (receipt : Receipt) (n : BlockNumber) :
    (store.insertReceipt receipt).block? n = store.block? n := rfl

@[simp] theorem receipt?_insertReceipt (store : ChainStore) (receipt : Receipt) (hash : Hash) :
    (store.insertReceipt receipt).receipt? hash =
      if receipt.transactionHash = hash then some receipt else store.receipt? hash := by
  simp only [receipt?, insertReceipt, Std.ExtTreeMap.getElem?_insert, Std.compare_eq_iff_eq]

@[simp] theorem block?_setHead (store : ChainStore) (head n : BlockNumber) :
    (store.setHead head).block? n = store.block? n := rfl

@[simp] theorem receipt?_setHead (store : ChainStore) (head : BlockNumber) (hash : Hash) :
    (store.setHead head).receipt? hash = store.receipt? hash := rfl

end ChainStore

end FeeWindow
