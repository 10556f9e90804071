import FeeWindow.Chain
import FeeWindow.Request

/-!
The window of consecutive block numbers that a request covers, from the oldest to the newest,
both included. A window that would reach below genesis starts at genesis.
-/

namespace FeeWindow

/-- Consecutive block numbers, both ends included. -/
structure Window where
  oldest : BlockNumber
  newest : BlockNumber
  oldest_le_newest : oldest ≤ newest

namespace Window

/-- The window of the given number of blocks that ends at `highest`. A window always has a
block, so no blocks are taken as one. -/
def ending (blockCount : UInt64) (highest : BlockNumber) : Window where
  oldest := highest.subClamped (Amount.ofUInt64 (UInt64.ofNat (blockCount.toNat - 1)))
  newest := highest
  oldest_le_newest := Nat.sub_le _ _

/-- The window that ends at `highest`, if the chain reaches that far. -/
def resolve (blockCount : UInt64) (highest chainHead : BlockNumber) :
    Except RequestError Window :=
  if chainHead < highest then .error (.afterChainHead highest chainHead)
  else .ok (ending blockCount highest)

def next? (window : Window) : Option BlockNumber := window.newest.succ?

/-- The number after `n` that is still in the window. -/
def after? (window : Window) (n : BlockNumber) : Option BlockNumber :=
  n.succ?.filter (· ≤ window.newest)

/-- At most `limit` numbers of the window, from `n` upwards. -/
def walk (window : Window) : Nat → BlockNumber → List BlockNumber
  | 0, _ => []
  | limit + 1, n =>
      n :: match window.after? n with
        | some m => window.walk limit m
        | none => []

def size (window : Window) : Nat := window.newest.val - window.oldest.val + 1

/-- The first `limit` numbers of a window, or all where there are fewer. -/
def firstNumbers (window : Window) (limit : Nat) : List BlockNumber :=
  window.walk limit window.oldest

/-- The numbers of a window, ascending. -/
def numbers (window : Window) : List BlockNumber := window.firstNumbers window.size

/-- The headers of those blocks of the window that the chain has. -/
def headers (window : Window) (chain : ChainView) : List BlockHeader :=
  window.numbers.filterMap chain.header?

/-- Those blocks of the window that the chain has. -/
def blocks (window : Window) (chain : ChainView) : List Block :=
  window.numbers.filterMap chain.block?

end Window

end FeeWindow
