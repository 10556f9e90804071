import FeeWindow.History
import FeeWindow.Uint256

/-!
Fee histories as remote callers ask for them: the newest block is given by a tag, and amounts
are plain natural numbers of up to 256 bits.
-/

namespace FeeWindow

/-- The newest block of a window, by number or by its role. -/
inductive BlockTag where
  | latest
  | finalized
  | safe
  | earliest
  | pending
  | number (n : Uint256)
  deriving DecidableEq

/-- A request of a remote caller. -/
structure Query where
  blockCount : UInt64
  newestBlock : BlockTag
  percentiles : Option (List Binary64)

/-- The answer to a remote caller. -/
structure Report where
  oldestBlock : Uint256
  baseFees : List Uint256
  gasUsedRatios : List Binary64
  rewards : Option (List (List Uint256))

/-- The block that a tag selects. Only finalized blocks are known, so all roles but the earliest
select the head. -/
def BlockTag.resolve (tag : BlockTag) (head : BlockNumber) : BlockNumber :=
  match tag with
  | .number n => n.toAmount
  | .earliest => Amount.zero
  | .latest | .pending | .safe | .finalized => head

def Query.request (query : Query) (chain : ChainView) : Request where
  blockCount := query.blockCount
  highestBlock := query.newestBlock.resolve chain.head
  percentiles := query.percentiles

def Report.ofHistory (history : History) : Report where
  oldestBlock := Uint256.ofAmount history.oldestBlock
  baseFees := history.baseFees.map Uint256.ofAmount
  gasUsedRatios := history.gasUsedRatios
  rewards := history.rewards.map fun rows => rows.map fun row => row.map Uint256.ofAmount

end FeeWindow
