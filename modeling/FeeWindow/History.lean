import FeeWindow.FeeMarket
import FeeWindow.Reward
import FeeWindow.Window

/-!
The fee history of a window: for every block that the chain has, its base fee, the share of its
gas limit that was used and, if wanted, the priority fees at the percentiles; and the base fee of
the block after the window.
-/

namespace FeeWindow

/-- A fee history. There is one base fee more than there are blocks, that of the next block. -/
structure History where
  oldestBlock : BlockNumber
  baseFees : List GasPrice
  gasUsedRatios : List Binary64
  rewards : Option (List (List GasPrice))

/-- The share of the gas limit that was used, zero where the limit is zero. -/
def BlockHeader.gasUsedRatio (header : BlockHeader) : Binary64 :=
  if header.gasLimit = Amount.zero then Binary64.zero
  else header.gasUsed.toBinary64 / header.gasLimit.toBinary64

/-- The base fee of a block: the stored one where the chain has the block, else the one that the
market in force there derives from the last header, else zero. -/
def nextBaseFee (chain : ChainView) (schedule : FeeSchedule) (next : BlockNumber)
    (last : Option BlockHeader) : GasPrice :=
  match chain.header? next with
  | some header => header.baseFeeOrZero
  | none =>
      match schedule.marketAt next, last with
      | some market, some parent => market.baseFeeAfter next parent
      | _, _ => Amount.zero

/-- The base fee of the block after a window, zero where there is no number for it. -/
def Window.nextBaseFee (window : Window) (chain : ChainView) (schedule : FeeSchedule) :
    GasPrice :=
  match window.next? with
  | some next => FeeWindow.nextBaseFee chain schedule next (window.headers chain).getLast?
  | none => Amount.zero

/-- The priority fees of the blocks of a window, or the first missing receipt. -/
def Window.rewards (window : Window) (chain : ChainView) (percentiles : List Binary64) :
    Except AbsentReceipt (List (List GasPrice)) :=
  (window.blocks chain).mapM fun block =>
    (block.rewards percentiles fun hash => (chain.receipt? hash).map Receipt.gasUsed).result

namespace History

/-- The fee history that a request asks for. -/
def compute (chain : ChainView) (schedule : FeeSchedule) (request : Request) :
    Except HistoryError History := do
  request.validate.mapError .invalidRequest
  let window ← (Window.resolve request.blockCount request.highestBlock chain.head).mapError
    .invalidRequest
  let headers := window.headers chain
  let rewards ← match request.percentiles with
    | none => pure none
    | some percentiles =>
        ((window.rewards chain (sortedPercentiles percentiles)).map some).mapError .inconsistent
  return {
    oldestBlock := window.oldest
    baseFees := headers.map BlockHeader.baseFeeOrZero ++ [window.nextBaseFee chain schedule]
    gasUsedRatios := headers.map BlockHeader.gasUsedRatio
    rewards }

end History

end FeeWindow
