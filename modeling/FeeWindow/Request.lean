import FeeWindow.Amount.Grouped
import FeeWindow.Binary64.Style
import FeeWindow.Bytes.Hex
import FeeWindow.Text.Record

/-!
Requests for the fee history of a window of blocks, the ways in which one can fail, and how
requests and failures read in messages.
-/

namespace FeeWindow

/-- The largest number of blocks that one request may cover. -/
def maxBlockCount : Nat := 1024

/-- A window of blocks by its newest block and size, and the percentiles of priority fees wanted
for each block, in any order. -/
structure Request where
  blockCount : UInt64
  highestBlock : BlockNumber
  percentiles : Option (List Binary64)

/-- What is wrong with a request. -/
inductive RequestError where
  | blockCountOutOfRange (count : UInt64)
  | afterChainHead (requested chainHead : BlockNumber)
  | invalidPercentile (percentile : Binary64)
  deriving DecidableEq

/-- A transaction of a stored block whose receipt is not stored. -/
structure AbsentReceipt where
  block : BlockNumber
  transaction : Hash
  deriving DecidableEq

/-- Why a request has no answer: the request is at fault, or the stored chain is. -/
inductive HistoryError where
  | invalidRequest (error : RequestError)
  | inconsistent (missing : AbsentReceipt)
  deriving DecidableEq

/-- Whether a percentile lies between 0 and 100. -/
def isPercentile (p : Binary64) : Bool := Binary64.zero.le p && p.le Binary64.hundred

/-- Checks the number of blocks, then the percentiles in their order. -/
def Request.validate (request : Request) : Except RequestError Unit :=
  if request.blockCount.toNat < 1 ∨ maxBlockCount < request.blockCount.toNat then
    .error (.blockCountOutOfRange request.blockCount)
  else
    match (request.percentiles.getD []).find? (!isPercentile ·) with
    | some p => .error (.invalidPercentile p)
    | none => .ok ()

def Request.record (request : Request) : String :=
  Text.record "FeeHistoryRequest" [
    ("block_count", toString request.blockCount.toNat),
    ("highest_block", request.highestBlock.grouped),
    ("reward_percentiles", Text.maybe (Text.list NumberStyle.field.render) request.percentiles)]

namespace RequestError

def kind : RequestError → String
  | .blockCountOutOfRange _ => "block_count_out_of_range"
  | .afterChainHead .. => "block_after_chain_head"
  | .invalidPercentile _ => "invalid_reward_percentile"

def message : RequestError → String
  | .blockCountOutOfRange count =>
      s!"block count must be between 1 and {maxBlockCount}, got {count.toNat}"
  | .afterChainHead requested chainHead =>
      s!"requested block {requested.grouped} is after chain head {chainHead.grouped}"
  | .invalidPercentile p =>
      s!"reward percentile must be between 0 and 100, got {NumberStyle.message.render p}"

def record : RequestError → String
  | .blockCountOutOfRange count => Text.wrapped "BlockCountOutOfRange" (toString count.toNat)
  | .afterChainHead requested chainHead =>
      Text.record "BlockAfterChainHead" [
        ("requested", requested.grouped), ("chain_head", chainHead.grouped)]
  | .invalidPercentile p =>
      Text.wrapped "InvalidRewardPercentile" (NumberStyle.field.render p)

end RequestError

namespace AbsentReceipt

def kind (_ : AbsentReceipt) : String := "missing_receipt"

def message (missing : AbsentReceipt) : String :=
  s!"no receipt for transaction {missing.transaction.hex} of finalized block {missing.block.grouped}"

/-- The record notation, in which a hash is the list of its bytes. -/
def record (missing : AbsentReceipt) : String :=
  let bytes := Text.list (fun b : UInt8 => toString b.toNat) missing.transaction.toList
  Text.record "MissingReceipt" [
    ("block", missing.block.grouped),
    ("transaction", Text.wrapped "EthereumHexString" bytes)]

end AbsentReceipt

namespace HistoryError

/-- The error code that a remote caller is given. -/
def code : HistoryError → Int
  | .invalidRequest _ => -32602
  | .inconsistent _ => -32603

def kind : HistoryError → String
  | .invalidRequest error => error.kind
  | .inconsistent missing => missing.kind

def message : HistoryError → String
  | .invalidRequest error => "invalid request: " ++ error.message
  | .inconsistent missing => "internal error: " ++ missing.message

def record : HistoryError → String
  | .invalidRequest error => Text.wrapped "InvalidRequest" error.record
  | .inconsistent missing => Text.wrapped "InternalInconsistency" missing.record

end HistoryError

end FeeWindow
