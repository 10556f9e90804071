import FeeWindow.Amount
import FeeWindow.Bytes

/-!
What is known of the blocks of a chain: headers, transactions with the fees they offer, receipts,
and the look-ups through which all of it is read.
-/

namespace FeeWindow

/-- Summary of a block. Blocks older than the fee market have no base fee. -/
structure BlockHeader where
  number : BlockNumber
  baseFee : Option GasPrice
  gasUsed : Gas
  gasLimit : Gas
  hash : Hash
  deriving DecidableEq

/-- What a transaction offers for a unit of gas: one flat price, or a cap on the whole price
together with a cap on the share of the block's producer. -/
inductive Offer where
  | flat (price : GasPrice)
  | capped (wholeCap priorityCap : GasPrice)
  deriving DecidableEq

structure Transaction where
  hash : Hash
  offer : Offer
  deriving DecidableEq

/-- The gas that one transaction used. -/
structure Receipt where
  transactionHash : Hash
  gasUsed : Gas
  deriving DecidableEq

/-- A header and the transactions in block order. -/
structure Block where
  header : BlockHeader
  transactions : List Transaction
  deriving DecidableEq

/-- The share of the block's producer in the price of a unit of gas. In a block without base fee
a capped offer has none; an offer below the base fee leaves nothing. -/
def Offer.priorityFee (baseFee : Option GasPrice) : Offer → GasPrice
  | .flat price =>
      match baseFee with
      | none => price
      | some fee => price.subClamped fee
  | .capped wholeCap priorityCap =>
      match baseFee with
      | none => Amount.zero
      | some fee => priorityCap.least (wholeCap.subClamped fee)

/-- The base fee of a block, zero where it has none. -/
def BlockHeader.baseFeeOrZero (header : BlockHeader) : GasPrice :=
  header.baseFee.getD Amount.zero

/-- The look-ups by which the blocks of a chain are read. -/
structure ChainView where
  head : BlockNumber
  header? : BlockNumber → Option BlockHeader
  block? : BlockNumber → Option Block
  receipt? : Hash → Option Receipt

end FeeWindow
