import FeeWindow.Binary64.Arithmetic
import FeeWindow.Chain
import FeeWindow.Request

/-!
The priority fees of a block at given percentiles of its gas. The transactions are ranked by
priority fee, equal fees in block order. A percentile is answered with the fee of the first
transaction of the ranking up to which the receipts cover that share of the block's gas; one
that is never covered has no answer.
-/

namespace FeeWindow

/-- Percentiles in the total order of numbers, repeated ones kept. -/
def sortedPercentiles (percentiles : List Binary64) : List Binary64 :=
  percentiles.mergeSort Binary64.totalLe

/-- A transaction with its priority fee in the block. -/
structure RankedTransaction where
  fee : GasPrice
  transaction : Transaction

/-- The transactions of a block by ascending priority fee, equal fees in block order. -/
def Block.ranking (block : Block) : List RankedTransaction :=
  let priced := block.transactions.map fun transaction =>
    (⟨transaction.offer.priorityFee block.header.baseFee, transaction⟩ : RankedTransaction)
  priced.mergeSort fun a b => a.fee ≤ b.fee

/-- The percentage of the block's gas that an amount of gas is. -/
def gasPercentage (gas blockGas : Gas) : Binary64 :=
  Binary64.hundred * gas.toBinary64 / blockGas.toBinary64

/-- The fees found for the percentiles, or the first missing receipt, together with the
transactions whose receipt was looked up, in order. -/
structure RewardRun where
  lookups : List Hash
  result : Except AbsentReceipt (List GasPrice)

/-- Walks a ranking with the gas covered so far and the percentiles still open. -/
def rewardWalk (header : BlockHeader) (receiptGas : Hash → Option Gas) :
    List RankedTransaction → Gas → List Binary64 → RewardRun
  | [], _, _ => ⟨[], .ok []⟩
  | ranked :: rest, covered, open_ =>
      let hash := ranked.transaction.hash
      match receiptGas hash with
      | none => ⟨[hash], .error ⟨header.number, hash⟩⟩
      | some gas =>
          let covered := covered.addClamped gas
          let share := gasPercentage covered header.gasUsed
          let reached := open_.takeWhile (·.le share)
          let run := rewardWalk header receiptGas rest covered (open_.drop reached.length)
          ⟨hash :: run.lookups,
            run.result.map (List.replicate reached.length ranked.fee ++ ·)⟩

/-- The priority fees of a block at ascending percentiles. A block without transactions answers
each of them with zero. -/
def Block.rewards (block : Block) (percentiles : List Binary64)
    (receiptGas : Hash → Option Gas) : RewardRun :=
  if block.transactions = [] then
    ⟨[], .ok (List.replicate percentiles.length Amount.zero)⟩
  else rewardWalk block.header receiptGas block.ranking Amount.zero percentiles

end FeeWindow
