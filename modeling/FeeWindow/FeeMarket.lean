import FeeWindow.Amount.Grouped
import FeeWindow.Chain
import FeeWindow.Text.Record

/-!
The rule that moves the base fee from one block to the next. A block that used more gas than its
target raises the fee of the block after it, one that used less lowers it, in proportion to the
distance and to the fee. The first block of a market has a fixed fee.
-/

namespace FeeWindow

/-- The constants of a fee market. The target of a block is its gas limit over the elasticity,
and the change of the fee is divided by the change denominator. -/
structure FeeMarket where
  activationBlock : BlockNumber
  initialBaseFee : GasPrice
  elasticity : Amount
  changeDenominator : Amount
  elasticity_pos : 0 < elasticity.val
  changeDenominator_pos : 0 < changeDenominator.val

/-- The constants of a fee market as they are set on installation. -/
structure FeeMarketSettings where
  activationBlock : UInt64
  initialBaseFee : Option UInt64
  elasticity : Option UInt64
  changeDenominator : Option UInt64
  deriving DecidableEq

namespace FeeMarket

/-- The initial base fee unless another one is set: one gigawei. -/
def defaultInitialBaseFee : GasPrice := ⟨1000000000, by decide⟩

/-- The market that starts at a block and has the default constants. -/
def startingAt (activationBlock : BlockNumber) : FeeMarket where
  activationBlock
  initialBaseFee := defaultInitialBaseFee
  elasticity := ⟨2, by decide⟩
  changeDenominator := ⟨8, by decide⟩
  elasticity_pos := by decide
  changeDenominator_pos := by decide

/-- A divisor as set, or the default where none or zero is set. -/
def divisor (setting : Option UInt64) (default : Amount) : Amount :=
  match setting with
  | none => default
  | some n => if n = 0 then default else Amount.ofUInt64 n

theorem divisor_pos (setting : Option UInt64) {default : Amount} (h : 0 < default.val) :
    0 < (divisor setting default).val := by
  unfold divisor
  split
  · exact h
  · next n =>
      split
      · exact h
      · next hn =>
          have : n.toNat ≠ 0 := fun h0 => hn (UInt64.toNat_inj.mp h0)
          exact Nat.pos_of_ne_zero this

def ofSettings (settings : FeeMarketSettings) : FeeMarket :=
  let base := startingAt (Amount.ofUInt64 settings.activationBlock)
  { base with
    initialBaseFee := (settings.initialBaseFee.map Amount.ofUInt64).getD base.initialBaseFee
    elasticity := divisor settings.elasticity base.elasticity
    changeDenominator := divisor settings.changeDenominator base.changeDenominator
    elasticity_pos := divisor_pos _ base.elasticity_pos
    changeDenominator_pos := divisor_pos _ base.changeDenominator_pos }

/-- How far the fee moves: fee times gas over target, rounded down, over the denominator, rounded
down. Without bound where the product is out of range. -/
def change (market : FeeMarket) (fee : GasPrice) (gas target : Gas) : GasPrice :=
  let moved := do
    let product ← fee.mul? gas
    let share ← product.div? target
    share.div? market.changeDenominator
  moved.getD Amount.largest

/-- The base fee of a block after a parent with the given base fee, gas and gas target. A raise
is at least one wei. -/
def baseFee (market : FeeMarket) (block : BlockNumber) (parentFee : GasPrice)
    (parentGas target : Gas) : GasPrice :=
  if block = market.activationBlock then market.initialBaseFee
  else if target = Amount.zero ∨ parentGas = target then parentFee
  else if target < parentGas then
    parentFee.addClamped
      ((market.change parentFee (parentGas.subClamped target) target).greatest Amount.one)
  else parentFee.subClamped (market.change parentFee (target.subClamped parentGas) target)

/-- The gas that leaves the fee unchanged in a block of the given limit. -/
def target (market : FeeMarket) (gasLimit : Gas) : Gas :=
  (gasLimit.div? market.elasticity).getD Amount.zero

/-- The base fee of a block after the given parent. -/
def baseFeeAfter (market : FeeMarket) (block : BlockNumber) (parent : BlockHeader) : GasPrice :=
  market.baseFee block parent.baseFeeOrZero parent.gasUsed (market.target parent.gasLimit)

def record (market : FeeMarket) : String :=
  Text.record "LondonFeeMarket" [
    ("activation_block", market.activationBlock.grouped),
    ("initial_base_fee", market.initialBaseFee.grouped),
    ("elasticity_multiplier", market.elasticity.grouped),
    ("base_fee_max_change_denominator", market.changeDenominator.grouped)]

end FeeMarket

/-- Which market is in force at which block: none at all, or one from its activation block on. -/
structure FeeSchedule where
  market : Option FeeMarket

namespace FeeSchedule

def free : FeeSchedule := ⟨none⟩

def ofSettings (settings : Option FeeMarketSettings) : FeeSchedule :=
  ⟨settings.map FeeMarket.ofSettings⟩

def marketAt (schedule : FeeSchedule) (block : BlockNumber) : Option FeeMarket :=
  schedule.market.filter fun market => market.activationBlock ≤ block

def record (schedule : FeeSchedule) : String :=
  Text.record "ForkSchedule" [("london", Text.maybe FeeMarket.record schedule.market)]

end FeeSchedule

end FeeWindow
