import FeeWindow.Codec.Amount
import FeeWindow.Query

/-!
JSON forms of queries and of fee histories. Rewards that were not asked for are left out when
written, and may be left out when read, also at the end of an array.
-/

namespace FeeWindow

def historyFieldNames : List String := ["oldestBlock", "baseFeePerGas", "gasUsedRatio", "reward"]

/-- The rewards as a field, or no field. -/
def rewardsField {α : Type} (write : α → Json) (rewards : Option (List (List α))) :
    List (String × Json) :=
  match rewards with
  | none => []
  | some rows => [("reward", Json.ofList (Json.ofList write) rows)]

namespace History

def toJson (history : History) : Json := .obj ([
  ("oldestBlock", history.oldestBlock.toJson),
  ("baseFeePerGas", Json.ofList Amount.toJson history.baseFees),
  ("gasUsedRatio", Json.ofList Json.float history.gasUsedRatios)] ++
  rewardsField Amount.toJson history.rewards)

def ofJson? (j : Json) : Option History := do
  match ← j.record? historyFieldNames 1 with
  | [oldestBlock, baseFees, gasUsedRatios, rewards] =>
      return {
        oldestBlock := ← Json.required Amount.ofJson? oldestBlock
        baseFees := ← Json.required (Json.list? Amount.ofJson?) baseFees
        gasUsedRatios := ← Json.required (Json.list? Json.float?) gasUsedRatios
        rewards := ← Json.optional (Json.list? (Json.list? Amount.ofJson?)) rewards }
  | _ => none

end History

namespace Report

def toJson (report : Report) : Json := .obj ([
  ("oldestBlock", report.oldestBlock.toJson),
  ("baseFeePerGas", Json.ofList Uint256.toJson report.baseFees),
  ("gasUsedRatio", Json.ofList Json.float report.gasUsedRatios)] ++
  rewardsField Uint256.toJson report.rewards)

def ofJson? (j : Json) : Option Report := do
  match ← j.record? historyFieldNames 1 with
  | [oldestBlock, baseFees, gasUsedRatios, rewards] =>
      return {
        oldestBlock := ← Json.required Uint256.ofJson? oldestBlock
        baseFees := ← Json.required (Json.list? Uint256.ofJson?) baseFees
        gasUsedRatios := ← Json.required (Json.list? Json.float?) gasUsedRatios
        rewards := ← Json.optional (Json.list? (Json.list? Uint256.ofJson?)) rewards }
  | _ => none

end Report

namespace BlockTag

/-- The role that a name stands for. -/
def role? : String → Option BlockTag
  | "Latest" => some .latest
  | "Finalized" => some .finalized
  | "Safe" => some .safe
  | "Earliest" => some .earliest
  | "Pending" => some .pending
  | _ => none

def ofJson? (j : Json) : Option BlockTag := do
  match ← j.choice? with
  | ("Number", some content) => (Uint256.ofJson? content).map .number
  | (name, content) => if Json.isBare content then role? name else none

end BlockTag

namespace Query

def ofJson? (j : Json) : Option Query := do
  match ← j.record? ["block_count", "newest_block", "reward_percentiles"] 0 with
  | [blockCount, newestBlock, percentiles] =>
      return {
        blockCount := ← Json.required Json.count? blockCount
        newestBlock := ← Json.required BlockTag.ofJson? newestBlock
        percentiles := ← Json.optional (Json.list? Json.float?) percentiles }
  | _ => none

end Query

end FeeWindow
