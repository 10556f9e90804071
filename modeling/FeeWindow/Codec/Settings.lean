import FeeWindow.Codec.Amount
import FeeWindow.Service

/-!
JSON forms of what is set on installation, and of the counters.
-/

namespace FeeWindow

namespace FeeMarketSettings

def fieldNames : List String :=
  ["activationBlock", "initialBaseFee", "elasticityMultiplier", "baseFeeMaxChangeDenominator"]

def toJson (settings : FeeMarketSettings) : Json :=
  let count (n : UInt64) : Json := .int n.toNat
  .obj [
    ("activationBlock", count settings.activationBlock),
    ("initialBaseFee", Json.ofOption count settings.initialBaseFee),
    ("elasticityMultiplier", Json.ofOption count settings.elasticity),
    ("baseFeeMaxChangeDenominator", Json.ofOption count settings.changeDenominator)]

def ofJson? (j : Json) : Option FeeMarketSettings := do
  match ← j.record? fieldNames 0 with
  | [activationBlock, initialBaseFee, elasticity, changeDenominator] =>
      return {
        activationBlock := ← Json.required Json.count? activationBlock
        initialBaseFee := ← Json.optional Json.count? initialBaseFee
        elasticity := ← Json.optional Json.count? elasticity
        changeDenominator := ← Json.optional Json.count? changeDenominator }
  | _ => none

end FeeMarketSettings

namespace LineFilter

def toJson : LineFilter → Json
  | .showAll => .str "ShowAll"
  | .hideAll => .str "HideAll"
  | .showPattern pattern => .obj [("ShowPattern", .str pattern)]
  | .hidePattern pattern => .obj [("HidePattern", .str pattern)]

def ofJson? (j : Json) : Option LineFilter := do
  match ← j.choice? with
  | ("ShowAll", content) => if Json.isBare content then some .showAll else none
  | ("HideAll", content) => if Json.isBare content then some .hideAll else none
  | ("ShowPattern", some content) => content.str?.map .showPattern
  | ("HidePattern", some content) => content.str?.map .hidePattern
  | _ => none

end LineFilter

namespace InstallSettings

def ofJson? (j : Json) : Option InstallSettings := do
  match ← j.record? ["logFilter", "feeMarket"] 0 with
  | [filter, market] =>
      return {
        filter := ← Json.optional LineFilter.ofJson? filter
        market := ← Json.optional FeeMarketSettings.ofJson? market }
  | _ => none

end InstallSettings

namespace Counters

/-- The counters of failures have names of two parts, which no object can hold, so only the
absence of failures can be read. -/
def ofJson? (j : Json) : Option Counters := do
  match ← j.record? ["requests", "blocksServed", "errors"] 0 with
  | [requests, blocksServed, some (.obj [])] =>
      return {
        requests := ← Json.required Json.count? requests
        blocksServed := ← Json.required Json.count? blocksServed
        errors := ∅ }
  | _ => none

end Counters

end FeeWindow
