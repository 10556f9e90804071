import FeeWindow.Chain
import FeeWindow.Codec.Amount

/-!
JSON forms of headers, transactions, receipts and blocks.
-/

namespace FeeWindow

namespace BlockHeader

def fieldNames : List String := ["number", "baseFeePerGas", "gasUsed", "gasLimit", "hash"]

def toJson (header : BlockHeader) : Json := .obj [
  ("number", header.number.toJson),
  ("baseFeePerGas", Json.ofOption Amount.toJson header.baseFee),
  ("gasUsed", header.gasUsed.toJson),
  ("gasLimit", header.gasLimit.toJson),
  ("hash", header.hash.toJson)]

def ofJson? (j : Json) : Option BlockHeader := do
  match ← j.record? fieldNames 0 with
  | [number, baseFee, gasUsed, gasLimit, hash] =>
      return {
        number := ← Json.required Amount.ofJson? number
        baseFee := ← Json.optional Amount.ofJson? baseFee
        gasUsed := ← Json.required Amount.ofJson? gasUsed
        gasLimit := ← Json.required Amount.ofJson? gasLimit
        hash := ← Json.required Hash.ofJson? hash }
  | _ => none

end BlockHeader

namespace Offer

def toJson : Offer → Json
  | .flat price => .obj [("Legacy", .obj [("gasPrice", price.toJson)])]
  | .capped wholeCap priorityCap => .obj [("Eip1559", .obj [
      ("maxFeePerGas", wholeCap.toJson), ("maxPriorityFeePerGas", priorityCap.toJson)])]

def ofJson? (j : Json) : Option Offer := do
  match ← j.choice? with
  | ("Legacy", some content) =>
      match ← content.objectRecord? ["gasPrice"] with
      | [price] => return .flat (← Json.required Amount.ofJson? price)
      | _ => none
  | ("Eip1559", some content) =>
      match ← content.objectRecord? ["maxFeePerGas", "maxPriorityFeePerGas"] with
      | [wholeCap, priorityCap] =>
          return .capped (← Json.required Amount.ofJson? wholeCap)
            (← Json.required Amount.ofJson? priorityCap)
      | _ => none
  | _ => none

end Offer

namespace Transaction

def toJson (transaction : Transaction) : Json := .obj [
  ("hash", transaction.hash.toJson),
  ("fees", transaction.offer.toJson)]

def ofJson? (j : Json) : Option Transaction := do
  match ← j.record? ["hash", "fees"] 0 with
  | [hash, offer] =>
      return {
        hash := ← Json.required Hash.ofJson? hash
        offer := ← Json.required Offer.ofJson? offer }
  | _ => none

end Transaction

namespace Receipt

def toJson (receipt : Receipt) : Json := .obj [
  ("transactionHash", receipt.transactionHash.toJson),
  ("gasUsed", receipt.gasUsed.toJson)]

def ofJson? (j : Json) : Option Receipt := do
  match ← j.record? ["transactionHash", "gasUsed"] 0 with
  | [transactionHash, gasUsed] =>
      return {
        transactionHash := ← Json.required Hash.ofJson? transactionHash
        gasUsed := ← Json.required Amount.ofJson? gasUsed }
  | _ => none

end Receipt

namespace Block

def toJson (block : Block) : Json := .obj [
  ("header", block.header.toJson),
  ("transactions", Json.ofList Transaction.toJson block.transactions)]

def ofJson? (j : Json) : Option Block := do
  match ← j.record? ["header", "transactions"] 0 with
  | [header, transactions] =>
      return {
        header := ← Json.required BlockHeader.ofJson? header
        transactions := ← Json.required (Json.list? Transaction.ofJson?) transactions }
  | _ => none

end Block

end FeeWindow
