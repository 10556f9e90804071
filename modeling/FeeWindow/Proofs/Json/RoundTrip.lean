import FeeWindow.Proofs.Json.Settings
import FeeWindow.Proofs.Json.Views

/-!
The JSON of chain data and of settings. Each of their types is read back from what is written of
it and from every other form of it, at whatever depth the form differs from what is written, and
from nothing else.
-/

namespace FeeWindow

open Json (RecordCodec ChoiceCodec RefusesContents)

/-- The records and choices of chain data and settings are written and read without loss. The
caps of an offer are found by name only, so an array is refused in place of their object. -/
theorem views_and_settings_codecs :
    RecordCodec BlockHeader.toJson BlockHeader.ofJson? BlockHeader.formFields
      ["number", "gasUsed", "gasLimit", "hash"] 5 ∧
    RecordCodec Transaction.toJson Transaction.ofJson? Transaction.formFields ["hash", "fees"] 2 ∧
    RecordCodec Receipt.toJson Receipt.ofJson? Receipt.formFields
      ["transactionHash", "gasUsed"] 2 ∧
    RecordCodec Block.toJson Block.ofJson? Block.formFields ["header", "transactions"] 2 ∧
    RecordCodec FeeMarketSettings.toJson FeeMarketSettings.ofJson? FeeMarketSettings.formFields
      ["activationBlock"] 4 ∧
    ChoiceCodec Offer.toJson Offer.ofJson? Offer.IsForm ["Legacy", "Eip1559"] ∧
    RefusesContents (fun content => Offer.ofJson? (.obj [("Legacy", content)])) ["gasPrice"] ∧
    RefusesContents (fun content => Offer.ofJson? (.obj [("Eip1559", content)]))
      ["maxFeePerGas", "maxPriorityFeePerGas"] ∧
    ChoiceCodec LineFilter.toJson LineFilter.ofJson? LineFilter.IsForm
      ["ShowAll", "HideAll", "ShowPattern", "HidePattern"] :=
  ⟨BlockHeader.codec, Transaction.codec, Receipt.codec, Block.codec, FeeMarketSettings.codec,
    Offer.codec, Offer.refusesContents_flat, Offer.refusesContents_capped, LineFilter.codec⟩

/-- An offer is not read from the array of its caps, though a record is from that of its fields. -/
theorem offer_not_read_from_array :
    (Offer.flat Amount.zero).toJson = .obj [("Legacy", .obj [("gasPrice", .str "0x0")])] ∧
      Offer.ofJson? (.obj [("Legacy", .arr [.str "0x0"])]) ≠ some (.flat Amount.zero) := by
  constructor
  · rfl
  · intro h
    cases h

example : FeeMarketSettings.ofJson? (.obj [("unknown", .bool true), ("activationBlock", .int 7)]) =
    some ⟨7, none, none, none⟩ := rfl

end FeeWindow
