import FeeWindow.Codec.Chain
import FeeWindow.Proofs.Amount.Quantity
import FeeWindow.Proofs.Bytes.Hex
import FeeWindow.Proofs.Json.Lossless

/-!
The forms of headers, offers, transactions, receipts and blocks, each put together from the forms
of its parts. Each of them is written and read without loss, and refused where a part is missing.
-/

namespace FeeWindow

open Json (Field IsRecordOf IsObjectOf IsVariantOf IsListOf Lossless RecordCodec ChoiceCodec
  RefusesContents)

section Parts

/-- The quantities of an amount. -/
def Amount.IsForm (a : Amount) (j : Json) : Prop := ∃ s, j = .str s ∧ IsQuantity s a.val

/-- The hexadecimal texts of a byte sequence, in either case. -/
def Bytes.IsForm {n : Nat} (bytes : Bytes n) (j : Json) : Prop :=
  ∃ s, j = .str s ∧ HasMark s ∧ s.toLower = bytes.hex

theorem Amount.lossless : Lossless Amount.toJson Amount.ofJson? Amount.IsForm where
  isForm_write a := ⟨a.quantity, rfl, a.isLeastQuantity_quantity.isQuantity⟩
  read_eq h := ofJson?_eq_some_iff.mpr h
  isForm_of_read _ h := ofJson?_eq_some_iff.mp h

theorem Bytes.lossless {n : Nat} : Lossless Bytes.toJson (Bytes.ofJson? n) Bytes.IsForm where
  isForm_write bytes := ⟨bytes.hex, rfl, hasMark_hex bytes, toLower_hex bytes⟩
  read_eq := by
    rintro bytes _ ⟨s, rfl, h⟩
    change (ofHex n s).toOption = some bytes
    rw [ofHex_eq_ok_iff.mpr h]
    rfl
  isForm_of_read := by
    intro bytes j _ h
    obtain ⟨s, hs, hread⟩ := Option.bind_eq_some_iff.mp h
    obtain rfl := Json.str?_eq_some_iff.mp hs
    refine ⟨s, rfl, ofHex_eq_ok_iff.mp ?_⟩
    cases hresult : ofHex n s with
    | error e =>
        rw [hresult] at hread
        cases hread
    | ok read =>
        rw [hresult] at hread
        exact congrArg Except.ok (Option.some.inj hread)

theorem Hash.lossless : Lossless Bytes.toJson Hash.ofJson? fun hash : Hash => hash.IsForm :=
  Bytes.lossless

end Parts

namespace BlockHeader

def formFields (header : BlockHeader) : List Field := [
  .required "number" header.number.IsForm,
  .optional "baseFeePerGas" Amount.IsForm header.baseFee,
  .required "gasUsed" header.gasUsed.IsForm,
  .required "gasLimit" header.gasLimit.IsForm,
  .required "hash" header.hash.IsForm]

theorem lossless : Lossless toJson ofJson? fun header => IsRecordOf header.formFields := by
  refine Lossless.record formFields (fun _ => rfl) ?_ ?_ ?_
  · intro header
    have hdistinct : fieldNames.Nodup := by decide
    refine Json.isObjectOf_obj hdistinct ?_
    exact .cons ⟨rfl, Amount.lossless.isForm_write _⟩ (
      .cons ⟨rfl, Amount.lossless.isValue_ofOption _⟩ (
      .cons ⟨rfl, Amount.lossless.isForm_write _⟩ (
      .cons ⟨rfl, Amount.lossless.isForm_write _⟩ (
      .cons ⟨rfl, Hash.lossless.isForm_write _⟩ .nil))))
  · intro header values h
    unfold formFields at h
    rcases h with
      _ | ⟨hnumber, _ | ⟨hbaseFee, _ | ⟨hgasUsed, _ | ⟨hgasLimit, _ | ⟨hhash, ⟨⟩⟩⟩⟩⟩⟩
    simp only [Option.bind_eq_bind, Option.bind_some, Option.pure_def,
      Amount.lossless.required_eq hnumber, Amount.lossless.optional_eq rfl hbaseFee,
      Amount.lossless.required_eq hgasUsed, Amount.lossless.required_eq hgasLimit,
      Hash.lossless.required_eq hhash]
  · intro header values hnames h
    split at h
    · next number baseFee gasUsed gasLimit hash =>
        simp only [List.forall_mem_cons] at hnames
        obtain ⟨hnamesNumber, hnamesBaseFee, hnamesGasUsed, hnamesGasLimit, hnamesHash, -⟩ := hnames
        obtain ⟨_, hnumber, h⟩ := Option.bind_eq_some_iff.mp h
        obtain ⟨_, hbaseFee, h⟩ := Option.bind_eq_some_iff.mp h
        obtain ⟨_, hgasUsed, h⟩ := Option.bind_eq_some_iff.mp h
        obtain ⟨_, hgasLimit, h⟩ := Option.bind_eq_some_iff.mp h
        obtain ⟨_, hhash, h⟩ := Option.bind_eq_some_iff.mp h
        obtain rfl := Option.some.inj h
        exact .cons (Amount.lossless.takes_required hnamesNumber hnumber) (
          .cons (Amount.lossless.takes_optional hnamesBaseFee hbaseFee) (
          .cons (Amount.lossless.takes_required hnamesGasUsed hgasUsed) (
          .cons (Amount.lossless.takes_required hnamesGasLimit hgasLimit) (
          .cons (Hash.lossless.takes_required hnamesHash hhash) .nil))))
    · cases h

theorem codec :
    RecordCodec toJson ofJson? formFields ["number", "gasUsed", "gasLimit", "hash"] 5 := by
  refine RecordCodec.of_lossless lossless ?_
  intro find name hname hnone
  simp only [List.mem_cons, List.not_mem_nil, or_false] at hname
  rcases hname with rfl | rfl | rfl | rfl
  all_goals simp [fieldNames, hnone, Json.required]

end BlockHeader

namespace Offer

/-- The forms of an offer. Its caps are given by name only, not as an array. -/
def IsForm : Offer → Json → Prop
  | .flat price => IsVariantOf "Legacy" (IsObjectOf [.required "gasPrice" price.IsForm])
  | .capped wholeCap priorityCap =>
      IsVariantOf "Eip1559" (IsObjectOf [
        .required "maxFeePerGas" wholeCap.IsForm,
        .required "maxPriorityFeePerGas" priorityCap.IsForm])

theorem lossless : Lossless toJson ofJson? IsForm where
  isForm_write := by
    rintro (price | ⟨wholeCap, priorityCap⟩)
    · have hdistinct : ["gasPrice"].Nodup := by decide
      refine ⟨_, rfl, Json.isObjectOf_obj hdistinct ?_⟩
      exact .cons ⟨rfl, Amount.lossless.isForm_write _⟩ .nil
    · have hdistinct : ["maxFeePerGas", "maxPriorityFeePerGas"].Nodup := by decide
      refine ⟨_, rfl, Json.isObjectOf_obj hdistinct ?_⟩
      exact .cons ⟨rfl, Amount.lossless.isForm_write _⟩ (
        .cons ⟨rfl, Amount.lossless.isForm_write _⟩ .nil)
  read_eq := by
    rintro (price | ⟨wholeCap, priorityCap⟩) j ⟨content, rfl, hcontent⟩
    · obtain ⟨values, hvalues, htakes⟩ := hcontent.exists_objectRecord?_eq
      rcases htakes with _ | ⟨hprice, ⟨⟩⟩
      have hvalues : content.objectRecord? ["gasPrice"] = some [_] := hvalues
      simp only [ofJson?, Json.choice?, hvalues, Option.bind_eq_bind, Option.bind_some,
        Option.pure_def, Amount.lossless.required_eq hprice]
    · obtain ⟨values, hvalues, htakes⟩ := hcontent.exists_objectRecord?_eq
      rcases htakes with _ | ⟨hwholeCap, _ | ⟨hpriorityCap, ⟨⟩⟩⟩
      have hvalues : content.objectRecord? ["maxFeePerGas", "maxPriorityFeePerGas"] = some [_, _] :=
        hvalues
      simp only [ofJson?, Json.choice?, hvalues, Option.bind_eq_bind, Option.bind_some,
        Option.pure_def, Amount.lossless.required_eq hwholeCap,
        Amount.lossless.required_eq hpriorityCap]
  isForm_of_read := by
    intro offer j hj h
    obtain ⟨choice, hchoice, h⟩ := Option.bind_eq_some_iff.mp h
    split at h
    · next content =>
        obtain rfl := Json.choice?_eq_some_some_iff.mp hchoice
        have hcontent := hj.of_choice
        obtain ⟨values, hvalues, h⟩ := Option.bind_eq_some_iff.mp h
        have hnames := Json.hasDistinctNames_of_objectRecord? hcontent hvalues
        split at h
        · next price =>
            simp only [List.forall_mem_cons] at hnames
            obtain ⟨price, hprice, h⟩ := Option.bind_eq_some_iff.mp h
            obtain rfl := Option.some.inj h
            refine ⟨content, rfl, Json.isObjectOf_of_objectRecord? hcontent hvalues ?_⟩
            exact .cons (Amount.lossless.takes_required hnames.1 hprice) .nil
        · cases h
    · next content =>
        obtain rfl := Json.choice?_eq_some_some_iff.mp hchoice
        have hcontent := hj.of_choice
        obtain ⟨values, hvalues, h⟩ := Option.bind_eq_some_iff.mp h
        have hnames := Json.hasDistinctNames_of_objectRecord? hcontent hvalues
        split at h
        · next wholeCap priorityCap =>
            simp only [List.forall_mem_cons] at hnames
            obtain ⟨wholeCap, hwholeCap, h⟩ := Option.bind_eq_some_iff.mp h
            obtain ⟨priorityCap, hpriorityCap, h⟩ := Option.bind_eq_some_iff.mp h
            obtain rfl := Option.some.inj h
            refine ⟨content, rfl, Json.isObjectOf_of_objectRecord? hcontent hvalues ?_⟩
            exact .cons (Amount.lossless.takes_required hnames.1 hwholeCap) (
              .cons (Amount.lossless.takes_required hnames.2.1 hpriorityCap) .nil)
        · cases h
    · cases h

theorem codec : ChoiceCodec toJson ofJson? IsForm ["Legacy", "Eip1559"] := by
  refine ChoiceCodec.of_lossless lossless ?_
  intro name hname content
  simp only [List.mem_cons, List.not_mem_nil, or_false, not_or] at hname
  split
  · next heq => exact absurd (congrArg Prod.fst heq) hname.1
  · next heq => exact absurd (congrArg Prod.fst heq) hname.2
  · rfl

theorem refusesContents_flat :
    RefusesContents (fun content => ofJson? (.obj [("Legacy", content)])) ["gasPrice"] where
  refuses_lacking entries name hname hmissing := by
    have hnone := Json.lookup_eq_none_iff_notMem.mpr hmissing
    obtain rfl := List.mem_singleton.mp hname
    simp [ofJson?, Json.choice?, Json.objectRecord?, hnone, Json.required]
  refuses_arr _ := rfl

theorem refusesContents_capped :
    RefusesContents (fun content => ofJson? (.obj [("Eip1559", content)]))
      ["maxFeePerGas", "maxPriorityFeePerGas"] where
  refuses_lacking entries name hname hmissing := by
    have hnone := Json.lookup_eq_none_iff_notMem.mpr hmissing
    simp only [List.mem_cons, List.not_mem_nil, or_false] at hname
    rcases hname with rfl | rfl
    all_goals simp [ofJson?, Json.choice?, Json.objectRecord?, hnone, Json.required]
  refuses_arr _ := rfl

end Offer

namespace Transaction

def formFields (transaction : Transaction) : List Field := [
  .required "hash" transaction.hash.IsForm,
  .required "fees" transaction.offer.IsForm]

theorem codec : RecordCodec toJson ofJson? formFields ["hash", "fees"] 2 :=
  .of_pair Hash.lossless Offer.lossless (by decide) mk hash offer (fun _ => rfl)
    fun _ _ => ⟨rfl, rfl⟩

end Transaction

namespace Receipt

def formFields (receipt : Receipt) : List Field := [
  .required "transactionHash" receipt.transactionHash.IsForm,
  .required "gasUsed" receipt.gasUsed.IsForm]

theorem codec : RecordCodec toJson ofJson? formFields ["transactionHash", "gasUsed"] 2 :=
  .of_pair Hash.lossless Amount.lossless (by decide) mk transactionHash gasUsed (fun _ => rfl)
    fun _ _ => ⟨rfl, rfl⟩

end Receipt

namespace Block

def formFields (block : Block) : List Field := [
  .required "header" (IsRecordOf block.header.formFields),
  .required "transactions" (IsListOf (fun transaction => IsRecordOf transaction.formFields)
    block.transactions)]

theorem codec : RecordCodec toJson ofJson? formFields ["header", "transactions"] 2 :=
  .of_pair BlockHeader.codec.toLossless Transaction.codec.toLossless.list (by decide) mk header
    transactions (fun _ => rfl) fun _ _ => ⟨rfl, rfl⟩

end Block

end FeeWindow
