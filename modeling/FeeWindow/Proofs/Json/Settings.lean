import FeeWindow.Codec.Settings
import FeeWindow.Proofs.Json.Lossless
import FeeWindow.Proofs.Uint256.Json

/-!
The forms of a fee market's settings and of a line filter, and that both are written in one of
their forms and read from exactly these.
-/

namespace FeeWindow

open Json (Field IsRecordOf IsVariantOf IsBareVariant Lossless RecordCodec ChoiceCodec)

def Json.IsCount (n : UInt64) (j : Json) : Prop := j = .int n.toNat

theorem Json.lossless_count :
    Lossless (fun n : UInt64 => .int n.toNat) Json.count? Json.IsCount where
  isForm_write _ := rfl
  read_eq h := count?_eq_some_iff.mpr h
  isForm_of_read _ h := count?_eq_some_iff.mp h

namespace FeeMarketSettings

def formFields (settings : FeeMarketSettings) : List Field := [
  .required "activationBlock" (Json.IsCount settings.activationBlock),
  .optional "initialBaseFee" Json.IsCount settings.initialBaseFee,
  .optional "elasticityMultiplier" Json.IsCount settings.elasticity,
  .optional "baseFeeMaxChangeDenominator" Json.IsCount settings.changeDenominator]

theorem lossless : Lossless toJson ofJson? fun settings => IsRecordOf settings.formFields := by
  refine Lossless.record formFields (fun _ => rfl) ?_ ?_ ?_
  · intro settings
    have hdistinct : fieldNames.Nodup := by decide
    refine Json.isObjectOf_obj hdistinct ?_
    exact .cons ⟨rfl, Json.lossless_count.isForm_write _⟩ (
      .cons ⟨rfl, Json.lossless_count.isValue_ofOption _⟩ (
      .cons ⟨rfl, Json.lossless_count.isValue_ofOption _⟩ (
      .cons ⟨rfl, Json.lossless_count.isValue_ofOption _⟩ .nil)))
  · intro settings values h
    unfold formFields at h
    rcases h with
      _ | ⟨hactivationBlock, _ | ⟨hinitialBaseFee, _ | ⟨helasticity, _ | ⟨hdenominator, ⟨⟩⟩⟩⟩⟩
    simp only [Option.bind_eq_bind, Option.bind_some, Option.pure_def,
      Json.lossless_count.required_eq hactivationBlock,
      Json.lossless_count.optional_eq rfl hinitialBaseFee,
      Json.lossless_count.optional_eq rfl helasticity,
      Json.lossless_count.optional_eq rfl hdenominator]
  · intro settings values hnames h
    split at h
    · simp only [List.forall_mem_cons] at hnames
      obtain ⟨hnamesBlock, hnamesBaseFee, hnamesElasticity, hnamesDenominator, -⟩ := hnames
      obtain ⟨_, hactivationBlock, h⟩ := Option.bind_eq_some_iff.mp h
      obtain ⟨_, hinitialBaseFee, h⟩ := Option.bind_eq_some_iff.mp h
      obtain ⟨_, helasticity, h⟩ := Option.bind_eq_some_iff.mp h
      obtain ⟨_, hdenominator, h⟩ := Option.bind_eq_some_iff.mp h
      obtain rfl := Option.some.inj h
      exact .cons (Json.lossless_count.takes_required hnamesBlock hactivationBlock) (
        .cons (Json.lossless_count.takes_optional hnamesBaseFee hinitialBaseFee) (
        .cons (Json.lossless_count.takes_optional hnamesElasticity helasticity) (
        .cons (Json.lossless_count.takes_optional hnamesDenominator hdenominator) .nil)))
    · cases h

theorem codec : RecordCodec toJson ofJson? formFields ["activationBlock"] 4 := by
  refine RecordCodec.of_lossless lossless ?_
  intro find name hname hnone
  obtain rfl := List.mem_singleton.mp hname
  simp [fieldNames, hnone, Json.required]

end FeeMarketSettings

namespace LineFilter

def IsForm : LineFilter → Json → Prop
  | .showAll => IsBareVariant "ShowAll"
  | .hideAll => IsBareVariant "HideAll"
  | .showPattern pattern => IsVariantOf "ShowPattern" (· = .str pattern)
  | .hidePattern pattern => IsVariantOf "HidePattern" (· = .str pattern)

theorem lossless : Lossless toJson ofJson? IsForm where
  isForm_write := by
    rintro (_ | _ | pattern | pattern)
    · exact .inl rfl
    · exact .inl rfl
    · exact ⟨_, rfl, rfl⟩
    · exact ⟨_, rfl, rfl⟩
  read_eq := by
    intro filter j h
    cases filter with
    | showAll =>
        obtain ⟨content, hchoice, hbare⟩ := Json.isBareVariant_iff.mp h
        simp only [ofJson?, hchoice, Option.bind_eq_bind, Option.bind_some, hbare, if_true]
    | hideAll =>
        obtain ⟨content, hchoice, hbare⟩ := Json.isBareVariant_iff.mp h
        simp only [ofJson?, hchoice, Option.bind_eq_bind, Option.bind_some, hbare, if_true]
    | showPattern pattern =>
        obtain ⟨_, rfl, rfl⟩ := h
        rfl
    | hidePattern pattern =>
        obtain ⟨_, rfl, rfl⟩ := h
        rfl
  isForm_of_read := by
    intro filter j _ h
    obtain ⟨choice, hchoice, h⟩ := Option.bind_eq_some_iff.mp h
    split at h
    · next content =>
        obtain ⟨hbare, ⟨⟩⟩ := Option.ite_none_right_eq_some.mp h
        exact Json.isBareVariant_iff.mpr ⟨content, hchoice, hbare⟩
    · next content =>
        obtain ⟨hbare, ⟨⟩⟩ := Option.ite_none_right_eq_some.mp h
        exact Json.isBareVariant_iff.mpr ⟨content, hchoice, hbare⟩
    · next content =>
        obtain ⟨pattern, hpattern, rfl⟩ := Option.map_eq_some_iff.mp h
        exact ⟨content, Json.choice?_eq_some_some_iff.mp hchoice, Json.str?_eq_some_iff.mp hpattern⟩
    · next content =>
        obtain ⟨pattern, hpattern, rfl⟩ := Option.map_eq_some_iff.mp h
        exact ⟨content, Json.choice?_eq_some_some_iff.mp hchoice, Json.str?_eq_some_iff.mp hpattern⟩
    · cases h

theorem codec :
    ChoiceCodec toJson ofJson? IsForm ["ShowAll", "HideAll", "ShowPattern", "HidePattern"] := by
  refine ChoiceCodec.of_lossless lossless ?_
  intro name hname content
  simp only [List.mem_cons, List.not_mem_nil, or_false, not_or] at hname
  obtain ⟨hshowAll, hhideAll, hshowPattern, hhidePattern⟩ := hname
  split
  · next heq => exact absurd (congrArg Prod.fst heq) hshowAll
  · next heq => exact absurd (congrArg Prod.fst heq) hhideAll
  · next heq => exact absurd (congrArg Prod.fst heq) hshowPattern
  · next heq => exact absurd (congrArg Prod.fst heq) hhidePattern
  · rfl

end LineFilter

end FeeWindow
