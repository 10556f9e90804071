import FeeWindow.Pattern.Reader
import FeeWindow.Proofs.Pattern.Motion

/-!
The counts of a pattern that has been read are in order. A text is refused where braces hold a
greatest count below the least one, and building a pattern from tokens takes the counts of a
repetition from its token and leaves those of its parts as they are.
-/

namespace FeeWindow.Pattern

section Tokens

/-- A greatest count, if there is one, is no less than the least one. -/
def Token.HasOrderedCounts : Token → Prop
  | .repetition least most _ => ∀ m, most = some m → least ≤ m
  | _ => True

variable {token : Token} {s rest : List Char}

theorem hasOrderedCounts_repetition {least : Nat} {most : Option Nat}
    (h : ∀ m, most = some m → least ≤ m) : (repetition least most s).1.HasOrderedCounts :=
  h

theorem hasOrderedCounts_of_countsEnd? {least : Nat} {most : Option Nat}
    (h : countsEnd? least most s = some (token, rest)) : token.HasOrderedCounts := by
  unfold countsEnd? at h
  split at h
  · split at h
    · next hend =>
        obtain rfl : (repetition least most _).1 = token := congrArg Prod.fst (Option.some.inj h)
        apply hasOrderedCounts_repetition
        intro m hm
        simpa [hm] using hend.2
    · cases h
  · cases h

theorem hasOrderedCounts_of_counts? (h : counts? s = some (token, rest)) :
    token.HasOrderedCounts := by
  unfold counts? at h
  obtain ⟨⟨least, s⟩, _, h⟩ := Option.bind_eq_some_iff.mp h
  dsimp only at h
  split at h
  · split at h
    · obtain rfl : (repetition least none _).1 = token := congrArg Prod.fst (Option.some.inj h)
      exact hasOrderedCounts_repetition nofun
    · obtain ⟨⟨most, s⟩, _, h⟩ := Option.bind_eq_some_iff.mp h
      exact hasOrderedCounts_of_countsEnd? h
  · exact hasOrderedCounts_of_countsEnd? h

/-- The head of a group never is a repetition. -/
theorem hasOrderedCounts_of_groupHead? {read : Settings} {off : Bool}
    (h : groupHead? read off s = some (token, rest)) : token.HasOrderedCounts := by
  fun_induction groupHead? read off s with
  | case1 => cases h
  | case2 => cases h; trivial
  | case3 => cases h
  | case4 => cases h; trivial
  | case5 => cases h
  | case6 _ _ _ _ ih => exact ih h
  | case7 read off c s _ _ _ ih =>
      obtain ⟨setting, _, h⟩ := Option.bind_eq_some_iff.mp h
      split at h
      · cases h
      · exact ih setting h
  | case8 => cases h

theorem hasOrderedCounts_of_groupName? (h : groupName? s = some (token, rest)) :
    token.HasOrderedCounts := by
  unfold groupName? at h
  dsimp only at h
  split at h
  · split at h
    · cases h
      trivial
    · cases h
  · cases h

theorem hasOrderedCounts_of_group? (h : group? s = some (token, rest)) :
    token.HasOrderedCounts := by
  unfold group? at h
  split at h
  · exact hasOrderedCounts_of_groupName? h
  · cases h
  · cases h
  · exact hasOrderedCounts_of_groupName? h
  · exact hasOrderedCounts_of_groupHead? h
  · cases h
    trivial

theorem hasOrderedCounts_ofEscape (escape : Escape) : (Token.ofEscape escape).HasOrderedCounts := by
  cases escape <;> trivial

theorem hasOrderedCounts_of_token? (h : token? s = some (token, rest)) :
    token.HasOrderedCounts := by
  unfold token? at h
  split at h <;>
    grind [Token.HasOrderedCounts, Option.map_eq_some_iff, hasOrderedCounts_of_group?,
      hasOrderedCounts_of_counts?, hasOrderedCounts_ofEscape, repetition, Token.ofChar]

theorem hasOrderedCounts_of_tokens? {fuel : Nat} {tokens : List Token}
    (h : tokens? fuel s = some tokens) : ∀ token ∈ tokens, token.HasOrderedCounts := by
  fun_induction tokens? fuel s generalizing tokens with
  | case1 =>
      cases h
      exact nofun
  | case2 => cases h
  | case3 => cases h
  | case4 fuel s _ token rest hread ih =>
      obtain ⟨others, hothers, rfl⟩ := Option.map_eq_some_iff.mp h
      exact List.forall_mem_cons.mpr ⟨hasOrderedCounts_of_token? hread, ih hothers⟩

end Tokens

section Parts

variable {a b : Assembly} {token : Token} {tokens : List Token} {parts : List Part} {part : Part}

/-- The counts of all given parts are in order. -/
def HaveOrderedCounts (parts : List Part) : Prop :=
  ∀ part ∈ parts, part.pattern.HasOrderedCounts

theorem haveOrderedCounts_cons : HaveOrderedCounts (part :: parts) ↔
    part.pattern.HasOrderedCounts ∧ HaveOrderedCounts parts :=
  List.forall_mem_cons

/-- Joining parts by an operation that keeps counts in order. -/
theorem HaveOrderedCounts.join {op : Pattern → Pattern → Pattern}
    (hop : ∀ p q, p.HasOrderedCounts → q.HasOrderedCounts → (op p q).HasOrderedCounts)
    (h : HaveOrderedCounts parts) : (Part.join op parts).pattern.HasOrderedCounts := by
  unfold Part.join
  split
  · trivial
  · exact h _ (List.mem_singleton.mpr rfl)
  · obtain ⟨hlast, hbefore⟩ := haveOrderedCounts_cons.mp h
    apply List.foldlRecOn _ _ hlast
    intro rest hrest part hpart
    exact hop _ _ (hbefore part hpart) hrest

theorem HaveOrderedCounts.joinSeq (h : HaveOrderedCounts parts) :
    (Part.join .seq parts).pattern.HasOrderedCounts :=
  h.join fun _ _ hp hq => ⟨hp, hq⟩

theorem HaveOrderedCounts.joinAlt (h : HaveOrderedCounts parts) :
    (Part.join .alt parts).pattern.HasOrderedCounts :=
  h.join fun _ _ hp hq => ⟨hp, hq⟩

namespace Assembly

/-- All counts of a pattern under construction are in order, in the open groups too. -/
structure HasOrderedCounts (a : Assembly) : Prop where
  branches : HaveOrderedCounts a.branches
  items : HaveOrderedCounts a.items
  outer : ∀ enclosing ∈ a.outer,
    HaveOrderedCounts enclosing.branches ∧ HaveOrderedCounts enclosing.items

theorem hasOrderedCounts_start : start.HasOrderedCounts := ⟨nofun, nofun, nofun⟩

theorem HasOrderedCounts.inner (h : a.HasOrderedCounts) : a.inner.pattern.HasOrderedCounts :=
  HaveOrderedCounts.joinAlt (haveOrderedCounts_cons.mpr ⟨h.items.joinSeq, h.branches⟩)

theorem HasOrderedCounts.push (h : a.HasOrderedCounts) (hpart : part.pattern.HasOrderedCounts) :
    (a.push part).HasOrderedCounts :=
  ⟨h.branches, haveOrderedCounts_cons.mpr ⟨hpart, h.items⟩, h.outer⟩

theorem declare?_eq_some {kind : GroupKind} (h : a.declare? kind = some b) :
    ∃ names, b = { a with names } := by
  unfold declare? at h
  split at h
  · split at h
    · cases h
    · exact ⟨_, (Option.some.inj h).symm⟩
  · exact ⟨a.names, (Option.some.inj h).symm⟩

/-- A token whose own counts are in order keeps all others so. -/
theorem HasOrderedCounts.step? (h : a.HasOrderedCounts) (htoken : token.HasOrderedCounts)
    (hstep : a.step? token = some b) : b.HasOrderedCounts := by
  cases token with
  | item | dot | caret | dollar | assertion =>
      cases hstep
      exact h.push trivial
  | repetition least most lazy =>
      unfold Assembly.step? at hstep
      dsimp only at hstep
      split at hstep
      · next item items _ hitems =>
          cases hstep
          obtain ⟨hitem, hothers⟩ := haveOrderedCounts_cons.mp (hitems ▸ h.items)
          exact ⟨h.branches, haveOrderedCounts_cons.mpr ⟨⟨htoken, hitem⟩, hothers⟩, h.outer⟩
      · cases hstep
  | opening kind settings =>
      obtain ⟨declared, hdeclare, hstep⟩ := Option.bind_eq_some_iff.mp hstep
      obtain ⟨names, rfl⟩ := declare?_eq_some hdeclare
      cases hstep
      exact ⟨nofun, nofun, List.forall_mem_cons.mpr ⟨⟨h.branches, h.items⟩, h.outer⟩⟩
  | closing =>
      unfold Assembly.step? at hstep
      dsimp only at hstep
      split at hstep
      · cases hstep
      · next enclosing outer houter =>
          cases hstep
          obtain ⟨⟨hbranches, hitems⟩, hothers⟩ := List.forall_mem_cons.mp (houter ▸ h.outer)
          exact ⟨hbranches, haveOrderedCounts_cons.mpr ⟨h.inner, hitems⟩, hothers⟩
  | bar =>
      cases hstep
      exact ⟨haveOrderedCounts_cons.mpr ⟨h.items.joinSeq, h.branches⟩, nofun, h.outer⟩
  | settings settings =>
      cases hstep
      exact ⟨h.branches, haveOrderedCounts_cons.mpr ⟨trivial, h.items⟩, h.outer⟩

theorem HasOrderedCounts.foldlM (h : a.HasOrderedCounts)
    (htokens : ∀ token ∈ tokens, token.HasOrderedCounts)
    (hrun : tokens.foldlM Assembly.step? a = some b) : b.HasOrderedCounts := by
  induction tokens generalizing a with
  | nil =>
      cases hrun
      exact h
  | cons token tokens ih =>
      rw [List.foldlM_cons] at hrun
      obtain ⟨next, hstep, hrun⟩ := Option.bind_eq_some_iff.mp hrun
      obtain ⟨htoken, htokens⟩ := List.forall_mem_cons.mp htokens
      exact ih (h.step? htoken hstep) htokens hrun

end Assembly

end Parts

theorem hasOrderedCounts_of_ofTokens? {tokens : List Token} {part : Part}
    (htokens : ∀ token ∈ tokens, token.HasOrderedCounts) (h : ofTokens? tokens = some part) :
    part.pattern.HasOrderedCounts := by
  obtain ⟨assembly, hrun, h⟩ := Option.bind_eq_some_iff.mp h
  split at h
  · cases h
    exact (Assembly.hasOrderedCounts_start.foldlM htokens hrun).inner
  · cases h

theorem ofString?_eq_some {text : String} {p : Pattern} (h : ofString? text = some p) :
    ∃ tokens part, tokens? text.toList.length text.toList = some tokens ∧
      ofTokens? tokens = some part ∧ part.isWithinLimits = true ∧ part.pattern = p := by
  unfold ofString? at h
  obtain ⟨tokens, htokens, h⟩ := Option.bind_eq_some_iff.mp h
  obtain ⟨part, hpart, h⟩ := Option.bind_eq_some_iff.mp h
  split at h
  · next hlimits =>
      cases h
      exact ⟨tokens, part, htokens, hpart, hlimits, rfl⟩
  · cases h

theorem hasOrderedCounts_of_ofString? {text : String} {p : Pattern}
    (h : ofString? text = some p) : p.HasOrderedCounts := by
  obtain ⟨tokens, part, htokens, hpart, _, rfl⟩ := ofString?_eq_some h
  exact hasOrderedCounts_of_ofTokens? (hasOrderedCounts_of_tokens? htokens) hpart

end FeeWindow.Pattern
