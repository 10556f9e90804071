import FeeWindow.Proofs.Pattern.Counts

/-!
Kinds of groups and eagerness do not tell patterns apart. Patterns have a plain form, whose groups
are plain and whose repetitions are eager, and the search answers for it as for the pattern. Tokens
have a plain form too. Building a pattern from the plain forms of tokens goes through the plain
forms of all its states, so that texts with the same plain tokens have patterns with the same plain
form.
-/

namespace FeeWindow.Pattern

section Patterns

/-- A pattern with all its groups plain and all its repetitions eager. -/
def plain : Pattern → Pattern
  | .empty => .empty
  | .one set => .one set
  | .assertion a => .assertion a
  | .group _ p => .group .plain p.plain
  | .repeated p least most _ => .repeated p.plain least most true
  | .seq p q => .seq p.plain q.plain
  | .alt p q => .alt p.plain q.plain

theorem motion_plain (p : Pattern) (text : List Char) (index : CharIndex) :
    p.plain.motion text index = p.motion text index := by
  induction p with
  | empty | one | assertion => rfl
  | group kind p ih => exact ih
  | repeated p least most eager ih => simp only [plain, motion, ih]
  | seq p q ihp ihq => simp only [plain, motion, ihp, ihq]
  | alt p q ihp ihq => simp only [plain, motion, ihp, ihq]

theorem isIn_plain (p : Pattern) (text : String) : p.plain.isIn text = p.isIn text := by
  simp only [isIn, motion_plain]

end Patterns

section Tokens

/-- The settings other than the one that swaps eager and lazy repetitions. -/
def plainSettings (settings : Settings) : Settings := settings.filter (·.1 ≠ .swapEager)

/-- A token with its group plain and its repetition eager. -/
def Token.plain : Token → Token
  | .item set => .item set
  | .dot => .dot
  | .caret => .caret
  | .dollar => .dollar
  | .assertion a => .assertion a
  | .repetition least most _ => .repetition least most false
  | .opening _ changes => .opening .plain (plainSettings changes)
  | .closing => .closing
  | .bar => .bar
  | .settings changes => .settings (plainSettings changes)

/-- The plain tokens of a text. -/
def plainTokens? (text : String) : Option (List Token) :=
  (tokens? text.toList.length text.toList).map (·.map Token.plain)

def Mode.plain (mode : Mode) : Mode := { mode with swapEager := false }

theorem Mode.plain_apply (mode : Mode) (settings : Settings) :
    (mode.apply settings).plain = mode.plain.apply (plainSettings settings) := by
  unfold apply plainSettings
  induction settings generalizing mode with
  | nil => rfl
  | cons entry settings ih =>
      obtain ⟨setting, on⟩ := entry
      rw [List.foldl_cons, ih]
      cases setting <;> rfl

end Tokens

section Parts

def Part.plain (part : Part) : Part := ⟨part.pattern.plain, part.depth⟩

section Joining

variable {op : Pattern → Pattern → Pattern} (hop : ∀ p q, (op p q).plain = op p.plain q.plain)
  (parts : List Part)

include hop

theorem plain_foldl (p : Pattern) :
    (parts.foldl (fun rest part => op part.pattern rest) p).plain =
      (parts.map Part.plain).foldl (fun rest part => op part.pattern rest) p.plain := by
  induction parts generalizing p with
  | nil => rfl
  | cons part parts ih =>
      rw [List.foldl_cons, ih, hop]
      rfl

theorem Part.plain_join : (join op parts).plain = join op (parts.map plain) := by
  match parts with
  | [] => rfl
  | [part] => rfl
  | last :: next :: before =>
      have hpattern := plain_foldl hop (next :: before) last.pattern
      have hdepth (depth : Nat) :
          (next :: before).foldl (fun depth part => max depth part.depth) depth =
            ((next :: before).map plain).foldl (fun depth part => max depth part.depth) depth := by
        rw [List.foldl_map]
        rfl
      exact congr (congrArg Part.mk hpattern) (congrArg (· + 1) (hdepth last.depth))

end Joining

theorem Part.plain_joinSeq (parts : List Part) :
    (join .seq parts).plain = join .seq (parts.map plain) :=
  plain_join (fun p q => (rfl : (Pattern.seq p q).plain = _)) parts

theorem Part.plain_joinAlt (parts : List Part) :
    (join .alt parts).plain = join .alt (parts.map plain) :=
  plain_join (fun p q => (rfl : (Pattern.alt p q).plain = _)) parts

def Enclosing.plain (enclosing : Enclosing) : Enclosing where
  kind := .plain
  mode := enclosing.mode.plain
  branches := enclosing.branches.map Part.plain
  items := enclosing.items.map Part.plain

namespace Assembly

variable {a b : Assembly} {token : Token} {tokens : List Token}

def plain (a : Assembly) : Assembly where
  outer := a.outer.map Enclosing.plain
  mode := a.mode.plain
  branches := a.branches.map Part.plain
  items := a.items.map Part.plain
  repeatable := a.repeatable
  names := []

theorem plain_inner : a.inner.plain = a.plain.inner := by
  unfold inner
  rw [Part.plain_joinAlt, List.map_cons, Part.plain_joinSeq]
  rfl

/-- The plain form of a token leads from the plain form of a state to that of the next. -/
theorem step?_plain (h : a.step? token = some b) : a.plain.step? token.plain = some b.plain := by
  cases token with
  | item | dot | caret | dollar | assertion =>
      cases h
      rfl
  | repetition least most lazy =>
      unfold step? at h
      dsimp only at h
      split at h
      · next item items hrepeatable hitems =>
          cases h
          obtain ⟨outer, mode, branches, _, _, names⟩ := a
          cases hrepeatable
          cases hitems
          rfl
      · cases h
  | opening kind settings =>
      obtain ⟨declared, hdeclare, h⟩ := Option.bind_eq_some_iff.mp h
      obtain ⟨names, rfl⟩ := declare?_eq_some hdeclare
      cases h
      have hmode := Mode.plain_apply a.mode settings
      simp only [plain, hmode]
      rfl
  | closing =>
      unfold step? at h
      dsimp only at h
      split at h
      · cases h
      · next enclosing outer houter =>
          cases h
          have hplainOuter : a.plain.outer = enclosing.plain :: outer.map Enclosing.plain :=
            congrArg (List.map Enclosing.plain) houter
          have hinner : a.plain.inner.wrap (.group enclosing.plain.kind) =
              (a.inner.wrap (.group enclosing.kind)).plain := by
            rw [← plain_inner]
            rfl
          simp only [step?, Token.plain, hplainOuter, hinner]
          rfl
  | bar =>
      cases h
      simp only [plain, List.map_cons, Part.plain_joinSeq]
      rfl
  | settings settings =>
      cases h
      have hmode := Mode.plain_apply a.mode settings
      simp only [plain, hmode]
      rfl

theorem foldlM_plain (h : tokens.foldlM step? a = some b) :
    (tokens.map Token.plain).foldlM step? a.plain = some b.plain := by
  induction tokens generalizing a with
  | nil =>
      cases h
      rfl
  | cons token tokens ih =>
      rw [List.foldlM_cons] at h
      obtain ⟨next, hstep, h⟩ := Option.bind_eq_some_iff.mp h
      rw [List.map_cons, List.foldlM_cons, step?_plain hstep]
      exact ih h

end Assembly

end Parts

/-- Plain tokens spell the plain form of what the tokens spell. -/
theorem ofTokens?_plain {tokens : List Token} {part : Part} (h : ofTokens? tokens = some part) :
    ofTokens? (tokens.map Token.plain) = some part.plain := by
  obtain ⟨assembly, hrun, h⟩ := Option.bind_eq_some_iff.mp h
  split at h
  · next houter =>
      cases h
      have hplain := Assembly.foldlM_plain hrun
      have houter' : assembly.plain.outer = [] := by simp [Assembly.plain, houter]
      rw [Assembly.plain_inner]
      unfold ofTokens?
      rw [show Assembly.start = Assembly.start.plain from rfl, hplain]
      exact if_pos houter'
  · cases h

theorem plain_eq_of_plainTokens?_eq {left right : String} {p q : Pattern}
    (hleft : ofString? left = some p) (hright : ofString? right = some q)
    (h : plainTokens? left = plainTokens? right) : p.plain = q.plain := by
  obtain ⟨leftTokens, leftPart, hleftTokens, hleftPart, _, rfl⟩ := ofString?_eq_some hleft
  obtain ⟨rightTokens, rightPart, hrightTokens, hrightPart, _, rfl⟩ := ofString?_eq_some hright
  have htokens : leftTokens.map Token.plain = rightTokens.map Token.plain := by
    simpa [plainTokens?, hleftTokens, hrightTokens] using h
  have hplain := ofTokens?_plain hleftPart
  rw [htokens, ofTokens?_plain hrightPart] at hplain
  exact congrArg Part.pattern (Option.some.inj hplain).symm

end FeeWindow.Pattern
