/-!
How the characters of a range are written in UTF-8: as byte strings that are given by one range for
each byte.
-/

namespace FeeWindow.Text

/-- Bytes from a least to a greatest one. -/
abbrev ByteRange := Nat × Nat

/-- The byte strings with a byte of each range in turn. -/
abbrev ByteSpan := List ByteRange

/-- Any byte after the first of a character. -/
def anyTail : ByteRange := (0x80, 0xBF)

/-- The spans of the numbers from `low` to `high` that take a first byte, counted from `lead`, and
`tails` further bytes with six bits each. Numbers that fill no whole block of the first byte are
set apart at both ends. -/
def blockSpans (tails lead low high : Nat) : List ByteSpan :=
  match tails with
  | 0 => [[(lead + low, lead + high)]]
  | tails + 1 =>
      let size := Nat.pow 64 (tails + 1)
      let first := low / size
      let last := high / size
      let within (block lower upper : Nat) : List ByteSpan :=
        (blockSpans tails anyTail.1 lower upper).map ((lead + block, lead + block) :: ·)
      if first = last then within first (low % size) (high % size)
      else
        let cutsFirst := low % size != 0
        let cutsLast := high % size != size - 1
        let wholeFrom := if cutsFirst then first + 1 else first
        let wholeTo := if cutsLast then last - 1 else last
        (if cutsFirst then within first (low % size) (size - 1) else []) ++
        (if wholeFrom ≤ wholeTo then
          [(lead + wholeFrom, lead + wholeTo) :: List.replicate (tails + 1) anyTail] else []) ++
        (if cutsLast then within last 0 (high % size) else [])

/-- The character numbers of each length of their bytes: the least and the greatest, how many bytes
follow the first, and what the first is counted from. The numbers of surrogates are left out. -/
def lengthClasses : List (Nat × Nat × Nat × Nat) := [
  (0, 0x7F, 0, 0), (0x80, 0x7FF, 1, 0xC0), (0x800, 0xD7FF, 2, 0xE0), (0xE000, 0xFFFF, 2, 0xE0),
  (0x10000, 0x10FFFF, 3, 0xF0)]

/-- The spans of the characters from `low` to `high`, in ascending order. -/
def byteSpans (low high : Nat) : List ByteSpan :=
  lengthClasses.flatMap fun (least, greatest, tails, lead) =>
    let low := max low least
    let high := min high greatest
    if low ≤ high then blockSpans tails lead low high else []

end FeeWindow.Text
