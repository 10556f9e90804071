import FeeWindow.Binary64.Shortest

/-!
The texts of binary64 numbers. All of them show the shortest digits; a style says which decimal
exponents are written out in full, whether a whole number keeps a point and a zero, whether a
positive exponent has a sign, and how a tie between two shortest numerals is broken.
-/

namespace FeeWindow

/-- The choices that tell the texts of numbers apart. Numbers whose leading digit stands at an
exponent from `leastPlain` up to, but not at, `plainEnd` are written out in full; no bound means
that all are. -/
structure NumberStyle where
  leastPlain : Option Int
  plainEnd : Option Int
  keepsPoint : Bool
  signsExponent : Bool
  half : HalfRule

namespace NumberStyle

/-- Messages for people: always in full, whole numbers without a point. -/
def message : NumberStyle := ⟨none, none, false, false, .up⟩

/-- Values inside a record: whole numbers keep a point, and very large or small ones have an
exponent. -/
def field : NumberStyle := ⟨some (-4), some 16, true, false, .up⟩

/-- Numbers of a JSON text. -/
def json : NumberStyle := ⟨some (-5), some 16, true, true, .toEven⟩

/-- Whether numbers with this leading exponent are written out in full. -/
def isPlain (style : NumberStyle) (leading : Int) : Bool :=
  style.leastPlain.all (· ≤ leading) && style.plainEnd.all (leading < ·)

/-- Digits written out in full. -/
def plain (style : NumberStyle) (digits : List Char) (exponent : Int) : List Char :=
  if 0 ≤ exponent then
    digits ++ List.replicate exponent.toNat '0' ++ (if style.keepsPoint then ['.', '0'] else [])
  else
    let places := (-exponent).toNat
    if places < digits.length then
      digits.take (digits.length - places) ++ ['.'] ++ digits.drop (digits.length - places)
    else ['0', '.'] ++ List.replicate (places - digits.length) '0' ++ digits

/-- Digits with a point after the first one and an exponent. -/
def scientific (style : NumberStyle) (digits : List Char) (leading : Int) : List Char :=
  let mantissa := match digits with
    | first :: rest@(_ :: _) => first :: '.' :: rest
    | short => short
  let sign := if leading < 0 then ['-'] else if style.signsExponent then ['+'] else []
  mantissa ++ ['e'] ++ sign ++ Numeral.text 10 leading.natAbs

def decimal (style : NumberStyle) (d : Decimal) : List Char :=
  let digits := Numeral.text 10 d.digits
  let leading := d.exponent + digits.length - 1
  if style.isPlain leading then style.plain digits d.exponent
  else style.scientific digits leading

def render (style : NumberStyle) (x : Binary64) : String :=
  if x.isNaN then "NaN"
  else
    let magnitude :=
      if x.isInfinite then ['i', 'n', 'f']
      else if x.isZero then style.plain ['0'] 0
      else style.decimal (Binary64.shortest style.half x.rank)
    String.ofList (if x.negative then '-' :: magnitude else magnitude)

end NumberStyle

end FeeWindow
