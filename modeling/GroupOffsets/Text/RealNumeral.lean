import GroupOffsets.Text.Numeral

/-!
# Real numerals

Real numbers as text: an optional sign and either digits, with a point and an exponent if need be,
or the word for infinity or for what is not a number.
-/

namespace GroupOffsets

namespace RealNumeral

/-- The number that decimal digits stand for. -/
def value (ds : List Char) : Nat := ds.foldl (fun n d => n * 10 + (Numeral.digit? d).getD 0) 0

def isDigit (c : Char) : Bool := (Numeral.digit? c).isSome

/-- The real number nearest to `digits` times a power of ten. -/
def nearest (digits : Nat) (exponent : Int) : Float :=
  let size : Int := (Nat.toDigits 10 digits).length
  if digits = 0 ∨ size + exponent < -400 then 0
  else if 400 < size + exponent then 1 / 0
  else if exponent < 0 then Float.ofScientific digits true exponent.natAbs
  else Float.ofScientific digits false exponent.natAbs

/-- A sign, and whether it is a minus. -/
def sign : List Char → Bool × List Char
  | '+' :: cs => (false, cs)
  | '-' :: cs => (true, cs)
  | cs => (false, cs)

/-- The exponent of a numeral; zero if there is none. -/
def exponent : List Char → Option Int
  | [] => some 0
  | e :: cs =>
    let (negative, ds) := sign cs
    if (e = 'e' ∨ e = 'E') ∧ !ds.isEmpty ∧ ds.all isDigit then
      some (if negative then -value ds else value ds)
    else none

/-- The digits behind a point, if there is one. -/
def fraction : List Char → List Char × List Char
  | '.' :: cs => (cs.takeWhile isDigit, cs.dropWhile isDigit)
  | cs => ([], cs)

/-- Reads digits with a point and an exponent.  There has to be a digit, before the point or behind
it. -/
def readDigits (cs : List Char) : Option Float := do
  let whole := cs.takeWhile isDigit
  let (part, rest) := fraction (cs.dropWhile isDigit)
  if whole.isEmpty && part.isEmpty then none
  else return nearest (value (whole ++ part)) ((← exponent rest) - part.length)

/-- Reads a numeral.  Its words may be in letters of any case. -/
def read (cs : List Char) : Option Float :=
  let (negative, cs) := sign cs
  let word := String.ofList (cs.map Char.toLower)
  let size : Option Float :=
    if word = "inf" ∨ word = "infinity" then some (1 / 0)
    else if word = "nan" then some (0 / 0)
    else readDigits cs
  size.map fun x => if negative then -x else x

end RealNumeral

end GroupOffsets
