import GroupOffsets.Config.Setting
import GroupOffsets.Text.RealNumeral

/-!
# JSON numbers

A number without a fraction and an exponent is whole, if it fits into 64 bits; every other one is
real.  Of the digits of a real number those count that fit into 64 bits together, and what they say
is then multiplied or divided by a power of ten: that can be off by a little from the real number
nearest to what was written.
-/

namespace GroupOffsets

namespace Json

/-- A scanner for values of type `α`: what it read, and what follows it. -/
abbrev Scan (α : Type) : Type := List Char → Option (α × List Char)

/-- The largest number of 64 bits. -/
def largest : Nat := 0xFFFFFFFFFFFFFFFF

/-- The largest exponent. -/
def largestExponent : Nat := 0x7FFFFFFF

/-- Takes digits as long as all of them together fit into 64 bits: what they say after `n`, how many
they are, and what follows them. -/
def digits (n : Nat) : List Char → Nat × Nat × List Char
  | [] => (n, 0, [])
  | c :: cs =>
    match Numeral.digit? c with
    | none => (n, 0, c :: cs)
    | some d =>
      if largest < n * 10 + d then (n, 0, c :: cs)
      else
        let (n, taken, rest) := digits (n * 10 + d) cs
        (n, taken + 1, rest)

/-- A power of ten. -/
def powerOfTen (n : Nat) : Float := Float.ofScientific 1 false n

/-- A number times a power of ten; `none` if it is too large. -/
def scaled : (fuel : Nat) → Float → Int → Option Float
  | 0, _, _ => none
  | fuel + 1, x, exponent =>
    if exponent.natAbs ≤ 308 then
      if 0 ≤ exponent then
        let x := x * powerOfTen exponent.natAbs
        if x == 1 / 0 then none else some x
      else some (x / powerOfTen exponent.natAbs)
    else if x == 0 then some x
    else if 0 ≤ exponent then none
    else scaled fuel (x / powerOfTen 308) (exponent + 308)

/-- The real number of its digits and a power of ten. -/
def real (negative : Bool) (n : Nat) (exponent : Int) : Option Setting :=
  (scaled 16 (Float.ofNat n) exponent).map fun x => .real (if negative then -x else x)

/-- What follows the letter of an exponent.  An exponent that is too large by itself makes zero of
the number, or is refused. -/
def exponentAfter (negative : Bool) (n : Nat) (exponent : Int) (cs : List Char) :
    Option (Setting × List Char) :=
  let (down, cs) := RealNumeral.sign cs
  let ds := cs.takeWhile RealNumeral.isDigit
  let rest := cs.dropWhile RealNumeral.isDigit
  let size := RealNumeral.value ds
  if ds.isEmpty then none
  else if largestExponent < size then
    if n ≠ 0 ∧ !down then none else some (.real (if negative then -0.0 else 0.0), rest)
  else (real negative n (if down then exponent - size else exponent + size)).map (·, rest)

/-- What follows the digits of a real number. -/
def afterDigits (negative : Bool) (n : Nat) (exponent : Int) :
    List Char → Option (Setting × List Char)
  | 'e' :: cs | 'E' :: cs => exponentAfter negative n exponent cs
  | cs => (real negative n exponent).map (·, cs)

/-- What follows the point of a number. -/
def afterPoint (negative : Bool) (n : Nat) (exponent : Int) (cs : List Char) :
    Option (Setting × List Char) :=
  let (n, taken, rest) := digits n cs
  match cs with
  | c :: _ =>
    if RealNumeral.isDigit c then
      afterDigits negative n (exponent - taken) (rest.dropWhile RealNumeral.isDigit)
    else none
  | [] => none

/-- A whole number, if it fits; below zero it has one bit less, and zero has no minus sign. -/
def whole (negative : Bool) (n : Nat) : Setting :=
  if !negative then .whole n
  else if n = 0 ∨ 0x8000000000000000 < n then .real (-Float.ofNat n)
  else .whole (-n)

/-- A number. -/
def number (cs : List Char) : Option (Setting × List Char) :=
  let (negative, cs) := match cs with
    | '-' :: cs => (true, cs)
    | cs => (false, cs)
  let (n, taken, rest) := digits 0 cs
  let surplus := rest.takeWhile RealNumeral.isDigit
  let rest := rest.dropWhile RealNumeral.isDigit
  if taken = 0 ∨ (cs.head? = some '0' ∧ 1 < taken) then none
  else match rest with
    | '.' :: cs => afterPoint negative n surplus.length cs
    | 'e' :: cs | 'E' :: cs => exponentAfter negative n surplus.length cs
    | rest =>
      if surplus.isEmpty then some (whole negative n, rest)
      else (real negative n surplus.length).map (·, rest)

end Json

end GroupOffsets
