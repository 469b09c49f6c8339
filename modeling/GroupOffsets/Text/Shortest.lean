import GroupOffsets.Text.Numeral

/-!
# Shortest decimals

The fewest digits that name a real number of 64 bits among all such numbers.  Of several decimals
with as few digits the nearest is taken.
-/

namespace GroupOffsets

namespace Shortest

/-- The decimals that are rounded to a number: those from `low` to `high`, and `exact` is the number
itself, all counted in units of `num / den`. -/
structure Range where
  low : Nat
  exact : Nat
  high : Nat
  /-- Whether the two ends belong to the range. -/
  closed : Bool
  num : Nat
  den : Nat

/-- The range of the number with these bits, which is finite and above zero. -/
def range (bits : Nat) : Range :=
  let fraction : Nat := bits % 0x10000000000000
  let scale : Nat := bits / 0x10000000000000 % 0x800
  let m : Nat := if scale = 0 then fraction else 0x10000000000000 + fraction
  let e : Int := (if scale = 0 then 1 else (scale : Int)) - 1077
  { low := 4 * m - if fraction = 0 ∧ 1 < scale then 1 else 2
    exact := 4 * m
    high := 4 * m + 2
    closed := m % 2 = 0
    num := if 0 ≤ e then Nat.pow 2 e.toNat else 1
    den := if 0 ≤ e then 1 else Nat.pow 2 (-e).toNat }

/-- Ten to a power, as a fraction. -/
def tenTo (e : Int) : Nat × Nat :=
  if 0 ≤ e then (Nat.pow 10 e.toNat, 1) else (1, Nat.pow 10 (-e).toNat)

/-- Whether `d` times ten to a power lies in a range. -/
def Range.has (r : Range) (e : Int) (d : Nat) : Bool :=
  let (p, q) := tenTo e
  let x := d * p * r.den
  let low := r.low * r.num * q
  let high := r.high * r.num * q
  if r.closed then low ≤ x && x ≤ high else low < x && x < high

/-- The multiple of ten to a power that lies in a range, if there is one; the nearer one of two. -/
def Range.multiple? (r : Range) (e : Int) : Option Nat :=
  let (p, q) := tenTo e
  let x := r.exact * r.num * q
  let unit := p * r.den
  let d := x / unit
  match r.has e d && 0 < d, r.has e (d + 1) with
  | true, true => some (if 2 * (x % unit) ≤ unit then d else d + 1)
  | true, false => some d
  | false, true => some (d + 1)
  | false, false => none

/-- The first power of ten, from `e` downwards, of which a multiple lies in a range. -/
def Range.search (r : Range) : (fuel : Nat) → (e : Int) → Nat × Int
  | 0, e => (0, e)
  | fuel + 1, e =>
    match r.multiple? e with
    | some d => (d, e)
    | none => r.search fuel (e - 1)

/-- The digits of a number, and the power of ten of the last one. -/
def digits (bits : Nat) : Nat × Int := (range bits).search 700 310

/-- A decimal without an exponent. -/
def positional (d : Nat) (e : Int) : List Char :=
  let ds := Numeral.digits d
  if 0 ≤ e then ds ++ List.replicate e.toNat '0'
  else
    let places := (-e).toNat
    if places < ds.length then ds.take (ds.length - places) ++ '.' :: ds.drop (ds.length - places)
    else '0' :: '.' :: List.replicate (places - ds.length) '0' ++ ds

/-- A real number as text. -/
def text (x : Float) : String :=
  let bits := x.toBits.toNat
  let magnitude := bits % 0x8000000000000000
  let sign := if bits < 0x8000000000000000 then "" else "-"
  if x.isNaN then "NaN"
  else if x.isInf then sign ++ "inf"
  else if magnitude = 0 then sign ++ "0"
  else sign ++ String.ofList (positional (digits magnitude).1 (digits magnitude).2)

end Shortest

end GroupOffsets
