import GroupOffsets.Config.Setting
import GroupOffsets.Text.RealNumeral
import GroupOffsets.Toml.Scan

/-!
# The plain values of a TOML document

Truth values, whole numbers, real numbers, dates and times, each as it is written without blanks in
it.  A date or a time is read as the text of its standard form.
-/

namespace GroupOffsets

namespace Toml

/-- Digits in which single underscores may divide groups. -/
def digitRun (isDigit : Char → Bool) : Scan (List Char)
  | '_' :: _ => none
  | cs => go false cs
where
  /-- What may follow, told whether the last character was an underscore. -/
  go : Bool → Scan (List Char)
    | last, c :: cs =>
      if isDigit c then cons c (go false cs)
      else if c = '_' then if last then none else go true cs
      else if last then none
      else some ([], c :: cs)
    | last, [] => if last then none else some ([], [])

/-- At least one digit. -/
def digits (isDigit : Char → Bool) (cs : List Char) : Option (List Char × List Char) :=
  match digitRun isDigit cs with
  | some ([], _) | none => none
  | r => r

/-- A whole number of 64 bits. -/
def whole (n : Int) : Option Setting :=
  if -0x8000000000000000 ≤ n ∧ n < 0x8000000000000000 then some (.whole n) else none

/-- A whole number in another base. -/
def based (base : Nat) (isDigit : Char → Bool) (cs : List Char) : Option Setting :=
  match digits isDigit cs with
  | some (ds, []) => (Hexadecimal.valueIn base ds).bind fun n => whole n
  | _ => none

/-- The exponent of a real number; zero if there is none. -/
def exponent : List Char → Option Int
  | [] => some 0
  | e :: cs =>
    let (negative, cs) := RealNumeral.sign cs
    match e, digits isDigit cs with
    | 'e', some (ds, []) | 'E', some (ds, []) =>
      some (if negative then -RealNumeral.value ds else RealNumeral.value ds)
    | _, _ => none

/-- A real number.  One that is too large is refused. -/
def real (negative : Bool) (ds fraction : List Char) (exponent : Int) : Option Setting :=
  let x := RealNumeral.nearest (RealNumeral.value (ds ++ fraction)) (exponent - fraction.length)
  if negative then some (.real (-x)) else if x == 1 / 0 then none else some (.real x)

/-- A number in base ten: whole, or real with a fraction or an exponent. -/
def decimal (cs : List Char) : Option Setting := do
  let (negative, cs) := RealNumeral.sign cs
  let (ds, rest) ← digits isDigit cs
  if ds.length ≠ 1 ∧ ds.head? = some '0' then none
  else match rest with
    | [] => whole (if negative then -RealNumeral.value ds else RealNumeral.value ds)
    | '.' :: cs =>
      let (fraction, cs) ← digits isDigit cs
      real negative ds fraction (← exponent cs)
    | cs => real negative ds [] (← exponent cs)

/-- Infinity, and what is not a number. -/
def special (cs : List Char) : Option Setting :=
  match RealNumeral.sign cs with
  | (negative, ['i', 'n', 'f']) => some (.real (if negative then -(1 / 0) else 1 / 0))
  | (_, ['n', 'a', 'n']) => some (.real (0 / 0))
  | _ => none

/-! ## Dates and times -/

/-- The number of two digits. -/
def two (c d : Char) : Option Nat :=
  if isDigit c && isDigit d then some (RealNumeral.value [c, d]) else none

def isLeapYear (y : Nat) : Bool := y % 4 == 0 && (y % 100 != 0 || y % 400 == 0)

/-- The number of days in a month. -/
def daysIn (year month : Nat) : Nat :=
  if month = 2 then if isLeapYear year then 29 else 28
  else if month = 4 ∨ month = 6 ∨ month = 9 ∨ month = 11 then 30
  else 31

/-- A date, as it was written. -/
def date : Scan (List Char)
  | a :: b :: c :: d :: '-' :: m :: n :: '-' :: x :: y :: cs => do
    let year := (← two a b) * 100 + (← two c d)
    let month ← two m n
    let day ← two x y
    if 1 ≤ month ∧ month ≤ 12 ∧ 1 ≤ day ∧ day ≤ daysIn year month then
      return ([a, b, c, d, '-', m, n, '-', x, y], cs)
    else none
  | _ => none

/-- The fraction of a second, with up to nine digits and no zeros at the end. -/
def fraction (cs : List Char) : Option (List Char × List Char) :=
  match cs with
  | '.' :: cs =>
    match cs.takeWhile isDigit with
    | [] => none
    | ds =>
      let ds := ((ds.take 9).reverse.dropWhile (· == '0')).reverse
      some (if ds.isEmpty then [] else '.' :: ds, cs.dropWhile isDigit)
  | cs => some ([], cs)

/-- A time of day, in an hour up to `lastHour`. -/
def time (lastHour : Nat) : Scan (List Char)
  | a :: b :: ':' :: c :: d :: ':' :: e :: f :: cs => do
    let hour ← two a b
    let minute ← two c d
    let second ← two e f
    if hour ≤ lastHour ∧ minute < 60 ∧ second ≤ 60 then
      let (part, cs) ← fraction cs
      return ([a, b, ':', c, d, ':', e, f] ++ part, cs)
    else none
  | _ => none

/-- How far a time is from universal time. -/
def offset : List Char → Option (List Char)
  | [] => some []
  | ['Z'] | ['z'] => some ['Z']
  | [s, a, b, ':', c, d] => do
    if s = '+' ∨ s = '-' then
      let hour ← two a b
      let minute ← two c d
      if hour < 24 ∧ minute < 60 then
        return (if hour = 0 ∧ minute = 0 then '+' else s) :: [a, b, ':', c, d]
      else none
    else none
  | _ => none

/-- A date with or without a time, or a time. -/
def moment (cs : List Char) : Option (List Char) :=
  match date cs with
  | some (day, []) => some day
  | some (day, t :: cs) =>
    if t = 'T' ∨ t = 't' ∨ t = ' ' then do
      let (clock, cs) ← time 23 cs
      return day ++ 'T' :: clock ++ (← offset cs)
    else none
  | none =>
    match time 23 cs with
    | some (clock, []) => some clock
    | _ => none

/-- How far a time is from universal time, up to a whole day, in its standard form. -/
def looseOffset : List Char → Option (List Char)
  | [] => some []
  | ['Z'] | ['z'] => some ['Z']
  | [s, a, b, ':', c, d] => do
    let minutes := (← two a b) * 60 + (← two c d)
    if (s = '+' ∨ s = '-') ∧ minutes ≤ 1440 then
      let pair (n : Nat) : List Char := [Numeral.digitChar (n / 10), Numeral.digitChar (n % 10)]
      return (if minutes = 0 then '+' else s) :: pair (minutes / 60) ++ ':' :: pair (minutes % 60)
    else none
  | _ => none

/-- A moment that is given as a text.  The day may have an hour more than the clock has, and an
offset may be a whole day. -/
def momentOf (cs : List Char) : Option (List Char) :=
  if (cs.drop 2).head? = some ':' then
    match time 24 cs with
    | some (clock, []) => some clock
    | _ => none
  else match date cs with
    | some (day, []) => some day
    | some (day, t :: cs) =>
      if t = 'T' ∨ t = 't' ∨ t = ' ' then do
        let (clock, cs) ← time 24 cs
        return day ++ 'T' :: clock ++ (← looseOffset cs)
      else none
    | none => none

/-- The value that is written without quotes as `cs`. -/
def scalar (cs : List Char) : Option Setting :=
  match cs with
  | ['t', 'r', 'u', 'e'] => some (.flag true)
  | ['f', 'a', 'l', 's', 'e'] => some (.flag false)
  | '0' :: 'x' :: ds => based 16 Hexadecimal.isDigit ds
  | '0' :: 'o' :: ds => based 8 (fun c => '0' ≤ c && c ≤ '7') ds
  | '0' :: 'b' :: ds => based 2 (fun c => c == '0' || c == '1') ds
  | cs =>
    ((moment cs).map fun cs => .text (String.ofList cs)) <|> special cs <|> decimal cs

/-- Whether a character may stand in a value without quotes. -/
def isScalar (c : Char) : Bool := isBare c || c == '+' || c == '.' || c == ':'

/-- Takes a value without quotes.  A date and a time may have a blank between them. -/
def bareValue (cs : List Char) : Option (Setting × List Char) :=
  let word := cs.takeWhile isScalar
  let rest := cs.dropWhile isScalar
  match date word, rest with
  | some (_, []), ' ' :: c :: more =>
    if isDigit c then
      (scalar (word ++ ' ' :: (c :: more).takeWhile isScalar)).map
        (·, (c :: more).dropWhile isScalar)
    else (scalar word).map (·, rest)
  | _, _ => (scalar word).map (·, rest)

end Toml

end GroupOffsets
