/-!
# Decimal numerals

Whole numbers as text: an optional sign and decimal digits.  `Numeral.print` writes one,
`Numeral.read` reads one into a range of whole numbers and says why it could not.  A numeral is
read from left to right, so of a stray character and a number out of range the one that is met
first is reported.
-/

namespace GroupOffsets

namespace Numeral

/-- Why a text is not a numeral in range. -/
inductive Fault where
  | empty
  | invalidDigit
  | tooLarge
  | tooSmall
  deriving DecidableEq, Repr

namespace Fault

def message : Fault → String
  | empty => "cannot parse integer from empty string"
  | invalidDigit => "invalid digit found in string"
  | tooLarge => "number too large to fit in target type"
  | tooSmall => "number too small to fit in target type"

end Fault

/-- The value of a decimal digit. -/
def digit? (c : Char) : Option Nat :=
  if '0' ≤ c ∧ c ≤ '9' then some (c.toNat - '0'.toNat) else none

/-- The character of a digit below ten. -/
def digitChar (d : Nat) : Char := Char.ofNat ('0'.toNat + d)

/-- The decimal digits of a number, most significant first. -/
def digits (n : Nat) : List Char :=
  if n < 10 then [digitChar n] else digits (n / 10) ++ [digitChar (n % 10)]

/-- A number as a numeral: a minus sign only below zero, no leading zeros. -/
def print : Int → List Char
  | .ofNat n => digits n
  | .negSucc n => '-' :: digits (n + 1)

def text (n : Int) : String := String.ofList (print n)

/-- Continues the number `n` by digits, up to `bound`. -/
def magnitude (bound : Nat) (beyond : Fault) : Nat → List Char → Except Fault Nat
  | n, [] => .ok n
  | n, c :: cs =>
    match digit? c with
    | none => .error .invalidDigit
    | some d => if bound < n * 10 + d then .error beyond else magnitude bound beyond (n * 10 + d) cs

/-- Reads a numeral from `-below` to `above`.  A sign without digits is a stray character. -/
def read (below above : Nat) : List Char → Except Fault Int
  | [] => .error .empty
  | ['+'] | ['-'] => .error .invalidDigit
  | '+' :: cs => (magnitude above .tooLarge 0 cs).map Int.ofNat
  | '-' :: cs => (magnitude below .tooSmall 0 cs).map fun n => -Int.ofNat n
  | cs => (magnitude above .tooLarge 0 cs).map Int.ofNat

def readInt8 (cs : List Char) : Except Fault Int8 := (read 0x80 0x7F cs).map Int8.ofInt

def readInt32 (cs : List Char) : Except Fault Int32 :=
  (read 0x80000000 0x7FFFFFFF cs).map Int32.ofInt

def readInt64 (cs : List Char) : Except Fault Int64 :=
  (read 0x8000000000000000 0x7FFFFFFFFFFFFFFF cs).map Int64.ofInt

end Numeral

end GroupOffsets
