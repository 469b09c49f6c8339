/-!
# Hexadecimal digits

The digits of base sixteen, whose letters may be small or capital, and the numbers that digits stand
for, in base sixteen and in smaller bases.
-/

namespace GroupOffsets

namespace Hexadecimal

/-- The value of a digit. -/
def digit? (c : Char) : Option Nat :=
  if '0' ≤ c ∧ c ≤ '9' then some (c.toNat - '0'.toNat)
  else if 'a' ≤ c ∧ c ≤ 'f' then some (c.toNat - 'a'.toNat + 10)
  else if 'A' ≤ c ∧ c ≤ 'F' then some (c.toNat - 'A'.toNat + 10)
  else none

def isDigit (c : Char) : Bool := (digit? c).isSome

/-- The number that digits stand for in a base, all of which have to be digits of that base. -/
def valueIn (base : Nat) (ds : List Char) : Option Nat :=
  ds.foldlM (fun n c => do
    let d ← digit? c
    if d < base then return n * base + d else none) 0

/-- The number that digits stand for. -/
def value (ds : List Char) : Option Nat := valueIn 16 ds

/-- The character that digits name. -/
def char? (ds : List Char) : Option Char := do
  let n ← value ds
  if n.isValidChar then return Char.ofNat n else none

end Hexadecimal

end GroupOffsets
