import GroupOffsets.Config.Setting
import GroupOffsets.Text.Shortest

/-!
# Lenient settings

The way in which a configuration file is read: where a field wants a number or a text, settings of
other kinds are taken for one as far as that makes sense.
-/

namespace GroupOffsets

/-- A capital letter as a small one; the Kelvin sign is a capital `k` too. -/
def lowerCase (s : String) : String :=
  s.map fun c => if c = '\u212A' then 'k' else c.toLower

namespace Reading

/-- The whole number that a text stands for. -/
def wholeOfText (signed : Bool) (s : String) : Option Int :=
  let word := lowerCase s
  if ["true", "on", "yes"].contains word then some 1
  else if ["false", "off", "no"].contains word then some 0
  else if signed then (Numeral.read 0x8000000000000000 0x7FFFFFFFFFFFFFFF s.toList).toOption
  else if s.toList.head? = some '-' then none
  else (Numeral.read 0 0xFFFFFFFFFFFFFFFF s.toList).toOption

/-- The whole number nearest to a real one, half away from zero, within 64 bits. -/
def wholeOfReal (signed : Bool) (x : Float) : Int :=
  if signed then x.round.toInt64.toInt else x.round.toUInt64.toNat

/-- Numbers, truth values and texts stand for one another. -/
def lenient : Reading where
  whole
    | _, .whole n => some n
    | _, .flag b => some (if b then 1 else 0)
    | signed, .real x => some (wholeOfReal signed x)
    | signed, .text s => wholeOfText signed s
    | _, .absent | _, .list _ | _, .table _ => none
  text
    | .text s => some s
    | .flag b => some (if b then "true" else "false")
    | .whole n => some (Numeral.text n)
    | .real x => some (Shortest.text x)
    | .absent | .list _ | .table _ => none
  takesSurplus := true

end Reading

end GroupOffsets
