import GroupOffsets.Text.Quoted

/-!
# Texts on a terminal

A text in which no character can steer the terminal that it is shown on.  The controls that do so
are written out; every other character stays as it is.
-/

namespace GroupOffsets

namespace Text

/-- A character as a terminal may get it. -/
def harmless (c : Char) : List Char :=
  if [0x07, 0x08, 0x0C, 0x1B, 0x7F].contains c.toNat then
    ['\\', 'x', Nat.digitChar (c.toNat / 16), Nat.digitChar (c.toNat % 16)]
  else if 0x80 ≤ c.toNat ∧ c.toNat ≤ 0x9F then ['\\', 'u', '\x7b'] ++ hexDigits c.toNat ++ ['\x7d']
  else [c]

/-- A text with its controls written out. -/
def onTerminal (s : String) : String := String.ofList (s.toList.flatMap harmless)

end Text

end GroupOffsets
