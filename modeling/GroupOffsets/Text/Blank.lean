/-!
# Blanks

What separates the fields of a line: every character with the property `White_Space` of Unicode.
-/

namespace GroupOffsets

namespace Text

def isBlank (c : Char) : Bool :=
  let n := c.toNat
  (9 ≤ n && n ≤ 13) || n == 0x20 || n == 0x85 || n == 0xA0 || n == 0x1680
    || (0x2000 ≤ n && n ≤ 0x200A) || n == 0x2028 || n == 0x2029 || n == 0x202F || n == 0x205F
    || n == 0x3000

/-- A text without the blanks around it. -/
def trim (cs : List Char) : List Char :=
  ((cs.dropWhile isBlank).reverse.dropWhile isBlank).reverse

/-- The longest stretches without blanks, in order. -/
def fields : List Char → List (List Char)
  | [] => []
  | [c] => if isBlank c then [] else [[c]]
  | c :: d :: cs =>
    if isBlank c then fields (d :: cs)
    else if isBlank d then [c] :: fields (d :: cs)
    else match fields (d :: cs) with
      | [] => [[c]]
      | field :: rest => (c :: field) :: rest

end Text

end GroupOffsets
