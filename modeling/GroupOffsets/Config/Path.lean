import GroupOffsets.Text.Numeral

/-!
# Paths into settings

A name at the top of a file may be a path such as `sweeper.interval_secs` or `storage.topics[0]`: a
first name, and then names behind dots and numbers in brackets.
-/

namespace GroupOffsets

/-- A step from a setting to one inside it. -/
inductive Step where
  | child (name : String)
  /-- An item of a list; below zero it is counted from the end. -/
  | item (index : Int)
  deriving DecidableEq, Repr

namespace Step

/-- Whether a character may stand in a name of a path. -/
def isNameChar (c : Char) : Bool :=
  ('a' ≤ c && c ≤ 'z') || ('A' ≤ c && c ≤ 'Z') || ('0' ≤ c && c ≤ '9')
    || c == ' ' || c == '_' || c == '-'

def isBlank (c : Char) : Bool := c == ' ' || c == '\t'

/-- The number in a pair of brackets, which may have blanks around it. -/
def index (cs : List Char) : Option Int :=
  let cs := ((cs.dropWhile isBlank).reverse.dropWhile isBlank).reverse
  if cs.head? = some '+' then none
  else (Numeral.read 0x8000000000000000 0x7FFFFFFFFFFFFFFF cs).toOption

/-- The steps of a path behind its first name. -/
def more : (fuel : Nat) → List Char → Option (List Step)
  | 0, _ => none
  | _ + 1, [] => some []
  | fuel + 1, '.' :: cs =>
    match cs.takeWhile isNameChar with
    | [] => none
    | name => (more fuel (cs.dropWhile isNameChar)).map (.child (String.ofList name) :: ·)
  | fuel + 1, '[' :: cs =>
    match index (cs.takeWhile (· != ']')), cs.dropWhile (· != ']') with
    | some n, ']' :: rest => (more fuel rest).map (.item n :: ·)
    | _, _ => none
  | _ + 1, _ => none

/-- The path that a name is, or the name itself. -/
def path (s : String) : String × List Step :=
  let cs := s.toList
  match cs.takeWhile isNameChar, more (cs.length + 1) (cs.dropWhile isNameChar) with
  | _ :: _, some steps => (String.ofList (cs.takeWhile isNameChar), steps)
  | _, _ => (s, [])

end Step

end GroupOffsets
