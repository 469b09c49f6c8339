import GroupOffsets.Yaml.Node

/-!
# YAML scalars

Places in a document, and how texts are read there: without quotes, in quotes, and as blocks of
lines.  A scalar that goes on in the next line has a blank there in place of the line break, or as
many line breaks as there are empty lines.
-/

namespace GroupOffsets

namespace Yaml

/-- A place in a document. -/
structure Cursor where
  rest : List Char
  line : Nat
  column : Nat
  /-- The nodes that have names, the latest first. -/
  anchors : List (String × Node)

/-- A reader for values of type `α`. -/
abbrev Scan (α : Type) : Type := Cursor → Option (α × Cursor)

def isBlank (c : Char) : Bool := c == ' ' || c == '\t'

def isBreak (c : Char) : Bool := c == '\n' || c == '\r'

/-- Whether a character ends a scalar in brackets. -/
def isFlow (c : Char) : Bool := c == ',' || c == '[' || c == ']' || c == '\x7b' || c == '\x7d'

/-- Whether there is nothing here but a blank, a line break or the end. -/
def isGap (cs : List Char) : Bool := cs.head?.all fun c => isBlank c || isBreak c

namespace Cursor

variable (c : Cursor)

/-- Behind the next character, or the next line break. -/
def advance : Cursor :=
  match c.rest with
  | [] => c
  | '\r' :: '\n' :: cs => { c with rest := cs, line := c.line + 1, column := 0 }
  | x :: cs =>
    if isBreak x then { c with rest := cs, line := c.line + 1, column := 0 }
    else { c with rest := cs, column := c.column + 1 }

/-- Behind some characters of this line. -/
def skip (n : Nat) : Cursor := { c with rest := c.rest.drop n, column := c.column + n }

def skipBlanks : Cursor := c.skip (c.rest.takeWhile isBlank).length

/-- At the end of the line. -/
def skipLine : Cursor := c.skip (c.rest.takeWhile (!isBreak ·)).length

/-- Whether the line ends here. -/
def isAtBreak : Bool := c.rest.head?.all isBreak

/-- Whether a line begins here with three of a character and nothing right behind them. -/
def isAtMarker (x : Char) : Bool :=
  c.column == 0 && [x, x, x].isPrefixOf c.rest && isGap (c.rest.drop 3)

/-- Whether the document ends here. -/
def isAtEnd : Bool := c.rest.isEmpty || c.isAtMarker '-' || c.isAtMarker '.'

/-- Whether an indicator comes next, with nothing right behind it. -/
def isAt (x : Char) : Bool := c.rest.head? == some x && isGap (c.rest.drop 1)

/-- At the end of the line, which may only have a comment. -/
def endLine : Option Cursor :=
  let d := c.skipBlanks
  match d.rest with
  | '#' :: _ => if d.column = c.column ∧ c.column ≠ 0 then none else some d.skipLine
  | _ => if d.isAtBreak then some d else none

/-- The column of the first tabulator before which there are only blanks on the line. -/
def tabulator : Option Nat :=
  if c.column ≠ 0 then none
  else (c.rest.takeWhile isBlank).findIdx? (· == '\t')

/-- At the next character that is no blank and in no comment; also, the column of the first
tabulator that its line begins with. -/
def content : (fuel : Nat) → Cursor → Cursor × Option Nat
  | 0, c => (c, none)
  | fuel + 1, c =>
    let d := c.skipBlanks
    match d.rest with
    | '#' :: _ => content fuel d.skipLine
    | x :: _ => if isBreak x then content fuel d.advance else (d, c.tabulator)
    | [] => (d, none)

/-- The next content. -/
def next : Cursor := (content (2 * c.rest.length + 1) c).1

/-- The next content inside a block, where no tabulator may indent a line as far as the block
is. -/
def nextIn (indent : Int) : Option Cursor :=
  let (d, tab) := content (2 * c.rest.length + 1) c
  if tab.any (fun t => (t : Int) ≤ indent) then none else some d

end Cursor

/-- The line breaks that come next: how many there are, where the line with something in it begins,
and whether it is indented by more than `indent`. -/
def breaks (indent : Int) : (fuel : Nat) → Cursor → Nat × Cursor × Bool
  | 0, c => (0, c, false)
  | fuel + 1, c =>
    let d := c.skipBlanks
    if d.isAtBreak ∧ !d.rest.isEmpty then
      let (n, e, deep) := breaks indent fuel d.advance
      (n + 1, e, deep)
    else
      let tabbed := c.tabulator.any fun t => (t : Int) ≤ indent
      (0, d, !d.isAtEnd && !tabbed && indent < d.column)

/-- What stands for line breaks in a scalar. -/
def folded (breaks : Nat) : List Char :=
  if breaks ≤ 1 then [' '] else List.replicate (breaks - 1) '\n'

/-! ## Without quotes -/

/-- Whether a scalar without quotes can begin here. -/
def canBegin (inFlow : Bool) : List Char → Bool
  | [] => false
  | c :: cs =>
    if c == '-' || c == '?' || c == ':' then !isGap cs && !(inFlow && cs.head?.any isFlow)
    else !isBlank c && !isBreak c && !isFlow c && !"#&*!|>'\"%@`".toList.contains c

/-- The part of a scalar on one line, told whether a blank comes before it. -/
def plainPart (inFlow : Bool) : Bool → List Char → List Char
  | _, [] => []
  | blank, c :: cs =>
    if isBreak c || (c == '#' && blank) || (inFlow && isFlow c) then []
    else if c == ':' && (isGap cs || (inFlow && cs.head?.any isFlow)) then []
    else c :: plainPart inFlow (isBlank c) cs

/-- The same without the blanks at its end. -/
def plainLine (inFlow : Bool) (cs : List Char) : List Char :=
  ((plainPart inFlow false cs).reverse.dropWhile isBlank).reverse

/-- The further lines of a scalar, which have to be indented by more than `indent`. -/
def plainLines (inFlow : Bool) (indent : Int) : (fuel : Nat) → Cursor → List Char × Cursor
  | 0, c => ([], c)
  | fuel + 1, c =>
    let (n, d, deep) := breaks indent (c.rest.length + 1) c
    if n = 0 ∨ !deep ∨ d.rest.head? = some '#' then ([], c)
    else match plainLine inFlow d.rest with
      | [] => ([], c)
      | part =>
        let (more, e) := plainLines inFlow indent fuel (d.skip part.length)
        (folded n ++ part ++ more, e)

/-- A scalar without quotes. -/
def plain (inFlow : Bool) (indent : Int) : Scan String := fun c =>
  if !canBegin inFlow c.rest then none
  else
    let part := plainLine inFlow c.rest
    let (more, d) := plainLines inFlow indent c.rest.length (c.skip part.length)
    some (String.ofList (part ++ more), d)

/-! ## In quotes -/

/-- The character that a short escape stands for. -/
def escaped : Char → Option Char
  | '0' => some '\x00'
  | 'a' => some '\x07'
  | 'b' => some '\x08'
  | 't' | '\t' => some '\t'
  | 'n' => some '\n'
  | 'v' => some '\x0b'
  | 'f' => some '\x0c'
  | 'r' => some '\r'
  | 'e' => some '\x1b'
  | ' ' => some ' '
  | '"' => some '"'
  | '/' => some '/'
  | '\\' => some '\\'
  | 'N' => some '\u0085'
  | '_' => some '\u00A0'
  | 'L' => some '\u2028'
  | 'P' => some '\u2029'
  | _ => none

/-- How many digits a long escape has. -/
def digitsOf : Char → Option Nat
  | 'x' => some 2
  | 'u' => some 4
  | 'U' => some 8
  | _ => none

/-- The escape behind a backslash. -/
def escape : Scan Char := fun c =>
  match c.rest with
  | x :: cs =>
    match escaped x, digitsOf x with
    | some y, _ => some (y, c.skip 1)
    | none, some n => do
      let ds := cs.take n
      if ds.length = n then return (← Hexadecimal.char? ds, c.skip (n + 1)) else none
    | none, none => none
  | [] => none

/-- What a quoted scalar has at a line break: the blanks around it do not count.  Told the blanks
before it, which do count if the line does not end behind them. -/
def across (indent : Int) (c : Cursor) : Option (List Char × Cursor) :=
  let (n, d, deep) := breaks indent (c.rest.length + 1) c
  if n = 0 then some (c.rest.takeWhile isBlank, d)
  else if deep then some (folded n, d)
  else none

/-- The rest of a scalar in double quotes. -/
def double (indent : Int) : (fuel : Nat) → Scan (List Char)
  | 0, _ => none
  | fuel + 1, c =>
    match c.rest with
    | [] => none
    | '"' :: _ => some ([], c.skip 1)
    | '\\' :: x :: _ =>
      if isBreak x then
        let (n, d, deep) := breaks indent (c.rest.length + 1) (c.skip 1)
        if deep then
          (double indent fuel d).map fun (cs, e) => (List.replicate (n - 1) '\n' ++ cs, e)
        else none
      else do
        let (y, d) ← escape (c.skip 1)
        let (cs, d) ← double indent fuel d
        return (y :: cs, d)
    | x :: _ =>
      if isBlank x || isBreak x then do
        let (gap, d) ← across indent c
        let (cs, d) ← double indent fuel d
        return (gap ++ cs, d)
      else (double indent fuel (c.skip 1)).map fun (cs, d) => (x :: cs, d)

/-- The rest of a scalar in single quotes. -/
def single (indent : Int) : (fuel : Nat) → Scan (List Char)
  | 0, _ => none
  | fuel + 1, c =>
    match c.rest with
    | [] => none
    | '\'' :: '\'' :: _ => (single indent fuel (c.skip 2)).map fun (cs, d) => ('\'' :: cs, d)
    | '\'' :: _ => some ([], c.skip 1)
    | x :: _ =>
      if isBlank x || isBreak x then do
        let (gap, d) ← across indent c
        let (cs, d) ← single indent fuel d
        return (gap ++ cs, d)
      else (single indent fuel (c.skip 1)).map fun (cs, d) => (x :: cs, d)

/-! ## As a block -/

/-- What becomes of the line breaks at the end of a block. -/
inductive Chomp where
  | strip
  | clip
  | keep
  deriving DecidableEq, Repr

/-- The indicators of a block: what becomes of its end, and how far it is indented. -/
def header : List Char → Option (Chomp × Option Nat × List Char)
  | '+' :: cs => some (sized .keep cs)
  | '-' :: cs => some (sized .strip cs)
  | d :: cs =>
    if '1' ≤ d ∧ d ≤ '9' then
      let n := d.toNat - '0'.toNat
      match cs with
      | '+' :: cs => some (.keep, some n, cs)
      | '-' :: cs => some (.strip, some n, cs)
      | cs => some (.clip, some n, cs)
    else if d = '0' then none
    else some (.clip, none, d :: cs)
  | [] => some (.clip, none, [])
where
  /-- The digit that may follow. -/
  sized (chomp : Chomp) : List Char → Chomp × Option Nat × List Char
    | d :: cs =>
      if '1' ≤ d ∧ d ≤ '9' then (chomp, some (d.toNat - '0'.toNat), cs) else (chomp, none, d :: cs)
    | [] => (chomp, none, [])

/-- The number of blanks that a line begins with. -/
def indentation (cs : List Char) : Nat := (cs.takeWhile (· == ' ')).length

/-- The indentation of the first line with something in it, and the largest one of the lines before
it. -/
def firstIndent : (fuel : Nat) → (largest : Nat) → Cursor → Nat × Nat
  | 0, largest, _ => (largest, largest)
  | fuel + 1, largest, c =>
    let n := indentation c.rest
    match c.rest.drop n with
    | [] => (Nat.max largest n, largest)
    | x :: _ =>
      if isBreak x then firstIndent fuel (Nat.max largest n) (c.skip n).advance
      else if c.isAtEnd then (0, largest)
      else (n, largest)

/-- The lines of a block without their indentation, and whether the last one has a line break. -/
def blockLines (indent : Nat) : (fuel : Nat) → Cursor → List (List Char) × Cursor
  | 0, c => ([], c)
  | fuel + 1, c =>
    let n := Nat.min indent (indentation c.rest)
    let d := c.skip n
    if c.rest.isEmpty then ([], c)
    else if d.isAtBreak then
      let (ls, e) := blockLines indent fuel d.advance
      ([] :: ls, e)
    else if n < indent ∨ c.isAtEnd then ([], c)
    else
      let (ls, e) := blockLines indent fuel d.skipLine.advance
      (d.rest.takeWhile (!isBreak ·) :: ls, e)

/-- The text of lines in which line breaks stay. -/
def literalText : List (List Char) → List Char
  | [] => []
  | [l] => l
  | l :: ls => l ++ '\n' :: literalText ls

/-- The text of lines in which line breaks become blanks, except around lines that are indented
further and where lines are empty. -/
def foldedText : (before : Option (List Char)) → (empty : Nat) → List (List Char) → List Char
  | _, _, [] => []
  | before, empty, [] :: ls => foldedText before (empty + 1) ls
  | before, empty, l :: ls =>
    let isDeep (l : List Char) : Bool := l.head?.any isBlank
    let gap := match before with
      | none => List.replicate empty '\n'
      | some b =>
        if isDeep b || isDeep l then List.replicate (empty + 1) '\n' else folded (empty + 1)
    gap ++ l ++ foldedText (some l) 0 ls

/-- A block of lines, behind its first indicator. -/
def block (isFolded : Bool) (indent : Int) : Scan String := fun c => do
  let (chomp, size, rest) ← header c.rest
  let c ← (c.skip (c.rest.length - rest.length)).endLine
  let c := c.advance
  let least := (indent + 1).toNat
  let (auto, largest) := firstIndent (c.rest.length + 1) 0 c
  let width := match size with
    | some n => indent.toNat + n
    | none => Nat.max least auto
  if size.isNone ∧ width < largest then none
  else
    let (lines, d) := blockLines width (c.rest.length + 1) c
    let body := (lines.reverse.dropWhile List.isEmpty).reverse
    let text := if isFolded then foldedText none 0 body else literalText body
    let tail := match chomp with
      | .strip => []
      | .clip => if body.isEmpty then [] else ['\n']
      | .keep =>
        List.replicate (lines.length - body.length + if body.isEmpty then 0 else 1) '\n'
    return (String.ofList (text ++ tail), d)

end Yaml

end GroupOffsets
