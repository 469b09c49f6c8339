import GroupOffsets.Config.Setting
import GroupOffsets.Text.Blank
import GroupOffsets.Text.Hexadecimal

/-!
# INI documents

Lines `name=value`, also with a colon in place of the sign, and `[section]` headers that say what
the names below them are in.  Every value is a text, and may be quoted.  Of two values with one
name the later one counts, and a header that comes again begins its section anew.  A comment takes
a whole line.
-/

namespace GroupOffsets

namespace Ini

/-- The character that hexadecimal digits name, which may have a plus sign before them. -/
def charOf : List Char → Option Char
  | '+' :: ds => Hexadecimal.char? ds
  | ds => Hexadecimal.char? ds

/-- What a short escape stands for.  An escaped newline is left out, and any other character stands
for itself. -/
def escaped : Char → List Char
  | '0' => ['\x00']
  | 'a' => ['\x07']
  | 'b' => ['\x08']
  | 't' => ['\t']
  | 'r' => ['\r']
  | 'n' => ['\n']
  | '\n' => []
  | c => [c]

/-- Takes text up to one of some characters, which is left; without one the text has no end, and is
only taken if `mayEnd` says so. -/
def upTo (stops : List Char) (mayEnd : Bool) : List Char → Option (List Char × List Char)
  | [] => if mayEnd then some ([], []) else none
  | '\\' :: 'x' :: a :: b :: c :: d :: cs =>
    match charOf [a, b, c, d] with
    | some x => (upTo stops mayEnd cs).map fun (text, rest) => (x :: text, rest)
    | none => none
  | '\\' :: 'x' :: _ => none
  | ['\\'] => none
  | '\\' :: c :: cs => (upTo stops mayEnd cs).map fun (text, rest) => (escaped c ++ text, rest)
  | c :: cs =>
    if stops.contains c then some ([], c :: cs)
    else (upTo stops mayEnd cs).map fun (text, rest) => (c :: text, rest)

def isNewline (c : Char) : Bool := c == '\n' || c == '\r'

/-- The rest of a line. -/
def line (cs : List Char) : Option (List Char × List Char) := upTo ['\n', '\r'] true cs

/-- A value, up to the end of its line.  Only a value without quotes is trimmed. -/
def value (cs : List Char) : Option (List Char × List Char) :=
  let quoted (mark : Char) (cs : List Char) : Option (List Char × List Char) := do
    let (text, cs) ← upTo [mark] false cs
    let (rest, cs) ← line (cs.drop 1)
    return (text ++ rest, cs)
  match cs.dropWhile fun c => Text.isBlank c && !isNewline c with
  | '"' :: cs => quoted '"' cs
  | '\'' :: cs => quoted '\'' cs
  | cs => (line cs).map fun (text, cs) => (Text.trim text, cs)

/-- A document up to some place. -/
structure Reading where
  /-- The name of the section, behind the first header. -/
  current : Option String
  entries : List (String × Setting)

/-- Begins a section. -/
def Reading.begin (r : Reading) (name : String) : Reading :=
  ⟨some name, Setting.put name (.table []) r.entries⟩

/-- Takes a value. -/
def Reading.take (r : Reading) (name text : String) : Reading :=
  let entries := match r.current with
    | none => Setting.put name (.text text) r.entries
    | some sec =>
      match r.entries.lookup sec with
      | some (.table es) => Setting.put sec (.table (Setting.put name (.text text) es)) r.entries
      | _ => r.entries
  { r with entries }

/-- Skips blanks and newlines, told whether a line begins; tells whether one begins then. -/
def skipBlanks : Bool → List Char → Bool × List Char
  | begins, [] => (begins, [])
  | begins, c :: cs => if Text.isBlank c then skipBlanks (c == '\n') cs else (begins, c :: cs)

/-- Takes a comment, a header or a line with a value, and what follows it. -/
def readItem (r : Reading) (begins : Bool) : List Char → Option (Reading × Bool × List Char)
  | '[' :: cs => do
    let (name, cs) ← upTo [']'] false cs
    return (r.begin (String.ofList (Text.trim name)), false, cs.drop 1)
  | c :: cs =>
    if c = ';' ∨ c = '#' then
      if begins then some (r, true, (cs.dropWhile (· != '\n')).drop 1) else none
    else do
      let (name, cs) ← upTo ['=', ':'] false (c :: cs)
      let name := Text.trim name
      if name.isEmpty then none
      else
        let (text, cs) ← value (cs.drop 1)
        return (r.take (String.ofList name) (String.ofList text), false, cs)
  | [] => none

/-- Takes everything. -/
def readAll : (fuel : Nat) → Reading → Bool → List Char → Option (List (String × Setting))
  | 0, _, _, _ => none
  | fuel + 1, r, begins, cs =>
    match skipBlanks begins cs with
    | (_, []) => some r.entries
    | (begins, cs) => do
      let (r, begins, cs) ← readItem r begins cs
      readAll fuel r begins cs

/-- Reads a document as a table of settings. -/
def read (cs : List Char) : Option (List (String × Setting)) :=
  readAll (cs.length + 1) ⟨none, []⟩ true cs

end Ini

end GroupOffsets
