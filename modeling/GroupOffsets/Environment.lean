import GroupOffsets.Text.Alphanumeric
import GroupOffsets.Text.Blank
import GroupOffsets.Text.Utf8

/-!
# Environment files

A file of lines `NAME=value` that adds to the environment.  Values may be quoted, may hold escapes,
and may refer to other variables as `$NAME` or `${NAME}`.  A variable that is set already keeps its
value, and the first line that cannot be read ends the file.

No variable can have a value with a zero character in it: a program that is told to set one breaks
down.
-/

namespace GroupOffsets

/-- Variables by name. -/
abbrev Environment : Type := List (String × String)

namespace Environment

/-- How a reference to a variable is read. -/
inductive Reference where
  | none
  /-- After the dollar sign. -/
  | plain
  /-- Inside braces. -/
  | braced
  deriving DecidableEq, Repr

/-- How far a value is read. -/
structure Value where
  /-- The value so far, reversed. -/
  output : List Char
  /-- The name of the variable that is referred to, reversed. -/
  name : List Char
  reference : Reference
  singleQuoted : Bool
  doubleQuoted : Bool
  escaped : Bool
  /-- Only blanks and a comment may follow. -/
  ending : Bool
  deriving DecidableEq, Repr

namespace Value

def start : Value := ⟨[], [], .none, false, false, false, false⟩

def put (v : Value) (c : Char) : Value := { v with output := c :: v.output }

variable (lookup : String → String)

/-- Replaces the reference by the value of the variable. -/
def resolve (v : Value) : Value :=
  let text := lookup (String.ofList v.name.reverse)
  { v with output := text.toList.reverse ++ v.output, name := [], reference := .none }

/-- Takes the next character; nothing if it cannot stand there. -/
def feed (v : Value) (c : Char) : Option Value :=
  if v.ending then
    if c = ' ' ∨ c = '\t' then some v else none
  else if v.escaped then
    if ['\\', '\'', '"', '$', ' '].contains c then some { v.put c with escaped := false }
    else if c = 'n' then some { v.put '\n' with escaped := false }
    else none
  else if v.singleQuoted then
    if c = '\'' then some { v with singleQuoted := false } else some (v.put c)
  else match v.reference with
    | .plain =>
      if Text.isAlphanumeric c then some { v with name := c :: v.name }
      else if c = '\x7b' ∧ v.name = [] then some { v with reference := .braced }
      else if c = '$' then some { v.resolve lookup with reference := .plain }
      else some ((v.resolve lookup).put c)
    | .braced =>
      if c = '\x7d' then some (v.resolve lookup) else some { v with name := c :: v.name }
    | .none =>
      if c = '$' then some { v with reference := .plain }
      else if v.doubleQuoted then
        if c = '"' then some { v with doubleQuoted := false }
        else if c = '\\' then some { v with escaped := true }
        else some (v.put c)
      else if c = '\'' then some { v with singleQuoted := true }
      else if c = '"' then some { v with doubleQuoted := true }
      else if c = '\\' then some { v with escaped := true }
      else if c = ' ' ∨ c = '\t' then some { v with ending := true }
      else some (v.put c)

/-- The value after its last character. -/
def finish (v : Value) : Option String :=
  if v.reference = .braced ∨ v.singleQuoted ∨ v.doubleQuoted then none
  else some (String.ofList (v.resolve lookup).output.reverse)

/-- Reads the rest of a value.  A comment behind it ends it. -/
def read (v : Value) : List Char → Option String
  | [] => v.finish lookup
  | c :: cs =>
    if v.ending ∧ c = '#' then v.finish lookup
    else match v.feed lookup c with
      | some v => v.read cs
      | none => none

end Value

/-! ## Lines -/

def isKeyStart (c : Char) : Bool := c.isAlpha || c == '_'

def isKeyChar (c : Char) : Bool := c.isAlphanum || c == '_' || c == '.'

def skipBlanks (cs : List Char) : List Char := cs.dropWhile Text.isBlank

/-- The name at the start of a line, and what follows it. -/
def key (cs : List Char) : Option (String × List Char) :=
  match cs with
  | c :: _ =>
    if isKeyStart c then
      some (String.ofList (cs.takeWhile isKeyChar), skipBlanks (cs.dropWhile isKeyChar))
    else none
  | [] => none

/-- The name and the value of a line; the word `export` may stand in front. -/
def assignment (cs : List Char) : Option (String × List Char) := do
  match ← key cs with
  | (name, '=' :: value) => return (name, value)
  | ("export", cs) =>
    match ← key cs with
    | (name, '=' :: value) => return (name, value)
    | _ => none
  | _ => none

/-- The variable of a line, if it is not blank or a comment. -/
def readLine (lookup : String → String) (cs : List Char) : Option (Option (String × String)) :=
  match Text.trim cs with
  | [] => some none
  | '#' :: _ => some none
  | cs => do
    let (name, value) ← assignment cs
    match skipBlanks value with
    | [] => return some (name, "")
    | '#' :: _ => return some (name, "")
    | value => return some (name, ← Value.start.read lookup value)

/-- The value of a variable: as it is set, or else as the lines before set it. -/
def valueOf (env written : Environment) (name : String) : String :=
  ((env.lookup name) <|> (written.lookup name)).getD ""

/-- Sets a variable, unless it is set; `none` if it cannot have the value. -/
def add (env : Environment) (name value : String) : Option Environment :=
  if (env.lookup name).isSome then some env
  else if value.toList.contains '\x00' then none
  else some (env ++ [(name, value)])

/-- Takes lines one after the other; `none` if one of them makes the program break down. -/
def readLines (env written : Environment) : List (List Char) → Option Environment
  | [] => some env
  | l :: ls =>
    match readLine (valueOf env written) l with
    | none => some env
    | some none => readLines env written ls
    | some (some (name, value)) =>
      match env.add name value with
      | none => none
      | some env => readLines env ((name, value) :: written) ls

/-- Cuts a text at each newline, which may have a carriage return before it. -/
def cutLines : List UInt8 → List (List UInt8)
  | [] => []
  | b :: bs =>
    if b = 10 then [] :: cutLines bs
    else match b, bs, cutLines bs with
      | 13, 10 :: _, rest => rest
      | b, _, l :: ls => (b :: l) :: ls
      | b, _, [] => [[b]]

/-- Adds the variables of a file; `none` if that makes the program break down. -/
def addFile (env : Environment) (file : List UInt8) : Option Environment :=
  let lines := (cutLines file).map Utf8.decode
  readLines env [] ((lines.takeWhile fun l => l.isOk).filterMap fun l => l.toOption)

end Environment

end GroupOffsets
