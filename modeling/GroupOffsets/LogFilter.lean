import GroupOffsets.Text.Alphanumeric
import GroupOffsets.Text.Blank
import GroupOffsets.Text.Numeral
import GroupOffsets.Text.Terminal

/-!
# Log filters

Which lines of the log are let through.  A filter is a list of directives such as
`warn,offset_bridge::offset=info`: each sets the most verbose level that is let through, for all
lines or for those of modules whose names begin like its target.  Of the directives that a line
meets the one with the longest target counts.

A directive may also ask for a span that the line is written in, and for a field that the line has,
as in `target[span{field=value}]=level`.  Here nothing is written in a span, and the only field of a
line is its message.
-/

namespace GroupOffsets

/-- How important a line is; a filter can also turn everything off. -/
inductive Level where
  | off
  | error
  | warn
  | info
  | debug
  | trace
  deriving DecidableEq, Repr

namespace Level

/-- The rank of a level; more verbose levels have larger ones. -/
def rank : Level → Nat
  | off => 0
  | error => 1
  | warn => 2
  | info => 3
  | debug => 4
  | trace => 5

def name : Level → String
  | off => "OFF"
  | error => "ERROR"
  | warn => "WARN"
  | info => "INFO"
  | debug => "DEBUG"
  | trace => "TRACE"

def all : List Level := [off, error, warn, info, debug, trace]

/-- The rank that a text stands for. -/
def rankOf (s : String) : Option Int :=
  if s.toList.head? = some '-' then none else (Numeral.read 0 5 s.toList).toOption

/-- Reads the name of a level, in letters of any case, or its rank. -/
def ofText (s : String) : Option Level :=
  all.find? fun l => l.name == s.map Char.toUpper || rankOf s == some l.rank

end Level

/-- A line of the log. -/
structure LogLine where
  level : Level
  /-- The module that writes it. -/
  target : String
  text : String
  deriving DecidableEq, Repr

/-- A line as it is shown. -/
def LogLine.shown (l : LogLine) : String := l.level.name ++ " " ++ Text.onTerminal l.text

namespace LogFilter

structure Directive where
  /-- How the names of the modules begin. -/
  target : Option String
  /-- The name of the span. -/
  span : Option String
  /-- A field, with or without a value. -/
  field : Option String
  level : Level
  deriving DecidableEq, Repr

/-! ## Reading -/

/-- Why a text is no directive. -/
inductive Fault where
  | malformed
  /-- One of its parts would begin or end inside a character, which makes the program break down. -/
  | split
  deriving DecidableEq, Repr

/-- Where the reader of a directive is.  The numbers are the places, in bytes, at which the parts
begin that it is in. -/
inductive Stage where
  | start
  | word (first : Nat)
  | span (first : Nat)
  | field (first : Nat)
  /-- Behind a field. -/
  | fields
  /-- Behind a span. -/
  | target
  | level (first : Nat)
  deriving DecidableEq, Repr

/-- The part of a text that begins at one byte, and what comes after it. -/
def behind : List Char → Nat → Except Fault (List Char)
  | cs, 0 => .ok cs
  | [], _ => .ok []
  | c :: cs, n => if n < c.utf8Size then .error .split else behind cs (n - c.utf8Size)

/-- The first bytes of a text. -/
def upTo : List Char → Nat → Except Fault (List Char)
  | _, 0 => .ok []
  | [], _ => .ok []
  | c :: cs, n =>
    if n < c.utf8Size then .error .split else (upTo cs (n - c.utf8Size)).map (c :: ·)

/-- The part of a text between two bytes. -/
def between (cs : List Char) (first last : Nat) : Except Fault String := do
  return String.ofList (← upTo (← behind cs first) (last - first))

/-- The level that a word stands for; none stands for the most verbose one. -/
def levelOf (word : String) : Except Fault Level :=
  if word.isEmpty then .ok .trace
  else match Level.ofText word with
    | some l => .ok l
    | none => .error .malformed

/-- Whether a directive may begin with a character. -/
def isBeginning (c : Char) : Bool := Text.isAlphanumeric c || c == '-' || c == ':' || c == '_'

/-- Takes the character at a place.  The parts are cut out of `text`. -/
def feed (text : List Char) (d : Directive) (i : Nat) : Stage → Char →
    Except Fault (Directive × Stage)
  | .start, c =>
    if c = '[' then .ok (d, .span (i + 1))
    else if isBeginning c then .ok (d, .word i)
    else .error .malformed
  | .word k, '=' => do return ({ d with target := some (← between text k i) }, .level (i + 1))
  | .word k, '[' => do return ({ d with target := some (← between text k i) }, .span (i + 1))
  | .span k, ']' => do return ({ d with span := some (← between text k i) }, .target)
  | .span k, '\x7b' => do
    let name ← between text k i
    return ({ d with span := if name.isEmpty then none else some name }, .field (i + 1))
  | .field k, '\x7d' => do
    let field ← between text k i
    if field.isEmpty then .error .malformed else return ({ d with field := some field }, .fields)
  | .fields, ']' => .ok (d, .target)
  | .target, '=' => .ok (d, .level (i + 1))
  | .fields, _ | .target, _ => .error .malformed
  | stage, _ => .ok (d, stage)

/-- Takes the characters from a place on. -/
def feedAll (text : List Char) : Directive → Nat → Stage → List Char →
    Except Fault (Directive × Stage)
  | d, _, stage, [] => .ok (d, stage)
  | d, i, stage, c :: cs => do
    let (d, stage) ← feed text d i stage c
    feedAll text d (i + c.utf8Size) stage cs

/-- The directive when its text ends. -/
def finish (text : List Char) (d : Directive) : Stage → Except Fault Directive
  | .word k => do
    let word := String.ofList (← behind text k)
    match Level.ofText word with
    | some level => return { d with level }
    | none => return { d with target := some word }
  | .level k => do return { d with level := ← levelOf (String.ofList (← behind text k)) }
  | .target => .ok d
  | _ => .error .malformed

/-- Reads a directive.  A target alone lets everything of it through.

The blanks around the text are left out where the characters are looked at, but not where the parts
are cut out of it: with blanks in front the parts begin too early. -/
def Directive.read (text : List Char) : Except Fault Directive := do
  let (d, stage) ← feedAll text ⟨none, none, none, .trace⟩ 0 .start (Text.trim text)
  finish text d stage

/-- The pieces of a text between commas. -/
def pieces : List Char → List (List Char)
  | [] => [[]]
  | c :: cs =>
    match pieces cs with
    | piece :: rest => if c = ',' then [] :: piece :: rest else (c :: piece) :: rest
    | [] => [[c]]

/-- Reads directives, and leaves out what is none. -/
def readAll : List (List Char) → Option (List Directive)
  | [] => some []
  | piece :: rest =>
    match Directive.read piece with
    | .ok d => (readAll rest).map (d :: ·)
    | .error .malformed => readAll rest
    | .error .split => none

/-- Reads a filter; `none` if that makes the program break down.  Without any directive only errors
are let through. -/
def ofText (s : String) : Option (List Directive) :=
  (readAll ((pieces s.toList).filter (· != []))).map fun
    | [] => [⟨none, none, none, .error⟩]
    | ds => ds

/-! ## Filtering -/

/-- The field that every line has. -/
def message : String := "message"

/-- How special a directive is: the longer its target, the more, and the more with a field. -/
def Directive.weight (d : Directive) : Nat × Nat :=
  ((d.target.map (·.utf8ByteSize + 1)).getD 0, if d.field.isSome then 1 else 0)

/-- Whether a directive is less special than another one. -/
def Directive.isBelow (d e : Directive) : Bool :=
  d.weight.1 < e.weight.1 || (d.weight.1 == e.weight.1 && d.weight.2 < e.weight.2)

/-- Whether a directive is about the lines of a module. -/
def Directive.covers (d : Directive) (module : String) : Bool :=
  d.span.isNone && d.field.all (· == message) &&
    match d.target with
    | none => true
    | some t => t.toList.isPrefixOf module.toList

/-- The directive that counts for a module: the most special one, of equal ones the last. -/
def directive? (ds : List Directive) (module : String) : Option Directive :=
  (ds.filter (·.covers module)).foldl (fun best d =>
    match best with
    | some b => if d.isBelow b then some b else some d
    | none => some d) none

/-- Whether a filter lets a line through. -/
def lets (ds : List Directive) (l : LogLine) : Bool :=
  match directive? ds l.target with
  | some d => l.level.rank ≤ d.level.rank
  | none => false

end LogFilter

end GroupOffsets
