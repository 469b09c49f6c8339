import GroupOffsets.Text.Hexadecimal

/-!
# The characters of a TOML document

How the smallest parts of a document are read: blanks, comments, keys and texts.  A scanner takes
the rest of the document and returns what it read with the rest after it, or nothing if the document
is malformed.
-/

namespace GroupOffsets

namespace Toml

/-- A scanner for values of type `α`. -/
abbrev Scan (α : Type) : Type := List Char → Option (α × List Char)

def isBlank (c : Char) : Bool := c == ' ' || c == '\t'

def isDigit (c : Char) : Bool := '0' ≤ c && c ≤ '9'

/-- Whether a character may stand in a comment or a text: no control character but the tabulator. -/
def isPlain (c : Char) : Bool := c == '\t' || (' ' ≤ c && c != '\x7f')

/-- Whether a character may stand in a key without quotes. -/
def isBare (c : Char) : Bool :=
  isDigit c || ('a' ≤ c && c ≤ 'z') || ('A' ≤ c && c ≤ 'Z') || c == '_' || c == '-'

def skipBlanks (cs : List Char) : List Char := cs.dropWhile isBlank

/-- Takes a newline. -/
def newline? : List Char → Option (List Char)
  | '\n' :: cs => some cs
  | '\r' :: '\n' :: cs => some cs
  | _ => none

/-- Skips a comment, if one comes next. -/
def skipComment : List Char → List Char
  | '#' :: cs => cs.dropWhile isPlain
  | cs => cs

/-- The end of a line: blanks, a comment, and a newline or the end of the document. -/
def endOfLine (cs : List Char) : Option (List Char) :=
  match skipComment (skipBlanks cs) with
  | [] => some []
  | cs => newline? cs

/-- Skips blanks, newlines, and comments with their newlines. -/
def skipLines : (fuel : Nat) → List Char → List Char
  | 0, cs => cs
  | fuel + 1, cs =>
    let rest := skipBlanks cs
    match newline? (skipComment rest) with
    | some after => skipLines fuel after
    | none => rest

/-! ## Texts -/

/-- The character that a short escape stands for. -/
def escaped : Char → Option Char
  | 'b' => some '\x08'
  | 't' => some '\t'
  | 'n' => some '\n'
  | 'f' => some '\x0c'
  | 'r' => some '\r'
  | '"' => some '"'
  | '\\' => some '\\'
  | _ => none

/-- Puts a character in front of what a scanner read. -/
def cons (c : Char) (r : Option (List Char × List Char)) : Option (List Char × List Char) :=
  r.map fun (cs, rest) => (c :: cs, rest)

/-- The rest of a text in double quotes. -/
def basic : Scan (List Char)
  | '"' :: cs => some ([], cs)
  | '\\' :: 'u' :: a :: b :: c :: d :: cs =>
    match Hexadecimal.char? [a, b, c, d] with
    | some x => cons x (basic cs)
    | none => none
  | '\\' :: 'U' :: a :: b :: c :: d :: e :: f :: g :: h :: cs =>
    match Hexadecimal.char? [a, b, c, d, e, f, g, h] with
    | some x => cons x (basic cs)
    | none => none
  | '\\' :: c :: cs =>
    match escaped c with
    | some x => cons x (basic cs)
    | none => none
  | c :: cs => if isPlain c then cons c (basic cs) else none
  | [] => none

/-- The rest of a text in single quotes, in which nothing is escaped. -/
def literal : Scan (List Char)
  | '\'' :: cs => some ([], cs)
  | c :: cs => if isPlain c then cons c (literal cs) else none
  | [] => none

/-- How a scanner of a text over several lines takes blanks and newlines. -/
inductive Trim where
  /-- They belong to the text. -/
  | no
  /-- A backslash ends the line: a newline has to follow. -/
  | toNewline
  /-- They are left out up to the next character. -/
  | all
  deriving DecidableEq

/-- The rest of a text in three double quotes each.  Up to two quotes may stand before the end. -/
def basicLines : Trim → Scan (List Char)
  | .toNewline, '\n' :: cs => basicLines .all cs
  | .toNewline, '\r' :: '\n' :: cs => basicLines .all cs
  | .toNewline, c :: cs => if isBlank c then basicLines .toNewline cs else none
  | .all, '\n' :: cs => basicLines .all cs
  | .all, '\r' :: '\n' :: cs => basicLines .all cs
  | .all, ' ' :: cs => basicLines .all cs
  | .all, '\t' :: cs => basicLines .all cs
  | _, '"' :: '"' :: '"' :: '"' :: '"' :: cs => some (['"', '"'], cs)
  | _, '"' :: '"' :: '"' :: '"' :: cs => some (['"'], cs)
  | _, '"' :: '"' :: '"' :: cs => some ([], cs)
  | _, '"' :: cs => cons '"' (basicLines .no cs)
  | _, '\n' :: cs => cons '\n' (basicLines .no cs)
  | _, '\r' :: '\n' :: cs => cons '\n' (basicLines .no cs)
  | _, '\\' :: '\n' :: cs => basicLines .all cs
  | _, '\\' :: '\r' :: '\n' :: cs => basicLines .all cs
  | _, '\\' :: ' ' :: cs => basicLines .toNewline cs
  | _, '\\' :: '\t' :: cs => basicLines .toNewline cs
  | _, '\\' :: 'u' :: a :: b :: c :: d :: cs =>
    match Hexadecimal.char? [a, b, c, d] with
    | some x => cons x (basicLines .no cs)
    | none => none
  | _, '\\' :: 'U' :: a :: b :: c :: d :: e :: f :: g :: h :: cs =>
    match Hexadecimal.char? [a, b, c, d, e, f, g, h] with
    | some x => cons x (basicLines .no cs)
    | none => none
  | _, '\\' :: c :: cs =>
    match escaped c with
    | some x => cons x (basicLines .no cs)
    | none => none
  | _, c :: cs => if isPlain c then cons c (basicLines .no cs) else none
  | _, [] => none

/-- The rest of a text in three single quotes each. -/
def literalLines : Scan (List Char)
  | '\'' :: '\'' :: '\'' :: '\'' :: '\'' :: cs => some (['\'', '\''], cs)
  | '\'' :: '\'' :: '\'' :: '\'' :: cs => some (['\''], cs)
  | '\'' :: '\'' :: '\'' :: cs => some ([], cs)
  | '\n' :: cs => cons '\n' (literalLines cs)
  | '\r' :: '\n' :: cs => cons '\n' (literalLines cs)
  | c :: cs => if isPlain c then cons c (literalLines cs) else none
  | [] => none

/-- A newline right after the opening quotes is left out. -/
def skipNewline (cs : List Char) : List Char := (newline? cs).getD cs

/-- A text in quotes of any kind. -/
def quoted : Scan (List Char)
  | '"' :: '"' :: '"' :: cs => basicLines .no (skipNewline cs)
  | '"' :: cs => basic cs
  | '\'' :: '\'' :: '\'' :: cs => literalLines (skipNewline cs)
  | '\'' :: cs => literal cs
  | _ => none

/-! ## Keys -/

/-- One part of a key: bare, or a text on one line. -/
def simpleKey : Scan (List Char)
  | '"' :: cs => basic cs
  | '\'' :: cs => literal cs
  | cs =>
    match cs.takeWhile isBare with
    | [] => none
    | key => some (key, cs.dropWhile isBare)

/-- The parts of a key after the first one, each behind a dot; blanks may stand around them. -/
def moreKeys : (fuel : Nat) → Scan (List String)
  | 0, _ => none
  | fuel + 1, cs =>
    match skipBlanks cs with
    | '.' :: cs => do
      let (part, cs) ← simpleKey (skipBlanks cs)
      let (parts, cs) ← moreKeys fuel cs
      return (String.ofList part :: parts, cs)
    | cs => some ([], cs)

/-- How many keys, or values, may stand inside one another. -/
def nestingLimit : Nat := 80

/-- A key: the parts before the last one, and the last one. -/
def key (cs : List Char) : Option ((List String × String) × List Char) := do
  let (first, cs) ← simpleKey (skipBlanks cs)
  let (parts, cs) ← moreKeys (cs.length + 1) cs
  let parts := String.ofList first :: parts
  if parts.length < nestingLimit then return ((parts.dropLast, parts.getLastD ""), cs) else none

end Toml

end GroupOffsets
