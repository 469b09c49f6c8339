import GroupOffsets.Toml.Table

/-!
# TOML documents

A document is read line by line: a header opens a table, and every other line puts a value under a
key into the table that was opened last.
-/

namespace GroupOffsets

namespace Toml

/-! ## Values -/

/-- A value under a key, told how it was written.  No text that is not in quotes can make a moment
of a table. -/
def under (key : String) (written : List Char) (s : Setting) : Setting :=
  let isQuoted := written.head?.any fun c => c == '"' || c == '\''
  if key = momentKey ∧ !isQuoted then .absent else s

mutual

/-- A value.  Arrays and inline tables may stand inside one another as deep as `depth` says. -/
def valueAt : (fuel depth : Nat) → Scan Setting
  | 0, _, _ => none
  | _ + 1, 0, '[' :: _ => none
  | _ + 1, 0, '\x7b' :: _ => none
  | fuel + 1, depth + 1, '[' :: cs => (items fuel depth cs).map fun (xs, cs) => (.list xs, cs)
  | fuel + 1, depth + 1, '\x7b' :: cs =>
    match skipBlanks cs with
    | '\x7d' :: cs => some (.table [], cs)
    | cs => do
      let (es, cs) ← pairs fuel depth [] cs
      return (← tableSetting es, cs)
  | _ + 1, _, '"' :: cs =>
    (quoted ('"' :: cs)).map fun (s, cs) => (.text (String.ofList s), cs)
  | _ + 1, _, '\'' :: cs =>
    (quoted ('\'' :: cs)).map fun (s, cs) => (.text (String.ofList s), cs)
  | _ + 1, _, cs => bareValue cs

/-- The items of an array, up to its end. -/
def items : (fuel depth : Nat) → Scan (List Setting)
  | 0, _, _ => none
  | fuel + 1, depth, cs =>
    match skipLines (cs.length + 1) cs with
    | ']' :: cs => some ([], cs)
    | cs => do
      let (x, cs) ← valueAt fuel depth cs
      match skipLines (cs.length + 1) cs with
      | ',' :: cs =>
        let (xs, cs) ← items fuel depth cs
        return (x :: xs, cs)
      | ']' :: cs => return ([x], cs)
      | _ => none

/-- The entries of an inline table, up to its end, after those that it has already. -/
def pairs : (fuel depth : Nat) → Entries → Scan Entries
  | 0, _, _, _ => none
  | fuel + 1, depth, es, cs => do
    let ((path, last), cs) ← key cs
    match skipBlanks cs with
    | '=' :: cs =>
      let (s, rest) ← valueAt fuel depth (skipBlanks cs)
      let es ← put path last (under last (skipBlanks cs) s) es
      match skipBlanks rest with
      | ',' :: cs => pairs fuel depth es cs
      | '\x7d' :: cs => return (es, cs)
      | _ => none
    | _ => none

end

/-- A value in a line. -/
def valueIn (cs : List Char) : Option (Setting × List Char) :=
  valueAt (cs.length + 1) (nestingLimit - 1) cs

/-! ## Lines -/

/-- A document up to some line. -/
structure Reading where
  entries : Entries
  /-- The path of the table that was opened last. -/
  current : List String

/-- Takes one line: what the document has become, and the lines after it. -/
def readLine (r : Reading) (cs : List Char) : Option (Reading × List Char) :=
  match cs with
  | '[' :: '[' :: cs => do
    let ((path, last), cs) ← key cs
    match cs with
    | ']' :: ']' :: cs =>
      return (⟨← openNext path last r.entries, path ++ [last]⟩, ← endOfLine cs)
    | _ => none
  | '[' :: cs => do
    let ((path, last), cs) ← key cs
    match cs with
    | ']' :: cs => return (⟨← openTable path last r.entries, path ++ [last]⟩, ← endOfLine cs)
    | _ => none
  | cs =>
    match endOfLine cs with
    | some rest => some (r, rest)
    | none => do
      let ((path, last), cs) ← key cs
      match cs with
      | '=' :: cs =>
        let (s, rest) ← valueIn (skipBlanks cs)
        let s := under last (skipBlanks cs) s
        let entries ← within false (fun _ => put path last s) r.current .header r.entries
        return ({ r with entries }, ← endOfLine rest)
      | _ => none

/-- Takes all lines. -/
def readLines : (fuel : Nat) → Reading → List Char → Option Entries
  | 0, _, _ => none
  | fuel + 1, r, cs =>
    match skipBlanks cs with
    | [] => some r.entries
    | cs => do
      let (r, cs) ← readLine r cs
      readLines fuel r cs

/-- Reads a document as a table of settings; it must not stand for a moment.  It may begin with a
byte order mark. -/
def read (cs : List Char) : Option (List (String × Setting)) :=
  let cs := match cs with
    | '\uFEFF' :: cs => cs
    | cs => cs
  match (readLines (cs.length + 1) ⟨[], []⟩ cs).bind tableSetting with
  | some (.table es) => some es
  | _ => none

end Toml

end GroupOffsets
