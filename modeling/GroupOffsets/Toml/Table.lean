import GroupOffsets.Toml.Scalar

/-!
# The tables of a TOML document

Tables while the document is read.  How a table came to be decides who may add to it: a header opens
a table once, also one that longer headers have implied; dotted keys add only to tables that dotted
keys have made.
-/

namespace GroupOffsets

namespace Toml

/-- How a table came to be. -/
inductive Origin where
  /-- By a header of its own. -/
  | header
  /-- By the header of a table inside it. -/
  | implied
  /-- By a dotted key. -/
  | dotted
  deriving DecidableEq, Repr

inductive Node where
  | value (s : Setting)
  | table (origin : Origin) (entries : List (String × Node))
  /-- An array of tables, the newest first. -/
  | tables (ts : List (List (String × Node)))

/-- The entries of a table. -/
abbrev Entries : Type := List (String × Node)

/-- Changes the entry with a key, or makes one. -/
def alter (key : String) (f : Option Node → Option Node) : Entries → Option Entries
  | [] => (f none).map fun node => [(key, node)]
  | e :: es =>
    if e.1 = key then (f (some e.2)).map fun node => (key, node) :: es
    else (alter key f es).map (e :: ·)

/-- Changes the table at the end of a path, which is made as far as needed.  In an array of tables
the newest one is meant. -/
def within (byDots : Bool) (f : Origin → Entries → Option Entries) :
    List String → Origin → Entries → Option Entries
  | [], origin, es => f origin es
  | key :: path, _, es => es |> alter key fun
    | none =>
      let origin := if byDots then .dotted else .implied
      (within byDots f path origin []).map (.table origin)
    | some (.table origin es) =>
      if byDots && origin == .header then none
      else (within byDots f path origin es).map (.table origin)
    | some (.tables (t :: ts)) =>
      (within byDots f path .header t).map fun t => .tables (t :: ts)
    | some (.tables []) | some (.value _) => none

/-- Adds a value under a key, to a table of the right origin. -/
def put (path : List String) (key : String) (s : Setting) (es : Entries) : Option Entries :=
  within true (fun origin es =>
    if (origin == .dotted) == path.isEmpty then none
    else es |> alter key fun
      | none => some (.value s)
      | some _ => none) path .header es

/-- Opens a table.  It comes behind the others, also if longer headers have implied it before. -/
def openTable (path : List String) (key : String) (es : Entries) : Option Entries :=
  within false (fun _ es => do
    let inner ← match es.lookup key with
      | none => some []
      | some (.table .implied inner) => some inner
      | some _ => none
    return es.filter (·.1 != key) ++ [(key, .table .header inner)]) path .header es

/-- Opens the next table of an array of tables. -/
def openNext (path : List String) (key : String) (es : Entries) : Option Entries :=
  within false (fun _ => alter key fun
    | none => some (.tables [[]])
    | some (.tables ts) => some (.tables ([] :: ts))
    | some _ => none) path .header es

/-- The name whose value stands for the whole table, as the text of a moment, if it is the first
name in it. -/
def momentKey : String := "$__toml_private_datetime"

/-- The text of the moment that a table stands for. -/
def momentIn : Node → Option Setting
  | .value (.text s) => (momentOf s.toList).map fun cs => .text (String.ofList cs)
  | _ => none

mutual

/-- What a node holds, as a setting. -/
def Node.setting : Node → Option Setting
  | .value s => some s
  | .table _ es => tableSetting es
  | .tables ts => (tableSettings ts).map fun xs => .list xs.reverse

/-- What a table holds. -/
def tableSetting : Entries → Option Setting
  | [] => some (.table [])
  | (key, node) :: es =>
    if key = momentKey then momentIn node
    else do
      let s ← node.setting
      let rest ← entrySettings es
      return .table ((key, s) :: rest)

def entrySettings : Entries → Option (List (String × Setting))
  | [] => some []
  | (key, node) :: es => do
    let s ← node.setting
    let rest ← entrySettings es
    return (key, s) :: rest

def tableSettings : List Entries → Option (List Setting)
  | [] => some []
  | t :: ts => do
    let s ← tableSetting t
    let rest ← tableSettings ts
    return s :: rest

end

end Toml

end GroupOffsets
