import GroupOffsets.Ini
import GroupOffsets.Json5
import GroupOffsets.Ron
import GroupOffsets.Toml.Document
import GroupOffsets.Yaml.Document

/-!
# Formats of configuration files

The formats in which settings can be written, told apart by the extension of the file.  Whatever the
format, a file has to be a table of settings.
-/

namespace GroupOffsets

inductive Format where
  | toml
  | json
  | yaml
  | ini
  | ron
  | json5
  deriving DecidableEq, Repr

namespace Format

/-- The extensions of files, each with its format. -/
def extensions : List (String × Format) :=
  [("toml", toml), ("json", json), ("yaml", yaml), ("yml", yaml), ("ini", ini), ("ron", ron),
    ("json5", json5)]

/-- The format of files with an extension. -/
def ofExtension (extension : String) : Option Format := extensions.lookup extension

mutual

/-- Takes whole numbers of more than 63 bits for real ones. -/
def narrow : Setting → Setting
  | .whole n => if n ≤ 0x7FFFFFFFFFFFFFFF then .whole n else .real (Float.ofInt n)
  | .list xs => .list (narrowItems xs)
  | .table es => .table (narrowEntries es)
  | s => s

def narrowItems : List Setting → List Setting
  | [] => []
  | x :: xs => narrow x :: narrowItems xs

def narrowEntries : List (String × Setting) → List (String × Setting)
  | [] => []
  | (name, x) :: es => (name, narrow x) :: narrowEntries es

end

/-- Reads a document. -/
def document (f : Format) (cs : List Char) : Except Setting.Fault Setting :=
  let orMalformed (s : Option Setting) : Except Setting.Fault Setting :=
    s.elim (.error .malformed) .ok
  match f with
  | toml => orMalformed ((Toml.read cs).map .table)
  | json => orMalformed ((Json.read cs).map narrow)
  | yaml => Yaml.read cs
  | ini => orMalformed ((Ini.read cs).map .table)
  | ron => orMalformed (Ron.read cs)
  | json5 => orMalformed (Json5.read cs)

/-- Reads a document as the entries of a table. -/
def read (f : Format) (cs : List Char) : Except Setting.Fault (List (String × Setting)) := do
  match ← f.document cs with
  | .table es => .ok es
  | _ => .error .malformed

end Format

end GroupOffsets
