import GroupOffsets.Config.Format
import GroupOffsets.Config.Merge
import GroupOffsets.Files
import GroupOffsets.Text.Utf8

/-!
# Configuration files

How the file for a path is found, and how a configuration is read from it.  The extension of the
file may be left out of the path.
-/

namespace GroupOffsets

namespace Config

/-- Why there is no configuration. -/
inductive Trouble where
  | failure (e : Failure)
  /-- The file makes the program break down. -/
  | breakdown

/-- The file gives no configuration. -/
def unreadable : Trouble := .failure (.configFile "")

/-- Reads a configuration file, and checks what it says. -/
def read (format : Format) (file : List UInt8) : Except Trouble Config := do
  let .ok cs := Utf8.decode file | .error unreadable
  match format.read cs with
  | .error .malformed => .error unreadable
  | .error .breakdown => .error .breakdown
  | .ok es =>
    match Setting.ofEntries es with
    | none => .error .breakdown
    | some s =>
      match Reading.lenient.config s with
      | none => .error unreadable
      | some c => (c.validate.mapError .failure).map fun _ => c

/-- The format of the file with a path. -/
def formatOf (path : String) : Option Format := do
  let (_, name) ← Files.upToName path
  Format.ofExtension (← Files.extension name)

/-- The files that are looked for if there is none with a path itself. -/
def candidates (path : String) : List (String × Format) :=
  match Files.upToName path with
  | none => []
  | some (start, _) => Format.extensions.map fun e => (start ++ "." ++ e.1, e.2)

/-- Finds the configuration file for a path, given what the files with some paths hold, and reads
it. -/
def load (content? : String → Option (List UInt8)) (path : String) : Except Trouble Config :=
  match content? path with
  | some file => (formatOf path).elim (.error unreadable) (read · file)
  | none =>
    match (candidates path).findSome? fun c => (content? c.1).map (c.2, ·) with
    | some (format, file) => read format file
    | none => .error unreadable

/-- A path has to be text. -/
def pathOf (path : List UInt8) : Attempt String :=
  match Utf8.decode path with
  | .ok cs => .ok (String.ofList cs)
  | .error _ =>
    .error (.invalidValue ("config file path: " ++ String.ofList (Utf8.decodeLossy path)))

end Config

end GroupOffsets
