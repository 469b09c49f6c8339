import GroupOffsets.Partition
import GroupOffsets.Text.Blank
import GroupOffsets.Text.Quoted
import GroupOffsets.Text.Utf8

/-!
# The cursor checkpoint

The file that keeps the durable cursors of a store over a restart.  Its first line is the version of
the format; each further line has a group, a partition and a position, with blanks between them.

A line can only name groups and topics without blanks that are not empty; other cursors are left
out when the file is written.  A file is read line by line, and the first line that does not fit
makes the whole of it unreadable.
-/

namespace GroupOffsets

namespace Checkpoint

/-- The version of the format. -/
def version : Int8 := 1

/-! ## Writing -/

/-- Whether a line can hold a name. -/
def isWritable (name : String) : Bool := !name.isEmpty && !name.toList.any Text.isBlank

/-- Whether a line can hold a cursor. -/
def fits (k : CursorKey) : Bool := isWritable k.group && isWritable k.on.topic

/-- The first line. -/
def header : List Char := Numeral.print version.toInt ++ ['\n']

/-- The line of a cursor. -/
def line (k : CursorKey) (p : Position) : List Char :=
  k.group.toList ++ ' ' :: k.on.text.toList ++ ' ' :: p.text.toList ++ ['\n']

/-- The text of a checkpoint. -/
def text (points : CursorPoints) : List Char :=
  header ++ (points.toList.filter fun c => fits c.1).flatMap fun c => line c.1 c.2

/-- The file of a checkpoint. -/
def write (points : CursorPoints) : List UInt8 := Utf8.encode (text points)

/-- The cursors that a checkpoint leaves out. -/
def skipped (points : CursorPoints) : List CursorKey := points.keys.filter (!fits ·)

/-! ## Reading -/


/-- Cuts bytes after each newline. -/
def lines : List UInt8 → List (List UInt8)
  | [] => []
  | b :: bs =>
    if b = 10 then [b] :: lines bs
    else match lines bs with
      | [] => [[b]]
      | l :: ls => (b :: l) :: ls

/-- The text of a line. -/
def decode (l : List UInt8) : Attempt (List Char) :=
  (Utf8.decode l).mapError fun fault => .io fault.message

/-- Reads a number, or says why it is none. -/
def number {α : Type} (r : Except Numeral.Fault α) : Attempt α := r.mapError .numeral

/-- Checks the first line. -/
def readHeader (cs : List Char) : Attempt Unit := do
  let v ← number (Numeral.readInt8 (Text.trim cs))
  if v = version then .ok ()
  else .error (.invalidValue ("cursor checkpoint version " ++ Numeral.text v.toInt
    ++ ", expected " ++ Numeral.text version.toInt))

/-- The failure of a line that does not have the parts of one. -/
def malformed (cs : List Char) : Failure :=
  .invalidValue ("cursor checkpoint line " ++ String.ofList (Text.quoted cs))

/-- What stands before the first colon, and what stands behind it. -/
def splitColon : List Char → Option (List Char × List Char)
  | [] => none
  | c :: cs =>
    if c = ':' then some ([], cs) else (splitColon cs).map fun p => (c :: p.1, p.2)

/-- Reads the line of a cursor. -/
def readLine (cs : List Char) : Attempt (CursorKey × Position) :=
  match Text.fields cs with
  | [group, name, position] => do
    let on ← TopicPartition.ofText (String.ofList name)
    let (segment, entry) ← (splitColon position).elim (.error (malformed cs)) .ok
    let segment ← number (Numeral.readInt64 segment)
    let entry ← number (Numeral.readInt64 entry)
    .ok (⟨String.ofList group, on⟩, ⟨segment, entry⟩)
  | _ => .error (malformed cs)

/-- Adds the cursors of further lines; of two lines for one cursor the later one holds. -/
def readLines (points : CursorPoints) : List (List UInt8) → Attempt CursorPoints
  | [] => .ok points
  | l :: ls => do
    let c ← readLine (← decode l)
    readLines (points.insert c.1 c.2) ls

/-- Reads a checkpoint file. -/
def read (file : List UInt8) : Attempt CursorPoints :=
  match lines file with
  | [] => (readHeader []).bind fun _ => .ok ∅
  | l :: ls => do
    readHeader (← decode l)
    readLines ∅ ls

/-- Reads a checkpoint file that may not be there yet. -/
def load (file : Option (List UInt8)) : Attempt CursorPoints :=
  match file with
  | none => .ok ∅
  | some file => read file

/-! ## Looking at a file -/

/-- The lines of a file as texts, `none` if they are not all texts.  Those after the first one come
sorted, since their order means nothing. -/
def listing (file : List UInt8) : Option (List String) :=
  ((lines file).mapM fun l => (Utf8.decode l).toOption).map fun ls =>
    match ls.map String.ofList with
    | [] => []
    | first :: rest => first :: rest.mergeSort fun a b => a ≤ b

end Checkpoint

end GroupOffsets
