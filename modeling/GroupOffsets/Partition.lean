import Std.Data.ExtTreeMap
import GroupOffsets.Key
import GroupOffsets.Position

/-!
# Partitions of the store

A loaded partition of the log store: the range of records that it retains, and the durable cursors
of the groups that read it.  No record data is kept.
-/

namespace GroupOffsets

/-- Positions of durable cursors. -/
abbrev CursorPoints : Type := Std.ExtTreeMap CursorKey Position

structure Partition where
  name : TopicPartition
  /-- The earliest position still retained. -/
  first : Position
  /-- The last position written. -/
  last : Position
  /-- Where each group stands. -/
  cursors : Std.ExtTreeMap String Position

namespace Partition

/-- An empty partition. -/
def new (name : TopicPartition) : Partition := ⟨name, .zero, .zero, ∅⟩

variable (p : Partition)

/-- Appends a record to the current segment. -/
def append : Partition := { p with last := ⟨p.last.segment, p.last.entry + 1⟩ }

/-- Closes the current segment and starts the next one. -/
def roll : Partition := { p with last := ⟨p.last.segment + 1, 0⟩ }

/-- Drops all records before a position. -/
def trim (x : Position) : Partition := { p with first := x.min p.last }

def setRange (first last : Position) : Partition := { p with first, last }

/-- Where a group's cursor stands, if it has one. -/
def cursor? (group : String) : Option Position := p.cursors[group]?

/-- Makes sure that a group has a cursor; a new one stands at `position`. -/
def openCursorAt (group : String) (position : Position) : Partition :=
  if p.cursors.contains group then p
  else { p with cursors := p.cursors.insert group position }

/-- Makes sure that a group has a cursor; a new one stands at the tail. -/
def openCursor (group : String) : Partition := p.openCursorAt group p.last

/-- Moves a group's cursor. -/
def resetCursor (group : String) (x : Position) : Partition :=
  { p with cursors := p.cursors.insert group x }

/-- Gives a group the cursor that it had before a restart.  The tail moves up to it if need be. -/
def restoreCursor (group : String) (position : Position) : Partition :=
  { p with last := p.last.max position }.openCursorAt group position

end Partition

end GroupOffsets
