import Std.Data.ExtTreeMap
import Std.Data.ExtTreeSet
import GroupOffsets.Partition

/-!
# The local store

The log store that a bridge sits on, kept in the process.  It owns the partition objects; callers
hold handles on them, and an object stays usable through its handles after the store has deleted
the partition.  Cursors read from a checkpoint wait in the store until their partition is created.

A lookup of a partition goes to its owner first, which may take time and may fail for a while.  The
store can be told to be slow, to fail, or to hand out handles that fail, so that every path of its
callers can be walked.
-/

namespace GroupOffsets

/-- How a handle can fail. -/
inductive HandleFault where
  | first
  | last
  | openCursor
  | resetCursor
  deriving DecidableEq, Repr

namespace HandleFault

def name : HandleFault → String
  | first => "first"
  | last => "last"
  | openCursor => "open_cursor"
  | resetCursor => "reset_cursor"

/-- The failure that shows the fault. -/
def failure (f : HandleFault) : Failure := .illegalState ("injected " ++ f.name)

end HandleFault

/-- How a lookup can go wrong after the owner was found. -/
inductive LookupFault where
  /-- The lookup dies. -/
  | death
  /-- A node is named that does not own the partition. -/
  | wrongOwner
  | locateError
  /-- The owner denies that there is such a partition. -/
  | absent
  /-- The handle that is handed out fails. -/
  | handle (fault : HandleFault)
  deriving DecidableEq, Repr

/-- A reference to a partition object.  A wrapped handle is an object of its own, which passes all
but one operation on. -/
structure Handle where
  object : Nat
  wrapper : Option (Nat × HandleFault)
  deriving DecidableEq, Repr

/-- What a lookup came to. -/
inductive Lookup where
  | found (h : Handle)
  /-- The store has no such partition. -/
  | absent
  | failed (e : Failure)
  | died
  deriving DecidableEq, Repr

structure Store where
  /-- The node that serves the partitions. -/
  owner : String
  /-- Every partition object ever made, by number. -/
  objects : Std.ExtTreeMap Nat Partition
  /-- The number of the next object. -/
  nextObject : Nat
  /-- The partitions that exist, and their objects. -/
  served : Std.ExtTreeMap TopicPartition Nat
  /-- Loaded cursors whose partition is not created yet. -/
  pending : CursorPoints
  /-- Partitions whose lookups fail for now. -/
  unavailable : Std.ExtTreeSet TopicPartition
  /-- How long the owner takes to answer, in milliseconds. -/
  lookupDelay : Nat
  /-- How many more lookups fail. -/
  failing : Nat
  /-- How many lookups were begun. -/
  lookups : Nat
  faults : Std.ExtTreeMap TopicPartition LookupFault
  /-- The number of the next wrapped handle. -/
  nextWrapper : Nat

namespace Store

/-- A store without partitions, with the cursors that a checkpoint held. -/
def new (owner : String) (points : CursorPoints) : Store where
  owner := owner
  objects := ∅
  nextObject := 0
  served := ∅
  pending := points
  unavailable := ∅
  lookupDelay := 0
  failing := 0
  lookups := 0
  faults := ∅
  nextWrapper := 0

variable (s : Store) (tp : TopicPartition)

/-- The object with a number; an empty one for a number not given out. -/
def object (n : Nat) : Partition := (s.objects[n]?).getD (.new ⟨"", 0⟩)

def setObject (n : Nat) (p : Partition) : Store := { s with objects := s.objects.insert n p }

/-- Puts a new object into the store, which serves it under no name. -/
def allocate (p : Partition) : Nat × Store :=
  (s.nextObject, { s.setObject s.nextObject p with nextObject := s.nextObject + 1 })

/-- The object of an existing partition. -/
def object? : Option Nat := s.served[tp]?

/-- The object of a partition, which is created unless it exists. -/
def ensure : Nat × Store :=
  match s.object? tp with
  | some n => (n, s)
  | none =>
    let (n, s) := s.allocate (.new tp)
    (n, { s with served := s.served.insert tp n })

/-- The loaded cursors that wait for a partition. -/
def pendingOn : List (CursorKey × Position) := s.pending.toList.filter (·.1.on == tp)

/-- Creates a partition, or finds it, and gives it the cursors that wait for it. -/
def createPartition : Nat × Store :=
  let waiting := s.pendingOn tp
  let (n, s) := s.ensure tp
  let restored := waiting.foldl (fun p c => p.restoreCursor c.1.group c.2) (s.object n)
  (n, { s.setObject n restored with pending := s.pending.filter fun k _ => k.on != tp })

/-- Deletes a partition with its cursors, and says whether it existed. -/
def deletePartition : Bool × Store :=
  (s.served.contains tp, { s with served := s.served.erase tp })

/-- Every durable cursor: those of the existing partitions, and the loaded ones that still wait. -/
def points : CursorPoints :=
  s.served.foldl (fun acc tp n =>
    (s.object n).cursors.foldl (fun acc group position => acc.insert ⟨group, tp⟩ position) acc)
    s.pending

/-! ## Handles -/

variable (h : Handle)

/-- Whether a handle fails in this way. -/
def failsBy (fault : HandleFault) : Bool := h.wrapper.any (·.2 == fault)

/-- The partition that a handle refers to. -/
def partition : Partition := s.object h.object

/-- The earliest retained position. -/
def firstPosition : Attempt Position :=
  if failsBy h .first then .error HandleFault.first.failure else .ok (s.partition h).first

/-- The last position written. -/
def lastPosition : Attempt Position :=
  if failsBy h .last then .error HandleFault.last.failure else .ok (s.partition h).last

/-- Moves the cursor of a group to a position; the group gets a cursor first if it has none, and
keeps it also if moving it fails. -/
def writeCursor (group : String) (x : Position) : Attempt Unit × Store :=
  if failsBy h .openCursor then (.error HandleFault.openCursor.failure, s)
  else
    let p := (s.partition h).openCursor group
    if failsBy h .resetCursor then (.error HandleFault.resetCursor.failure, s.setObject h.object p)
    else (.ok (), s.setObject h.object (p.resetCursor group x))

/-! ## Lookups -/

/-- A lookup begins. -/
def beginLookup : Store := { s with lookups := s.lookups + 1 }

/-- The owner's answer, unless the lookup fails for now.  Lookups that were told to fail do so
first. -/
def locateOwner : Attempt String × Store :=
  let failure := Failure.storageUnavailable ("lookup of " ++ tp.text ++ " failed")
  if 0 < s.failing then (.error failure, { s with failing := s.failing - 1 })
  else if s.unavailable.contains tp then (.error failure, s)
  else (.ok s.owner, s)

/-- The partition object as the named node serves it. -/
def getPartition (owner : String) : Attempt (Option Handle) :=
  if owner != s.owner then
    .error (.storageUnavailable (tp.text ++ " is not served by " ++ owner))
  else .ok ((s.object? tp).map (⟨·, none⟩))

/-- A lookup as its caller sees it, once the owner has taken its time. -/
def lookup : Lookup × Store :=
  match s.locateOwner tp with
  | (.error e, s) => (.failed e, s)
  | (.ok owner, s) =>
    match s.faults[tp]? with
    | some .death => (.died, s)
    | some .locateError => (.failed (.illegalState "injected locate_error"), s)
    | some .absent => (.absent, s)
    | fault =>
      let named := if fault = some .wrongOwner then "owner-2" else owner
      match s.getPartition tp named with
      | .error e => (.failed e, s)
      | .ok none => (.absent, s)
      | .ok (some h) =>
        match fault with
        | some (.handle f) =>
          (.found { h with wrapper := some (s.nextWrapper, f) },
            { s with nextWrapper := s.nextWrapper + 1 })
        | _ => (.found h, s)

end Store

end GroupOffsets
