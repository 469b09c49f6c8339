import GroupOffsets.Failure

/-!
# Positions and offsets

A record of the log lives at a position: a segment, and an entry inside it.  Consumers see one
number instead, the offset.  Its layout, below a sign bit that is always clear, is

```text
| segment (35 bits) | entry (28 bits) |
```

so that offsets are ordered as positions are: by segment, and inside a segment by entry.
-/

namespace GroupOffsets

/-- A record's place as consumers see it. -/
abbrev Offset : Type := Int64

/-- A record's place in the store. -/
structure Position where
  segment : Int64
  entry : Int64
  deriving DecidableEq, Repr

namespace Position

/-- Positions are ordered by segment, then by entry. -/
instance : Ord Position := ⟨compareLex (compareOn segment) (compareOn entry)⟩

instance : Std.TransOrd Position :=
  inferInstanceAs (Std.TransCmp (compareLex (compareOn segment) (compareOn entry)))

instance : Std.LawfulEqOrd Position where
  eq_of_compare {p q} h := by
    have h : (compare p.segment q.segment).then (compare p.entry q.entry) = .eq := h
    obtain ⟨hs, he⟩ := Ordering.then_eq_eq.mp h
    cases p; cases q
    cases Std.LawfulEqCmp.eq_of_compare hs; cases Std.LawfulEqCmp.eq_of_compare he; rfl

instance : LT Position := ltOfOrd

instance : LE Position := leOfOrd

/-- The start of an empty log. -/
def zero : Position := ⟨0, 0⟩

/-- The earlier of two positions. -/
def min (p q : Position) : Position := if compare q p = .lt then q else p

/-- The later of two positions. -/
def max (p q : Position) : Position := if compare p q = .lt then q else p

/-- A position as `segment:entry`. -/
def text (p : Position) : String :=
  Numeral.text p.segment.toInt ++ ":" ++ Numeral.text p.entry.toInt

/-- The width of the entry in an offset. -/
def entryBits : Int64 := 28

/-- The last entry of a segment that an offset can hold. -/
def maxEntry : Int64 := (1 <<< entryBits) - 1

/-- The last segment that an offset can hold. -/
def maxSegment : Int64 := Int64.maxValue >>> entryBits

/-- The offset of a position, if both of its parts fit. -/
def encode (p : Position) : Attempt Offset :=
  if p.entry < 0 ∨ maxEntry < p.entry then
    .error (.encodingOverflow
      ("entry index " ++ Numeral.text p.entry.toInt ++ " does not fit in 28 bits"))
  else if p.segment < 0 ∨ maxSegment < p.segment then
    .error (.encodingOverflow
      ("segment id " ++ Numeral.text p.segment.toInt ++ " does not fit in 35 bits"))
  else .ok ((p.segment <<< entryBits) ||| p.entry)

/-- The position of an offset.  Offsets below zero stand for no position. -/
def decode (o : Offset) : Attempt Position :=
  if o < 0 then
    .error (.invalidValue ("offset " ++ Numeral.text o.toInt ++ " has no physical position"))
  else .ok ⟨o >>> entryBits, o &&& maxEntry⟩

end Position

end GroupOffsets
