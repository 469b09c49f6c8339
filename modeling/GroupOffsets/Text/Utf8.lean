import GroupOffsets.Text.Numeral

/-!
# UTF-8

Texts as bytes.  `Utf8.units` reads bytes as characters and the parts between them that are none: a
part that is not well-formed goes as far as it could still have begun a character, and is one unit.
-/

namespace GroupOffsets

namespace Utf8

def encode (cs : List Char) : List UInt8 := cs.flatMap String.utf8EncodeChar

/-- What bytes are made of. -/
inductive Unit where
  | char (c : Char)
  /-- Bytes that are no character, this many. -/
  | stray (length : Nat)
  /-- The beginning of a character, at the end. -/
  | incomplete
  deriving DecidableEq, Repr

/-- A character of which some bytes were read. -/
structure Begun where
  /-- How many bytes were read, and what they say. -/
  taken : Nat
  value : Nat
  /-- How many bytes are missing, and the range of the next one. -/
  missing : Nat
  low : UInt8
  high : UInt8
  deriving DecidableEq, Repr

/-- What a byte begins: a character of one byte, a longer one, or none. -/
def lead (b : UInt8) : Option (Char ⊕ Begun) :=
  if b < 0x80 then some (.inl (Char.ofNat b.toNat))
  else if b < 0xC2 then none
  else if b < 0xE0 then some (.inr ⟨1, b.toNat - 0xC0, 1, 0x80, 0xBF⟩)
  else if b = 0xE0 then some (.inr ⟨1, 0, 2, 0xA0, 0xBF⟩)
  else if b = 0xED then some (.inr ⟨1, 0xD, 2, 0x80, 0x9F⟩)
  else if b < 0xF0 then some (.inr ⟨1, b.toNat - 0xE0, 2, 0x80, 0xBF⟩)
  else if b = 0xF0 then some (.inr ⟨1, 0, 3, 0x90, 0xBF⟩)
  else if b < 0xF4 then some (.inr ⟨1, b.toNat - 0xF0, 3, 0x80, 0xBF⟩)
  else if b = 0xF4 then some (.inr ⟨1, 4, 3, 0x80, 0x8F⟩)
  else none

/-- Takes a byte that begins something: the units that are complete then, and what was begun. -/
def opening (b : UInt8) : List Unit × Option Begun :=
  match lead b with
  | some (.inl c) => ([.char c], none)
  | some (.inr s) => ([], some s)
  | none => ([.stray 1], none)

/-- Takes the next byte. -/
def feed (s : Option Begun) (b : UInt8) : List Unit × Option Begun :=
  match s with
  | none => opening b
  | some s =>
    if s.low ≤ b ∧ b ≤ s.high then
      let value := s.value * 64 + (b.toNat - 0x80)
      if s.missing ≤ 1 then ([.char (Char.ofNat value)], none)
      else ([], some ⟨s.taken + 1, value, s.missing - 1, 0x80, 0xBF⟩)
    else (.stray s.taken :: (opening b).1, (opening b).2)

/-- The units of bytes that come after what was begun. -/
def unitsFrom (s : Option Begun) : List UInt8 → List Unit
  | [] => if s.isSome then [.incomplete] else []
  | b :: bs => (feed s b).1 ++ unitsFrom (feed s b).2 bs

def units (bs : List UInt8) : List Unit := unitsFrom none bs

/-- Where bytes stop being well-formed. -/
structure Fault where
  /-- How many bytes are well-formed. -/
  index : Nat
  /-- How many bytes after them are no character; `none` if they could still become one. -/
  length : Option Nat
  deriving DecidableEq, Repr

def Fault.message (f : Fault) : String :=
  match f.length with
  | some n =>
    "invalid utf-8 sequence of " ++ Numeral.text n ++ " bytes from index " ++ Numeral.text f.index
  | none => "incomplete utf-8 byte sequence from index " ++ Numeral.text f.index

/-- The text of units of which the first stands at `index`. -/
def read (index : Nat) : List Unit → Except Fault (List Char)
  | [] => .ok []
  | .char c :: us => (read (index + c.utf8Size) us).map (c :: ·)
  | .stray n :: _ => .error ⟨index, some n⟩
  | .incomplete :: _ => .error ⟨index, none⟩

/-- The text of well-formed bytes. -/
def decode (bs : List UInt8) : Except Fault (List Char) := read 0 (units bs)

/-- The text of any bytes, with a replacement character for each part that is not well-formed. -/
def decodeLossy (bs : List UInt8) : List Char :=
  (units bs).map fun
    | .char c => c
    | .stray _ | .incomplete => '\uFFFD'

end Utf8

end GroupOffsets
