import GroupOffsets.Json.Document

/-!
# YAML nodes

What a document is made of, how a scalar without quotes is understood, and how nodes are read as
settings.
-/

namespace GroupOffsets

namespace Yaml

inductive Node where
  | null
  | flag (b : Bool)
  | whole (n : Int)
  /-- A real number, as it was written. -/
  | real (s : String)
  | text (s : String)
  | list (xs : List Node)
  | table (entries : List (Node × Node))
  /-- What does not have the kind that its tag says, and a node inside itself. -/
  | bad

/-- What a tag says. -/
inductive Tag where
  /-- One of the kinds that every document knows. -/
  | core (kind : String)
  | other
  deriving DecidableEq, Repr

namespace Node

instance : Inhabited Node := ⟨null⟩

/-! ## Scalars without quotes -/

/-- A whole number of 64 bits in base sixteen or eight, with an optional sign. -/
def based (base : Nat) (cs : List Char) : Option Int := do
  let (negative, ds) := RealNumeral.sign cs
  let n ← Hexadecimal.valueIn base ds
  if ds.isEmpty then none
  else if negative then if n ≤ 0x8000000000000000 then return -n else none
  else if n ≤ 0x7FFFFFFFFFFFFFFF then return n
  else none

/-- A whole number of 64 bits. -/
def decimal (cs : List Char) : Option Int :=
  (Numeral.read 0x8000000000000000 0x7FFFFFFFFFFFFFFF cs).toOption

/-- A whole number in any of its forms. -/
def wholeOf (cs : List Char) : Option Int :=
  match cs with
  | '0' :: 'x' :: ds => based 16 ds
  | '0' :: 'o' :: ds => based 8 ds
  | '+' :: ds => (decimal ds) <|> (decimal cs)
  | cs => decimal cs

/-- The words for real numbers without digits. -/
def realWords : List String :=
  [".inf", ".Inf", ".INF", "+.inf", "+.Inf", "+.INF", "-.inf", "-.Inf", "-.INF", ".nan", "NaN",
    ".NAN"]

/-- Whether a scalar is a real number. -/
def isReal (s : String) : Bool :=
  realWords.contains s
    || (s.toList.any RealNumeral.isDigit && (RealNumeral.read s.toList).isSome)

/-- The node of a scalar without a tag. -/
def ofPlain (s : String) : Node :=
  match wholeOf s.toList with
  | some n => .whole n
  | none =>
    if s = "" ∨ s = "~" ∨ s = "null" then .null
    else if s = "true" then .flag true
    else if s = "false" then .flag false
    else if isReal s then .real s
    else .text s

/-- The node of a scalar with a tag. -/
def ofTagged (s : String) : Tag → Node
  | .core "bool" => if s = "true" then .flag true else if s = "false" then .flag false else .bad
  | .core "int" =>
    match decimal s.toList with
    | some n => .whole n
    | none => .bad
  | .core "float" => if isReal s then .real s else .bad
  | .core "null" => if s = "~" ∨ s = "null" then .null else .bad
  | .core _ | .other => .text s

/-- The node of a scalar without quotes. -/
def ofScalar (s : String) (tag : Option Tag) : Node := tag.elim (ofPlain s) (ofTagged s)

/-! ## Settings -/

/-- The name of an entry, if it has a scalar for one. -/
def name? : Node → Option String
  | .text s | .real s => some s
  | .whole n => some (Numeral.text n)
  | .flag b => some (if b then "true" else "false")
  | .null | .list _ | .table _ | .bad => none

/-- Whether two nodes are the same scalar. -/
def isSame : Node → Node → Bool
  | .null, .null => true
  | .flag a, .flag b => a == b
  | .whole m, .whole n => m == n
  | .real s, .real t => s == t
  | .text s, .text t => s == t
  | _, _ => false

mutual

/-- A node as a setting.  A name that is no scalar makes the program break down. -/
def setting : Node → Except Setting.Fault Setting
  | .null | .bad => .ok .absent
  | .flag b => .ok (.flag b)
  | .whole n => .ok (.whole n)
  | .real s =>
    match RealNumeral.read s.toList with
    | some x => .ok (.real x)
    | none => .error .malformed
  | .text s => .ok (.text s)
  | .list xs => (settings xs).map .list
  | .table es => (entrySettings es).map .table

def settings : List Node → Except Setting.Fault (List Setting)
  | [] => .ok []
  | x :: xs => do
    let s ← x.setting
    let ss ← settings xs
    return s :: ss

def entrySettings : List (Node × Node) → Except Setting.Fault (List (String × Setting))
  | [] => .ok []
  | (key, x) :: es =>
    match key.name? with
    | some name => do
      let s ← x.setting
      let ss ← entrySettings es
      return (name, s) :: ss
    | none => .error .breakdown

end

end Node

end Yaml

end GroupOffsets
