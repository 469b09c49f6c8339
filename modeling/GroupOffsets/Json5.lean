import GroupOffsets.Json.Document
import GroupOffsets.Text.Alphanumeric

/-!
# JSON5 documents

JSON as people write it: with comments, names without quotes, texts in single quotes, a comma behind
the last item, and more ways to write numbers.
-/

namespace GroupOffsets

namespace Json5

abbrev Scan (α : Type) : Type := Json.Scan α

/-! ## Between the parts -/

def isNewline (c : Char) : Bool :=
  c == '\n' || c == '\r' || c == '\u2028' || c == '\u2029'

def isBlank (c : Char) : Bool :=
  let n := c.toNat
  isNewline c || n == 0x09 || n == 0x0B || n == 0x0C || n == 0x20 || n == 0xA0 || n == 0xFEFF
    || n == 0x1680 || (0x2000 ≤ n && n ≤ 0x200A) || n == 0x202F || n == 0x205F || n == 0x3000

/-- What follows the end of a comment over several lines. -/
def behindComment : List Char → Option (List Char)
  | '*' :: '/' :: cs => some cs
  | _ :: cs => behindComment cs
  | [] => none

/-- Skips blanks and comments. -/
def skip : (fuel : Nat) → List Char → List Char
  | 0, cs => cs
  | fuel + 1, cs =>
    match cs.dropWhile isBlank with
    | '/' :: '/' :: cs => skip fuel (cs.dropWhile (!isNewline ·))
    | '/' :: '*' :: cs =>
      match behindComment cs with
      | some cs => skip fuel cs
      | none => '/' :: '*' :: cs
    | cs => cs

/-- Skips all that may stand between two parts. -/
def next (cs : List Char) : List Char := skip (cs.length + 1) cs

/-! ## Numbers -/

/-- The exponent at the beginning of a text; it may be missing. -/
def exponentPart (cs : List Char) : List Char × List Char :=
  match cs with
  | e :: rest =>
    let sign := match rest with
      | '+' :: _ => ['+']
      | '-' :: _ => ['-']
      | _ => []
    let digits := rest.drop sign.length
    if (e = 'e' ∨ e = 'E') ∧ !(digits.takeWhile RealNumeral.isDigit).isEmpty then
      (e :: sign ++ digits.takeWhile RealNumeral.isDigit, digits.dropWhile RealNumeral.isDigit)
    else ([], cs)
  | [] => ([], [])

/-- Takes a number without a sign. -/
def unsigned (cs : List Char) : Option (List Char × List Char) :=
  let decimal (whole rest : List Char) : Option (List Char × List Char) :=
    match rest with
    | '.' :: more =>
      let part := more.takeWhile RealNumeral.isDigit
      if whole.isEmpty && part.isEmpty then none
      else
        let (exponent, rest) := exponentPart (more.dropWhile RealNumeral.isDigit)
        some (whole ++ '.' :: part ++ exponent, rest)
    | rest =>
      if whole.isEmpty then none
      else
        let (exponent, rest) := exponentPart rest
        some (whole ++ exponent, rest)
  match cs with
  | '0' :: x :: rest =>
    if (x = 'x' ∨ x = 'X') ∧ rest.head?.any Hexadecimal.isDigit then
      some ('0' :: x :: rest.takeWhile Hexadecimal.isDigit, rest.dropWhile Hexadecimal.isDigit)
    else decimal ['0'] (x :: rest)
  | ['0'] => some (['0'], [])
  | 'I' :: 'n' :: 'f' :: 'i' :: 'n' :: 'i' :: 't' :: 'y' :: rest => some ("Infinity".toList, rest)
  | 'N' :: 'a' :: 'N' :: rest => some ("NaN".toList, rest)
  | cs => decimal (cs.takeWhile RealNumeral.isDigit) (cs.dropWhile RealNumeral.isDigit)

/-- A whole number of 64 bits. -/
def whole (cs : List Char) : Option Setting :=
  (Numeral.read 0x8000000000000000 0x7FFFFFFFFFFFFFFF cs).toOption.map .whole

/-- The number of a numeral.  One in base sixteen has at most 32 bits and no sign, and a real one is
finite unless it says otherwise, which it has to do without a plus sign. -/
def numberOf (cs : List Char) : Option Setting :=
  match cs with
  | '0' :: 'x' :: ds | '0' :: 'X' :: ds =>
    (Hexadecimal.value ds).bind fun n => if n ≤ 0xFFFFFFFF then some (.whole n) else none
  | cs =>
    let word := String.ofList cs
    if word = "Infinity" then some (.real (1 / 0))
    else if word = "-Infinity" then some (.real (-(1 / 0)))
    else if ["NaN", "-NaN"].contains word then some (.real (0 / 0))
    else if cs.any fun c => c == '.' || c == 'e' || c == 'E' then
      (RealNumeral.read cs).bind fun x => if x.isFinite then some (.real x) else none
    else whole cs

/-- A number. -/
def number (cs : List Char) : Option (Setting × List Char) := do
  let (sign, cs) := match cs with
    | '+' :: cs => (['+'], cs)
    | '-' :: cs => (['-'], cs)
    | cs => ([], cs)
  let (numeral, rest) ← unsigned cs
  return (← numberOf (sign ++ numeral), rest)

/-! ## Texts -/

/-- The character that a short escape stands for.  Digits and the letters of longer escapes do not
stand for themselves. -/
def escaped (c : Char) : Option Char :=
  match c with
  | 'b' => some '\x08'
  | 'f' => some '\x0c'
  | 'n' => some '\n'
  | 'r' => some '\r'
  | 't' => some '\t'
  | 'v' => some '\x0b'
  | '0' => some '\x00'
  | 'x' | 'u' => none
  | c => if RealNumeral.isDigit c then none else some c

/-- The rest of a text up to a quotation mark. -/
def text (mark : Char) : Scan (List Char)
  | '\\' :: 'u' :: a :: b :: c :: d :: '\\' :: 'u' :: e :: f :: g :: h :: cs =>
    match Hexadecimal.value [a, b, c, d], Hexadecimal.value [e, f, g, h] with
    | some high, some low =>
      if Json.isHigh high then
        if Json.isLow low then Json.cons (Json.joined high low) (text mark cs) else none
      else if Json.isLow high then none
      else Json.cons (Char.ofNat high) (text mark ('\\' :: 'u' :: e :: f :: g :: h :: cs))
    | _, _ => none
  | '\\' :: 'u' :: a :: b :: c :: d :: cs =>
    match Hexadecimal.value [a, b, c, d] with
    | some n =>
      if Json.isHigh n || Json.isLow n then none else Json.cons (Char.ofNat n) (text mark cs)
    | none => none
  | '\\' :: 'x' :: a :: b :: cs =>
    match Hexadecimal.value [a, b] with
    | some n => Json.cons (Char.ofNat n) (text mark cs)
    | none => none
  | '\\' :: '\r' :: '\n' :: cs => text mark cs
  | '\\' :: c :: cs =>
    if isNewline c then text mark cs
    else match escaped c with
      | some c => Json.cons c (text mark cs)
      | none => none
  | c :: cs =>
    if c = mark then some ([], cs)
    else if c = '\n' ∨ c = '\r' ∨ c = '\\' then none
    else Json.cons c (text mark cs)
  | [] => none

/-! ## Names -/

/-- Whether a name may begin with a character. -/
def isStart (c : Char) : Bool :=
  c == '$' || c == '_' || (Text.isAlphanumeric c && !RealNumeral.isDigit c)

/-- Whether a character may stand in a name. -/
def isPart (c : Char) : Bool :=
  isStart c || RealNumeral.isDigit c || c == '\u200C' || c == '\u200D'

/-- The characters of a name, the first of which `fits`. -/
def nameFrom (fits : Char → Bool) : Scan (List Char)
  | '\\' :: 'u' :: a :: b :: c :: d :: cs =>
    match Hexadecimal.value [a, b, c, d] with
    | some n =>
      if Json.isHigh n || Json.isLow n then none
      else Json.cons (Char.ofNat n) (nameFrom isPart cs)
    | none => none
  | c :: cs => if fits c then Json.cons c (nameFrom isPart cs) else some ([], c :: cs)
  | [] => some ([], [])

/-- The name of an entry. -/
def name : Scan (List Char)
  | '"' :: cs => text '"' cs
  | '\'' :: cs => text '\'' cs
  | cs =>
    match nameFrom isStart cs with
    | some ([], _) | none => none
    | r => r

/-! ## Values -/

mutual

/-- A value. -/
def value : (fuel : Nat) → Scan Setting
  | 0, _ => none
  | _ + 1, 'n' :: 'u' :: 'l' :: 'l' :: cs => some (.absent, cs)
  | _ + 1, 't' :: 'r' :: 'u' :: 'e' :: cs => some (.flag true, cs)
  | _ + 1, 'f' :: 'a' :: 'l' :: 's' :: 'e' :: cs => some (.flag false, cs)
  | _ + 1, '"' :: cs => (text '"' cs).map fun (s, cs) => (.text (String.ofList s), cs)
  | _ + 1, '\'' :: cs => (text '\'' cs).map fun (s, cs) => (.text (String.ofList s), cs)
  | fuel + 1, '[' :: cs =>
    match next cs with
    | ']' :: cs => some (.list [], cs)
    | cs => (items fuel cs).map fun (xs, cs) => (.list xs, cs)
  | fuel + 1, '\x7b' :: cs =>
    match next cs with
    | '\x7d' :: cs => some (.table [], cs)
    | cs => (pairs fuel [] cs).map fun (es, cs) => (.table es, cs)
  | _ + 1, cs => number cs

/-- The items of a list, up to its end. -/
def items : (fuel : Nat) → Scan (List Setting)
  | 0, _ => none
  | fuel + 1, cs => do
    let (x, cs) ← value fuel cs
    match next cs with
    | ',' :: cs =>
      match next cs with
      | ']' :: cs => return ([x], cs)
      | cs =>
        let (xs, cs) ← items fuel cs
        return (x :: xs, cs)
    | ']' :: cs => return ([x], cs)
    | _ => none

/-- The entries of a table, up to its end, after those that it has already. -/
def pairs : (fuel : Nat) → List (String × Setting) → Scan (List (String × Setting))
  | 0, _, _ => none
  | fuel + 1, es, cs => do
    let (name, cs) ← name cs
    match next cs with
    | ':' :: cs =>
      let (s, cs) ← value fuel (next cs)
      let es := Setting.put (String.ofList name) s es
      match next cs with
      | ',' :: cs =>
        match next cs with
        | '\x7d' :: cs => return (es, cs)
        | cs => pairs fuel es cs
      | '\x7d' :: cs => return (es, cs)
      | _ => none
    | _ => none

end

/-- Reads a document. -/
def read (cs : List Char) : Option Setting :=
  match value (cs.length + 1) (next cs) with
  | some (s, rest) => if (next rest).isEmpty then some s else none
  | none => none

end Json5

end GroupOffsets
