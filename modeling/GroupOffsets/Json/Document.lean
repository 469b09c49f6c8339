import GroupOffsets.Json.Number
import GroupOffsets.Text.Hexadecimal

/-!
# JSON documents

A value, with nothing but blanks around it.  Of entries with the same name the last one counts.
-/

namespace GroupOffsets

namespace Json

def isBlank (c : Char) : Bool := c == ' ' || c == '\n' || c == '\t' || c == '\r'

def skipBlanks (cs : List Char) : List Char := cs.dropWhile isBlank

/-! ## Texts -/

/-- Whether a number is the first half of a character. -/
def isHigh (n : Nat) : Bool := 0xD800 ≤ n && n ≤ 0xDBFF

/-- Whether a number is the second half of a character. -/
def isLow (n : Nat) : Bool := 0xDC00 ≤ n && n ≤ 0xDFFF

/-- The character of two halves. -/
def joined (high low : Nat) : Char :=
  Char.ofNat ((high - 0xD800) * 0x400 + (low - 0xDC00) + 0x10000)

/-- The character that a short escape stands for. -/
def escaped : Char → Option Char
  | '"' => some '"'
  | '\\' => some '\\'
  | '/' => some '/'
  | 'b' => some '\x08'
  | 'f' => some '\x0c'
  | 'n' => some '\n'
  | 'r' => some '\r'
  | 't' => some '\t'
  | _ => none

/-- Puts a character in front of what a scanner read. -/
def cons (c : Char) (r : Option (List Char × List Char)) : Option (List Char × List Char) :=
  r.map fun (cs, rest) => (c :: cs, rest)

/-- The rest of a text. -/
def text : Scan (List Char)
  | '"' :: cs => some ([], cs)
  | '\\' :: 'u' :: a :: b :: c :: d :: '\\' :: 'u' :: e :: f :: g :: h :: cs =>
    match Hexadecimal.value [a, b, c, d], Hexadecimal.value [e, f, g, h] with
    | some high, some low =>
      if isHigh high then if isLow low then cons (joined high low) (text cs) else none
      else if isLow high then none
      else cons (Char.ofNat high) (text ('\\' :: 'u' :: e :: f :: g :: h :: cs))
    | _, _ => none
  | '\\' :: 'u' :: a :: b :: c :: d :: cs =>
    match Hexadecimal.value [a, b, c, d] with
    | some n => if isHigh n || isLow n then none else cons (Char.ofNat n) (text cs)
    | none => none
  | '\\' :: c :: cs =>
    match escaped c with
    | some c => cons c (text cs)
    | none => none
  | c :: cs => if c < ' ' then none else cons c (text cs)
  | [] => none

/-! ## Values -/

/-- How deep values may stand inside one another. -/
def nestingLimit : Nat := 127

mutual

/-- A value.  Lists and tables may stand inside one another as deep as `depth` says. -/
def value : (fuel depth : Nat) → Scan Setting
  | 0, _, _ => none
  | _ + 1, _, 'n' :: 'u' :: 'l' :: 'l' :: cs => some (.absent, cs)
  | _ + 1, _, 't' :: 'r' :: 'u' :: 'e' :: cs => some (.flag true, cs)
  | _ + 1, _, 'f' :: 'a' :: 'l' :: 's' :: 'e' :: cs => some (.flag false, cs)
  | _ + 1, _, '"' :: cs => (text cs).map fun (s, cs) => (.text (String.ofList s), cs)
  | fuel + 1, depth + 1, '[' :: cs =>
    match skipBlanks cs with
    | ']' :: cs => some (.list [], cs)
    | cs => (items fuel depth cs).map fun (xs, cs) => (.list xs, cs)
  | fuel + 1, depth + 1, '\x7b' :: cs =>
    match skipBlanks cs with
    | '\x7d' :: cs => some (.table [], cs)
    | cs => (pairs fuel depth [] cs).map fun (es, cs) => (.table es, cs)
  | _ + 1, _, cs => number cs

/-- The items of a list, up to its end. -/
def items : (fuel depth : Nat) → Scan (List Setting)
  | 0, _, _ => none
  | fuel + 1, depth, cs => do
    let (x, cs) ← value fuel depth (skipBlanks cs)
    match skipBlanks cs with
    | ',' :: cs =>
      let (xs, cs) ← items fuel depth cs
      return (x :: xs, cs)
    | ']' :: cs => return ([x], cs)
    | _ => none

/-- The entries of a table, up to its end, after those that it has already. -/
def pairs : (fuel depth : Nat) → List (String × Setting) → Scan (List (String × Setting))
  | 0, _, _, _ => none
  | fuel + 1, depth, es, cs => do
    match skipBlanks cs with
    | '"' :: cs =>
      let (name, cs) ← text cs
      match skipBlanks cs with
      | ':' :: cs =>
        let (s, cs) ← value fuel depth (skipBlanks cs)
        let es := Setting.put (String.ofList name) s es
        match skipBlanks cs with
        | ',' :: cs => pairs fuel depth es cs
        | '\x7d' :: cs => return (es, cs)
        | _ => none
      | _ => none
    | _ => none

end

/-- Reads a document. -/
def read (cs : List Char) : Option Setting :=
  match value (cs.length + 1) nestingLimit (skipBlanks cs) with
  | some (s, rest) => if (skipBlanks rest).isEmpty then some s else none
  | none => none

end Json

end GroupOffsets
