import GroupOffsets.Json.Document

/-!
# RON documents

Values as they are written in a program: structures `Name(field: value)` whose names do not matter,
tuples, lists, maps, texts, characters, numbers, optional values and the unit.  A structure with
fields and a map are tables, and a tuple is a list.  A bare name stands for no value.
-/

namespace GroupOffsets

namespace Ron

abbrev Scan (α : Type) : Type := Json.Scan α

/-! ## Between the parts -/

def isBlank (c : Char) : Bool := c == ' ' || c == '\n' || c == '\t' || c == '\r'

/-- What follows the end of a comment that may have others in it, `depth` levels deep. -/
def behindComment : (depth : Nat) → List Char → Option (List Char)
  | depth, '/' :: '*' :: cs => behindComment (depth + 1) cs
  | 0, '*' :: '/' :: cs => some cs
  | depth + 1, '*' :: '/' :: cs => behindComment depth cs
  | depth, _ :: cs => behindComment depth cs
  | _, [] => none

/-- Skips blanks and comments; `none` if a slash does not begin a comment that ends. -/
def skip : (fuel : Nat) → List Char → Option (List Char)
  | 0, _ => none
  | fuel + 1, cs =>
    match cs.dropWhile isBlank with
    | '/' :: '/' :: cs => skip fuel (cs.dropWhile (· != '\n'))
    | '/' :: '*' :: cs =>
      match behindComment 0 cs with
      | some cs => skip fuel cs
      | none => none
    | '/' :: _ => none
    | cs => some cs

/-- Skips all that may stand between two parts. -/
def next (cs : List Char) : Option (List Char) := skip (cs.length + 1) cs

/-! ## Names -/

def isStart (c : Char) : Bool := c.isAlpha || c == '_'

def isPart (c : Char) : Bool := c.isAlphanum || c == '_'

/-- Whether a character may stand in a name that is marked as such. -/
def isMarkedPart (c : Char) : Bool := isPart c || c == '.' || c == '+' || c == '-'

/-- A name. -/
def name : Scan (List Char)
  | 'r' :: '"' :: _ => none
  | 'r' :: '#' :: cs =>
    match cs.takeWhile isMarkedPart with
    | [] => none
    | word => some (word, cs.dropWhile isMarkedPart)
  | c :: cs =>
    if !isStart c then none
    else match cs.dropWhile isPart with
      | d :: rest => if isMarkedPart d then none else some (c :: cs.takeWhile isPart, d :: rest)
      | [] => some (c :: cs.takeWhile isPart, [])
  | [] => none

/-- What follows a word, if it comes next. -/
def word? (word : String) (cs : List Char) : Option (List Char) :=
  if word.toList.isPrefixOf cs then
    let rest := cs.drop word.length
    if rest.head?.any isPart then none else some rest
  else none

/-- Whether the parentheses that were opened are those of a tuple: no name with a colon behind it
comes first.  Nothing if the text ends before that can be said. -/
def isTuple (cs : List Char) : Option Bool :=
  match name cs with
  | none => some true
  | some (_, cs) => do
    match ← next cs with
    | c :: _ => return c != ':'
    | [] => none

/-! ## Texts -/

/-- Up to `limit` hexadecimal digits, and what follows them. -/
def hexDigits (limit : Nat) (cs : List Char) : List Char × List Char :=
  let ds := (cs.take limit).takeWhile fun c => Hexadecimal.isDigit c
  (ds, cs.drop ds.length)

/-- The character of an escape. -/
def escape : Scan Char
  | '\'' :: cs => some ('\'', cs)
  | '"' :: cs => some ('"', cs)
  | '\\' :: cs => some ('\\', cs)
  | 'n' :: cs => some ('\n', cs)
  | 'r' :: cs => some ('\r', cs)
  | 't' :: cs => some ('\t', cs)
  | '0' :: cs => some ('\x00', cs)
  | 'x' :: a :: b :: cs => (Hexadecimal.value [a, b]).map fun n => (Char.ofNat n, cs)
  | 'u' :: '\x7b' :: cs =>
    match hexDigits 6 cs with
    | (ds, '\x7d' :: rest) =>
      if ds.isEmpty then none else (Hexadecimal.char? ds).map (·, rest)
    | _ => none
  | _ => none

/-- The rest of a text. -/
def text : (fuel : Nat) → Scan (List Char)
  | 0, _ => none
  | _ + 1, '"' :: cs => some ([], cs)
  | fuel + 1, '\\' :: cs => do
    let (c, cs) ← escape cs
    Json.cons c (text fuel cs)
  | fuel + 1, c :: cs => Json.cons c (text fuel cs)
  | _ + 1, [] => none

/-- The rest of a text in which nothing is escaped, up to a mark. -/
def rawText (mark : List Char) : Scan (List Char)
  | [] => none
  | c :: cs =>
    if mark.isPrefixOf (c :: cs) then some ([], (c :: cs).drop mark.length)
    else Json.cons c (rawText mark cs)

/-- The rest of a character in single quotes. -/
def character : Scan Char
  | '\\' :: cs => do
    match ← escape cs with
    | (c, '\'' :: cs) => return (c, cs)
    | _ => none
  | '\'' :: _ => none
  | c :: '\'' :: cs => some (c, cs)
  | _ => none

/-- A text in quotes of any kind. -/
def quoted (cs : List Char) : Option (List Char × List Char) :=
  match cs with
  | '"' :: cs => text (cs.length + 1) cs
  | 'r' :: cs =>
    let marks := cs.takeWhile (· == '#')
    match cs.dropWhile (· == '#') with
    | '"' :: cs => rawText ('"' :: marks) cs
    | _ => none
  | _ => none

/-! ## Numbers -/

def isDigitOrUnderscore (c : Char) : Bool := Hexadecimal.isDigit c || c == '_'

def isRealChar (c : Char) : Bool :=
  RealNumeral.isDigit c || c == 'e' || c == 'E' || c == '.' || c == '+' || c == '-' || c == '_'

/-- Whether a number has characters that only real numbers have. -/
def isReal (cs : List Char) : Bool :=
  let cs := match cs with
    | '+' :: cs | '-' :: cs => cs
    | cs => cs
  (cs.takeWhile isDigitOrUnderscore).length < (cs.takeWhile isRealChar).length

/-- A whole number without a sign.  Underscores between its digits do not count. -/
def magnitude (cs : List Char) : Option (Nat × List Char) :=
  let (base, cs) := match cs with
    | '0' :: 'x' :: cs => (16, cs)
    | '0' :: 'b' :: cs => (2, cs)
    | '0' :: 'o' :: cs => (8, cs)
    | cs => (10, cs)
  match cs.takeWhile isDigitOrUnderscore with
  | [] => none
  | '_' :: _ => none
  | ds =>
    (Hexadecimal.valueIn base (ds.filter (· != '_'))).map (·, cs.dropWhile isDigitOrUnderscore)

/-- A whole number.  Without a sign, one that is too large for 63 bits, but not for 64, is real. -/
def whole (cs : List Char) : Option (Setting × List Char) :=
  match cs with
  | '+' :: cs => do
    let (n, cs) ← magnitude cs
    if n ≤ 0x7FFFFFFFFFFFFFFF then return (.whole n, cs) else none
  | '-' :: cs => do
    let (n, cs) ← magnitude cs
    if n ≤ 0x8000000000000000 then return (.whole (-n), cs) else none
  | cs => do
    let (n, cs) ← magnitude cs
    if n ≤ 0x7FFFFFFFFFFFFFFF then return (.whole n, cs)
    else if n ≤ Json.largest then return (.real (Float.ofNat n), cs)
    else none

/-- A real number. -/
def real (cs : List Char) : Option (Setting × List Char) :=
  (RealNumeral.read (cs.takeWhile isRealChar)).map (.real ·, cs.dropWhile isRealChar)

/-- A number.  What is no whole one, or is too large for one, may still be real: an exponent without
a point looks like a digit at first. -/
def number (cs : List Char) : Option (Setting × List Char) :=
  if isReal cs then real cs else (whole cs) <|> (real cs)

/-! ## Values -/

/-- How many levels a document may have; a value in parentheses or brackets takes one, and its
items are on the next one. -/
def levels : Nat := 128

mutual

/-- A value.  `depth` is the number of levels that are left. -/
def value : (fuel depth : Nat) → Scan Setting
  | 0, _, _ => none
  | fuel + 1, depth, cs =>
    match word? "true" cs, word? "false" cs, word? "Some" cs, word? "None" cs with
    | some cs, _, _, _ => some (.flag true, cs)
    | _, some cs, _, _ => some (.flag false, cs)
    | _, _, some cs, _ => optional fuel depth cs
    | _, _, _, some cs => some (.absent, cs)
    | _, _, _, _ =>
      match word? "inf" cs, word? "-inf" cs, word? "NaN" cs, name cs with
      | some cs, _, _, _ => some (.real (1 / 0), cs)
      | _, some cs, _, _ => some (.real (-(1 / 0)), cs)
      | _, _, some cs, _ => some (.real (0 / 0), cs)
      | _, _, _, some (_, cs) => do
        match ← next cs with
        | '(' :: cs => inside fuel depth cs
        | cs => return (.absent, cs)
      | _, _, _, _ => plain fuel depth cs

/-- A value that does not begin with a name. -/
def plain : (fuel depth : Nat) → Scan Setting
  | 0, _, _ => none
  | _ + 1, _, '(' :: ')' :: cs => some (.absent, cs)
  | fuel + 1, depth, '(' :: cs => inside fuel depth cs
  | fuel + 1, depth + 1, '[' :: cs => do
    let (xs, cs) ← items fuel depth ']' cs
    return (.list xs, cs)
  | fuel + 1, depth + 1, '\x7b' :: cs => do
    let (es, cs) ← pairs fuel depth '\x7d' [] cs
    return (.table es, cs)
  | _ + 1, _, '\'' :: cs => (character cs).map fun (c, cs) => (.text (String.ofList [c]), cs)
  | _ + 1, _, c :: cs =>
    if c = '"' ∨ c = 'r' then (quoted (c :: cs)).map fun (s, cs) => (.text (String.ofList s), cs)
    else if RealNumeral.isDigit c ∨ ['+', '-', '.'].contains c then number (c :: cs)
    else none
  | _ + 1, _, [] => none

/-- The value behind `Some`. -/
def optional : (fuel depth : Nat) → Scan Setting
  | 0, _, _ => none
  | _, 0, _ => none
  | fuel + 1, depth + 1, cs => do
    match ← next cs with
    | '(' :: cs =>
      let (s, cs) ← value fuel depth (← next cs)
      match ← next cs with
      | ')' :: cs => return (s, cs)
      | ',' :: cs =>
        match ← next cs with
        | ')' :: cs => return (s, cs)
        | _ => none
      | _ => none
    | _ => none

/-- A tuple or the fields of a structure, behind the parenthesis. -/
def inside : (fuel depth : Nat) → Scan Setting
  | 0, _, _ => none
  | _, 0, _ => none
  | fuel + 1, depth + 1, cs => do
    let cs ← next cs
    if ← isTuple cs then
      let (xs, cs) ← items fuel depth ')' cs
      return (.list xs, cs)
    else
      let (es, cs) ← pairs fuel depth ')' [] cs
      return (.table es, cs)

/-- The items of a list, up to its end. -/
def items : (fuel depth : Nat) → (stop : Char) → Scan (List Setting)
  | 0, _, _, _ => none
  | fuel + 1, depth, stop, cs => do
    match depth, ← next cs with
    | _, [] => none
    | depth, c :: cs =>
      if c = stop then return ([], cs)
      else if depth = 0 then none
      else
        let (x, cs) ← value fuel (depth - 1) (c :: cs)
        match ← next cs with
        | ',' :: cs =>
          let (xs, cs) ← items fuel depth stop cs
          return (x :: xs, cs)
        | c :: cs => if c = stop then return ([x], cs) else none
        | [] => none

/-- The entries of a table, up to its end, after those that it has already.  Their names are bare
in parentheses, and texts in braces. -/
def pairs : (fuel depth : Nat) → (stop : Char) → List (String × Setting) →
    Scan (List (String × Setting))
  | 0, _, _, _, _ => none
  | fuel + 1, depth, stop, es, cs => do
    match ← next cs with
    | [] => none
    | c :: cs =>
      if c = stop then return (es, cs)
      else if depth = 0 then none
      else
        let (key, cs) ←
          if stop = ')' then
            (name (c :: cs)).map fun (word, cs) => (Setting.text (String.ofList word), cs)
          else value fuel (depth - 1) (c :: cs)
        match key, ← next cs with
        | .text key, ':' :: cs =>
          let (x, cs) ← value fuel (depth - 1) (← next cs)
          let es := Setting.put key x es
          match ← next cs with
          | ',' :: cs => pairs fuel depth stop es cs
          | c :: cs => if c = stop then return (es, cs) else none
          | [] => none
        | _, _ => none

end

/-! ## Documents -/

/-- The names of extensions, up to the closing parenthesis. -/
def extensions : (fuel : Nat) → List Char → Option (List Char)
  | 0, _ => none
  | fuel + 1, cs => do
    let (word, cs) ← name cs
    let known := ["unwrap_newtypes", "implicit_some", "unwrap_variant_newtypes"]
    if !known.contains (String.ofList word) then none
    else match ← next cs with
      | ')' :: cs => return cs
      | ',' :: cs =>
        match ← next cs with
        | ')' :: cs => return cs
        | cs => extensions fuel cs
      | _ => none

/-- What follows a part of a text, and what may stand behind it. -/
def behind (part : String) (cs : List Char) : Option (List Char) :=
  if part.toList.isPrefixOf cs then next (cs.drop part.length) else none

/-- What follows the extensions that a document asks for; none of them matters here. -/
def attributes : (fuel : Nat) → List Char → Option (List Char)
  | 0, _ => none
  | fuel + 1, cs =>
    match cs with
    | '#' :: _ => do
      let cs ← behind "(" (← behind "enable" (← behind "[" (← behind "!" (← behind "#" cs))))
      let cs ← behind "]" (← next (← extensions (cs.length + 1) cs))
      attributes fuel cs
    | cs => some cs

/-- Reads a document. -/
def read (cs : List Char) : Option Setting := do
  let cs ← attributes (cs.length + 1) (← next cs)
  let (s, rest) ← value (4 * cs.length + 8) levels cs
  if (← next rest).isEmpty then return s else none

end Ron

end GroupOffsets
