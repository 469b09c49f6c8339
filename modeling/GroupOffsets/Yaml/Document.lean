import GroupOffsets.Yaml.Scalar

/-!
# YAML documents

A node may be written in the lines of a block, where indentation says what belongs together, or in
brackets.  Every reader of nodes in a block is told how far the block around it is indented: what is
indented no further does not belong to the node.
-/

namespace GroupOffsets

namespace Yaml

/-! ## Properties -/

/-- What is said about a node before it comes. -/
structure Properties where
  anchor : Option String
  tag : Option Tag
  deriving DecidableEq, Repr

namespace Properties

def none : Properties := ⟨.none, .none⟩

def isNone (p : Properties) : Bool := p.anchor.isNone && p.tag.isNone

end Properties

/-- The characters up to the next gap, or the next character that ends a scalar in brackets. -/
def word (cs : List Char) : List Char := cs.takeWhile fun c => !isBlank c && !isBreak c && !isFlow c

/-- The kind that a tag says. -/
def tagOf (w : List Char) : Tag :=
  match w with
  | '!' :: kind => .core (String.ofList kind)
  | _ => .other

/-- The properties of a node, as far as they are on one line. -/
def properties : (fuel : Nat) → Properties → Scan Properties
  | 0, _, _ => none
  | fuel + 1, p, c =>
    match c.rest with
    | '&' :: cs =>
      let w := word cs
      if w.isEmpty ∨ p.anchor.isSome then none
      else
        let c := c.skip (w.length + 1)
        properties fuel { p with anchor := some (String.ofList w) } (c.skipBlanks)
    | '!' :: '<' :: cs =>
      let w := cs.takeWhile fun x => x != '>' && !isBlank x && !isBreak x
      if p.tag.isSome ∨ (cs.drop w.length).head? ≠ some '>' then none
      else properties fuel { p with tag := some .other } (c.skip (w.length + 3)).skipBlanks
    | '!' :: cs =>
      let w := word cs
      if p.tag.isSome then none
      else properties fuel { p with tag := some (tagOf w) } (c.skip (w.length + 1)).skipBlanks
    | _ => some (p, c)

/-- The properties that come next, if any do. -/
def propertiesOf (c : Cursor) : Option (Properties × Cursor) := properties 3 .none c

/-- Announces the name of a node that has begun. -/
def announce (p : Properties) (c : Cursor) : Cursor :=
  match p.anchor with
  | some a => { c with anchors := (a, .bad) :: c.anchors }
  | none => c

/-- Gives a node its name. -/
def named (p : Properties) (x : Node) (c : Cursor) : Node × Cursor :=
  match p.anchor with
  | some a => (x, { c with anchors := (a, x) :: c.anchors })
  | none => (x, c)

/-- The node that is not written. -/
def nothing (p : Properties) (c : Cursor) : Node × Cursor := named p (.ofScalar "~" p.tag) c

/-- The node with a name. -/
def reference : Scan Node := fun c =>
  let w := word c.rest
  match c.anchors.lookup (String.ofList w) with
  | some x => if w.isEmpty then none else some (x, c.skip w.length)
  | none => none

/-- Adds an entry to a table, which must not have one with the same name. -/
def enter (key x : Node) (es : List (Node × Node)) : Option (List (Node × Node)) :=
  if es.any fun e => e.1.isSame key then none else some (es ++ [(key, x)])

/-! ## In brackets -/

/-- The next content in brackets, indented by more than `indent`. -/
def flowNext (indent : Int) (c : Cursor) : Option Cursor :=
  let d := c.skipBlanks
  if d.rest.head? = some '#' ∧ d.column = c.column ∧ c.column ≠ 0 then none
  else
    match c.nextIn indent with
    | some e => if e.line ≠ c.line ∧ (e.isAtEnd ∨ (e.column : Int) ≤ indent) then none else some e
    | none => none

/-- Whether a colon comes next that divides a name from its value.  Behind a name in quotes or
brackets nothing has to be between the colon and the value. -/
def isAtColon (closed : Bool) (c : Cursor) : Bool :=
  match c.rest with
  | ':' :: cs => closed || isGap cs || cs.head?.any isFlow
  | _ => false

/-- Whether a node in brackets ends here. -/
def isAtStop (c : Cursor) : Bool :=
  match c.rest with
  | ',' :: _ | ']' :: _ | '\x7d' :: _ => true
  | _ => false

mutual

/-- A node that is not a block, behind its properties; also, whether it is in quotes or brackets. -/
def atom : (fuel : Nat) → (inFlow : Bool) → (indent : Int) → Properties → Cursor →
    Option (Node × Bool × Cursor)
  | 0, _, _, _, _ => none
  | fuel + 1, inFlow, indent, p, c =>
    match c.rest with
    | '[' :: _ => do
      let (xs, d) ← flowItems fuel indent [] (announce p c |>.skip 1)
      let (x, d) := named p (.list xs) d
      return (x, true, d)
    | '\x7b' :: _ => do
      let (es, d) ← flowPairs fuel indent [] (announce p c |>.skip 1)
      let (x, d) := named p (.table es) d
      return (x, true, d)
    | '"' :: _ => do
      let (cs, d) ← double indent c.rest.length (c.skip 1)
      let (x, d) := named p (.text (String.ofList cs)) d
      return (x, true, d)
    | '\'' :: _ => do
      let (cs, d) ← single indent c.rest.length (c.skip 1)
      let (x, d) := named p (.text (String.ofList cs)) d
      return (x, true, d)
    | '*' :: _ =>
      if p.isNone then do
        let (x, d) ← reference (c.skip 1)
        return (x, false, d)
      else none
    | _ => do
      let (s, d) ← plain inFlow indent c
      let (x, d) := named p (.ofScalar s p.tag) d
      return (x, false, d)

/-- A node in brackets. -/
def flowNode : (fuel : Nat) → (indent : Int) → Cursor → Option (Node × Bool × Cursor)
  | 0, _, _ => none
  | fuel + 1, indent, c => do
    let (p, c) ← propertiesOf c
    let c ← if p.isNone then some c else flowNext indent c
    if !p.isNone && (isAtStop c || isAtColon false c) then
      let (x, c) := nothing p c
      return (x, false, c)
    else atom fuel true indent p c

/-- The value behind a colon in brackets. -/
def flowValue : (fuel : Nat) → (indent : Int) → Scan Node
  | 0, _, _ => none
  | fuel + 1, indent, c => do
    let c ← flowNext indent c
    if isAtStop c then return (.null, c)
    else
      let (x, _, c) ← flowNode fuel indent c
      return (x, c)

/-- A name with its value in brackets; the value is missing if there is no colon. -/
def flowPair : (fuel : Nat) → (indent : Int) → Cursor → Option (Node × Option Node × Cursor)
  | 0, _, _ => none
  | fuel + 1, indent, c => do
    let marked := c.isAt '?'
    let c ← if marked then flowNext indent (c.skip 1) else some c
    let (key, closed, c) ←
      if isAtColon false c || (marked && isAtStop c) then some (Node.null, false, c)
      else flowNode fuel indent c
    let d ← flowNext indent c
    if isAtColon closed d then
      let (x, d) ← flowValue fuel indent (d.skip 1)
      return (key, some x, d)
    else return (key, if marked then some .null else none, d)

/-- The items of a list in brackets, up to its end, after those that it has already. -/
def flowItems : (fuel : Nat) → (indent : Int) → List Node → Scan (List Node)
  | 0, _, _, _ => none
  | fuel + 1, indent, xs, c => do
    let c ← flowNext indent c
    if c.rest.head? = some ']' then return (xs.reverse, c.skip 1)
    else
      let (key, x, c) ← flowPair fuel indent c
      let item := match x with
        | some x => Node.table [(key, x)]
        | none => key
      let c ← flowNext indent c
      match c.rest with
      | ',' :: _ => flowItems fuel indent (item :: xs) (c.skip 1)
      | ']' :: _ => return ((item :: xs).reverse, c.skip 1)
      | _ => none

/-- The entries of a table in brackets, up to its end, after those that it has already. -/
def flowPairs : (fuel : Nat) → (indent : Int) → List (Node × Node) → Scan (List (Node × Node))
  | 0, _, _, _ => none
  | fuel + 1, indent, es, c => do
    let c ← flowNext indent c
    if c.rest.head? = some '\x7d' then return (es, c.skip 1)
    else
      let (key, x, c) ← flowPair fuel indent c
      let es ← enter key (x.getD .null) es
      let c ← flowNext indent c
      match c.rest with
      | ',' :: _ => flowPairs fuel indent es (c.skip 1)
      | '\x7d' :: _ => return (es, c.skip 1)
      | _ => none

end

/-! ## In blocks -/

/-- The fuel that is enough for the rest of a document. -/
def fuelFor (c : Cursor) : Nat := 4 * c.rest.length + 8

/-- A name on one line and the colon behind it. -/
def implicitKey : Scan Node := fun c => do
  let (p, d) ← propertiesOf c
  let (key, _, d) ← atom (fuelFor d) false (-1) p d
  let e := d.skipBlanks
  if d.line = c.line ∧ e.isAt ':' then return (key, e.skip 1) else none

/-- A name on one line.  The part of a scalar on further lines does not belong to it. -/
def keyOnLine : Scan Node := fun c =>
  let line := c.rest.takeWhile (!isBreak ·)
  match implicitKey { c with rest := line } with
  | some (key, d) => some (key, { d with rest := d.rest ++ c.rest.drop line.length })
  | none => none

/-- Whether an entry of a table begins here. -/
def isAtEntry (c : Cursor) : Bool := c.isAt '?' || c.isAt ':' || (keyOnLine c).isSome

/-- A node on one line or several that is no list and no table in a block, and the end of its last
line. -/
def leaf (indent : Int) (p : Properties) (c : Cursor) : Option (Node × Cursor) :=
  let scalar (folds : Bool) : Option (Node × Cursor) := do
    let (s, d) ← block folds indent (c.skip 1)
    return named p (.text s) d
  match c.rest with
  | '|' :: _ => scalar false
  | '>' :: _ => scalar true
  | _ => do
    let (x, _, d) ← atom (fuelFor c) false indent p c
    return (x, ← d.endLine)

mutual

/-- A node behind an indicator: on the same line, where it may only be a list or a table in a block
if `compact` says so, or below.  A list may be indented as far as the block around it if `level`
says so. -/
def blockNode : (fuel : Nat) → (indent : Int) → (level compact : Bool) → Scan Node
  | 0, _, _, _, _ => none
  | fuel + 1, indent, level, compact, c => do
    let d := c.skipBlanks
    if d.isAtBreak ∨ d.rest.head? = some '#' then below fuel indent level .none d
    else if compact then blockContent fuel indent level .none d
    else if d.isAt '-' ∨ d.isAt '?' then none
    else
      let (p, e) ← propertiesOf d
      if !p.isNone ∧ (e.isAtBreak ∨ e.rest.head? = some '#') then
        below fuel indent level p e
      else leaf indent p e

/-- A node below its indicator; there is none if what comes next does not belong to it. -/
def below : (fuel : Nat) → (indent : Int) → (level : Bool) → Properties → Scan Node
  | 0, _, _, _, _ => none
  | fuel + 1, indent, level, p, c => do
    let d ← c.nextIn indent
    let column : Int := d.column
    if d.isAtEnd ∨ column < indent ∨ (column = indent ∧ !(level && d.isAt '-')) then
      return nothing p d
    else blockContent fuel indent level p d

/-- A node that may be a list or a table in a block, at the column where it is. -/
def blockContent : (fuel : Nat) → (indent : Int) → (level : Bool) → Properties → Scan Node
  | 0, _, _, _, _ => none
  | fuel + 1, indent, level, p, c => do
    if c.isAt '-' then
      let (xs, d) ← blockItems fuel c.column [] (announce p c)
      return named p (.list xs) d
    else if isAtEntry c then
      let (es, d) ← blockEntries fuel c.column [] (announce p c)
      return named p (.table es) d
    else
      let (q, d) ← propertiesOf c
      if q.isNone then leaf indent p c
      else if !p.isNone then none
      else if d.isAtBreak ∨ d.rest.head? = some '#' then below fuel indent level q d
      else leaf indent q d

/-- The items of a list at a column, after those that it has already. -/
def blockItems : (fuel : Nat) → (column : Nat) → List Node → Scan (List Node)
  | 0, _, _, _ => none
  | fuel + 1, column, xs, c => do
    let (x, c) ← blockNode fuel column false true (c.skip 1)
    let c ← c.nextIn column
    if c.isAtEnd ∨ c.column < column then return ((x :: xs).reverse, c)
    else if column < c.column then none
    else if c.isAt '-' then blockItems fuel column (x :: xs) c
    else return ((x :: xs).reverse, c)

/-- The entries of a table at a column, after those that it has already. -/
def blockEntries : (fuel : Nat) → (column : Nat) → List (Node × Node) → Scan (List (Node × Node))
  | 0, _, _, _ => none
  | fuel + 1, column, es, c => do
    let (key, x, c) ←
      if c.isAt '?' then do
        let (key, d) ← blockNode fuel column false true (c.skip 1)
        let d ← d.nextIn column
        if !d.isAtEnd ∧ d.column = column ∧ d.isAt ':' then
          let (x, e) ← blockNode fuel column false true (d.skip 1)
          some (key, x, e)
        else some (key, Node.null, d)
      else if c.isAt ':' then do
        let (x, d) ← blockNode fuel column true false (c.skip 1)
        some (Node.null, x, d)
      else do
        let (key, d) ← keyOnLine c
        let (x, d) ← blockNode fuel column true false d
        some (key, x, d)
    let es ← enter key x es
    let c ← c.nextIn column
    if c.isAtEnd ∨ c.column < column then return (es, c)
    else if column < c.column then none
    else blockEntries fuel column es c

end

/-! ## Documents -/

/-- All documents of a file.  `directed` says whether there are directives for the next one, which
then has to begin with a marker. -/
def documents : (fuel : Nat) → (directed : Bool) → Cursor → Option (List Node)
  | 0, _, _ => none
  | fuel + 1, directed, c =>
    let c := c.next
    if c.rest.isEmpty then if directed then none else some []
    else if c.column = 0 ∧ c.rest.head? = some '%' then documents fuel true c.skipLine
    else if c.isAtMarker '.' then do
      if directed then none else documents fuel false (← (c.skip 3).endLine)
    else if c.isAtMarker '-' then do
      let (x, d) ← blockNode (fuelFor c) (-1) false false (c.skip 3)
      return x :: (← rest fuel d)
    else if directed then none
    else do
      let (x, d) ← blockContent (fuelFor c) (-1) false .none c
      return x :: (← rest fuel d)
where
  /-- What follows a document. -/
  rest (fuel : Nat) (c : Cursor) : Option (List Node) :=
    if c.next.isAtEnd then documents fuel false { c.next with anchors := [] } else none

/-- Reads a file with at most one document; without one it is an empty table. -/
def read (cs : List Char) : Except Setting.Fault Setting :=
  match documents (cs.length + 1) false ⟨cs, 0, 0, []⟩ with
  | some [] => .ok (.table [])
  | some [x] => x.setting
  | some _ | none => .error .malformed

end Yaml

end GroupOffsets
