/-!
# Files

The directory that a program runs in, with the files in it, and where paths lead from there.  A path
leads from name to name; every name but the last one has to be of a directory that exists.

Of what is outside of the directory only little is known: the directories above it and the root
exist, and so do a directory for temporary files and a file that is always empty.
-/

namespace GroupOffsets

namespace Files

/-- Where a path starts. -/
inductive Origin where
  /-- The directory of the program, or one that is so many levels above it. -/
  | above (levels : Nat)
  | root
  deriving DecidableEq, Repr

/-- A place where a file or a directory may be: the names that lead to it. -/
structure Place where
  origin : Origin
  names : List String
  deriving DecidableEq, Repr

namespace Place

/-- The directory of the program. -/
def here : Place := ⟨.above 0, []⟩

/-- The directory that a place is in. -/
def up : Place → Place
  | ⟨.above n, []⟩ => ⟨.above (n + 1), []⟩
  | ⟨.root, []⟩ => ⟨.root, []⟩
  | ⟨origin, names⟩ => ⟨origin, names.dropLast⟩

/-- The place with a name in a directory. -/
def child (p : Place) (name : String) : Place := ⟨p.origin, p.names ++ [name]⟩

/-- Whether a place is another one, or in it. -/
def isWithin (p dir : Place) : Bool := p.origin == dir.origin && dir.names.isPrefixOf p.names

end Place

/-! ## Paths -/

/-- The pieces of a text between slashes. -/
def pieces : List Char → List (List Char)
  | [] => [[]]
  | c :: cs =>
    match pieces cs with
    | piece :: rest => if c = '/' then [] :: piece :: rest else (c :: piece) :: rest
    | [] => [[c]]

/-- The pieces of a path between slashes. -/
def components (path : String) : List String := (pieces path.toList).map String.ofList

/-- Whether a component of a path is the name of something: an empty one and a single dot stay where
they are, and two dots go up. -/
def isName (component : String) : Bool := !(["", ".", ".."].contains component)

/-- The longest name, in bytes. -/
def longestName : Nat := 255

/-- The longest path, in bytes. -/
def longestPath : Nat := 4095

/-- Whether a text can be a path. -/
def isPath (s : String) : Bool :=
  !s.isEmpty && s.utf8ByteSize ≤ longestPath && !s.toList.contains '\x00'

/-- What stands behind the last dot of a name, unless that is its first character. -/
def extension (name : String) : Option String :=
  match name.toList.reverse.takeWhile (· != '.'), name.toList.reverse.dropWhile (· != '.') with
  | rest, _ :: _ :: _ => some (String.ofList rest.reverse)
  | _, _ => none

/-- A path up to its last name, and that name: what follows it may only be slashes and single
dots. -/
def upToName (path : String) : Option (String × String) :=
  match ((components path).reverse.dropWhile fun c => c == "" || c == ".") with
  | name :: before =>
    if isName name then some ("/".intercalate (name :: before).reverse, name) else none
  | [] => none

end Files

structure Files where
  contents : List (Files.Place × List UInt8)
  /-- Directories that need not have anything in them. -/
  directories : List Files.Place

namespace Files

/-- What there is in any case. -/
def standard : Files := ⟨[(⟨.root, ["dev", "null"]⟩, [])], [⟨.root, ["tmp"]⟩]⟩

/-- The files of the directory, by path. -/
def ofList (files : List (String × List UInt8)) : Files :=
  { standard with
    contents := files.map (fun f => (⟨.above 0, (components f.1).filter isName⟩, f.2))
      ++ standard.contents }

variable (f : Files)

def isDirectoryAt (p : Place) : Bool :=
  p.names.isEmpty || f.directories.any (·.isWithin p)
    || f.contents.any fun e => e.1.isWithin p && e.1 != p

/-- Goes from name to name; `none` if it cannot be gone on. -/
def walk : Place → List String → Option Place
  | p, [] => some p
  | p, name :: rest =>
    if !f.isDirectoryAt p then none
    else if name = ".." then walk p.up rest
    else if !isName name then walk p rest
    else if longestName < name.utf8ByteSize then none
    else walk (p.child name) rest

/-- The place that a path leads to, if everything on the way exists. -/
def place? (path : String) : Option Place :=
  if !isPath path then none
  else match components path with
    | "" :: names => f.walk ⟨.root, []⟩ names
    | names => f.walk .here names

/-- The file with a path. -/
def content? (path : String) : Option (List UInt8) :=
  (f.place? path).bind fun p => f.contents.lookup p

/-- Whether there is a directory with a path. -/
def isDirectory (path : String) : Bool := (f.place? path).any f.isDirectoryAt

/-- The files after one is written, if it can be. -/
def write (path : String) (content : List UInt8) : Option Files :=
  (f.place? path).bind fun p =>
    if f.isDirectoryAt p then none
    else some { f with contents := (p, content) :: f.contents.filter (·.1 != p) }

/-- The files after a directory is made, which may be there already; nothing if a file is in its
place. -/
def makeDirectory (path : String) : Option Files :=
  (f.place? path).bind fun p =>
    if (f.contents.lookup p).isSome then none
    else some { f with directories := p :: f.directories }

end Files

end GroupOffsets
