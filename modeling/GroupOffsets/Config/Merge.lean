import GroupOffsets.Config.Lenient
import GroupOffsets.Config.Path

/-!
# Merging settings

How the entries of a file become the settings of a program.  Every entry is put where its name
leads, as a path; tables are merged into the tables that are there, and all names are taken in small
letters.
-/

namespace GroupOffsets

namespace Setting

/-- The entries of a table; anything else has none. -/
def entries : Setting → List (String × Setting)
  | .table es => es
  | _ => []

/-- The items of a list; anything else has none. -/
def items : Setting → List Setting
  | .list xs => xs
  | _ => []

/-- Changes the value under a name, or makes one. -/
def alter (name : String) (f : Option Setting → Setting) :
    List (String × Setting) → List (String × Setting)
  | [] => [(name, f none)]
  | e :: es => if e.1 = name then (name, f (some e.2)) :: es else e :: alter name f es

mutual

/-- Puts a value under a name.  A table is merged into the one that is there; any other value takes
the place of what was there. -/
def merge (name : String) (value root : Setting) : Setting :=
  .table (alter (lowerCase name) (fun old =>
    match value with
    | .table es => mergeAll es (old.getD (.table []))
    | value => value) root.entries)

/-- Puts values under their names. -/
def mergeAll (es : List (String × Setting)) (root : Setting) : Setting :=
  match es with
  | [] => root
  | (name, value) :: es => mergeAll es (merge name value root)

end

/-- The number of items from which on there is no room for a list. -/
def longestList : Nat := 0x1000000

/-- Which item of a list of some length is meant; `none` if there can be no such item. -/
def position (index : Int) (length : Nat) : Option Nat :=
  let n := if index < 0 then index + length else index
  if n < 0 ∨ longestList ≤ n then none else some n.toNat

/-- A list that has at least so many items. -/
def padded (xs : List Setting) (length : Nat) : List Setting :=
  xs ++ List.replicate (length - xs.length) absent

/-- Puts a value where a path leads, making what is missing on the way; `none` if there can be no
item that the path asks for. -/
def putAt (value : Setting) : List Step → String → Setting → Option Setting
  | [], name, root => some (merge name value root)
  | .child next :: steps, name, root => do
    let name := lowerCase name
    let inner ← putAt value steps next ((root.entries.lookup name).getD .absent)
    return .table (put name inner root.entries)
  | .item n :: steps, name, root => do
    let name := lowerCase name
    let inner ← putIn value steps n ((root.entries.lookup name).getD .absent).items
    return .table (put name (.list inner) root.entries)
where
  /-- The same inside a list, which is made as long as needed. -/
  putIn (value : Setting) : List Step → Int → List Setting → Option (List Setting)
    | [], n, xs => do
      let n ← position n xs.length
      return (padded xs (n + 1)).set n value
    | .child next :: steps, n, xs => do
      let n ← position n xs.length
      let xs := padded xs (n + 1)
      return xs.set n (← putAt value steps next (xs.getD n .absent))
    | .item m :: steps, n, xs => do
      let n ← position n xs.length
      let xs := padded xs (n + 1)
      return xs.set n (.list (← putIn value steps m (xs.getD n .absent).items))

/-- The settings that the entries of a file make; `none` if they make the program break down. -/
def ofEntries (es : List (String × Setting)) : Option Setting :=
  es.foldlM (fun root e => putAt e.2 (Step.path e.1).2 (Step.path e.1).1 root) (.table [])

end Setting

end GroupOffsets
