/-!
# Outlines

Structured values laid out over several lines: each field and each item stands on a line of its own,
four blanks further in than what holds it, and ends with a comma.
-/

namespace GroupOffsets

inductive Outline where
  | leaf (text : String)
  | record (name : String) (fields : List (String × Outline))
  | list (items : List Outline)

namespace Outline

/-- The blanks before a line. -/
def indent (depth : Nat) : String := String.ofList (List.replicate (4 * depth) ' ')

/-- What stands between brackets: lines, and the indentation of the closing one. -/
def block (depth : Nat) (lines : String) : String := "\n" ++ lines ++ indent depth

mutual

/-- An outline whose first line is indented already. -/
def render (depth : Nat) : Outline → String
  | leaf text => text
  | record name [] => name
  | record name fields => name ++ " \x7b" ++ block depth (renderFields (depth + 1) fields) ++ "\x7d"
  | list [] => "[]"
  | list items => "[" ++ block depth (renderItems (depth + 1) items) ++ "]"

def renderFields (depth : Nat) : List (String × Outline) → String
  | [] => ""
  | (name, value) :: fields =>
    indent depth ++ name ++ ": " ++ render depth value ++ ",\n" ++ renderFields depth fields

def renderItems (depth : Nat) : List Outline → String
  | [] => ""
  | item :: items => indent depth ++ render depth item ++ ",\n" ++ renderItems depth items

end

end Outline

end GroupOffsets
