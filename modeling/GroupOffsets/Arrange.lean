import GroupOffsets.Key

/-!
# Orders of visiting

The passes over the table visit its entries in no particular order.  Such an order is chosen by a
list of numbers: each picks the next of the elements that are left.  The empty list leaves the
elements as they are, and whatever the numbers, every element is visited once.

The partitions of an entry are a map of their own, which is visited in an order of its own: an
`Itinerary` has picks for the entries and, apart from them, picks for what is in each entry.
-/

namespace GroupOffsets

/-- The elements of a list in the order that `picks` chooses. -/
def arrange {α : Type} : (picks : List Nat) → List α → List α
  | [], xs => xs
  | n :: picks, xs =>
    match xs[n % xs.length]? with
    | some x => x :: arrange picks (xs.eraseIdx (n % xs.length))
    | none => []

/-- The order in which a pass visits entries, and the order in which it visits each entry's
partitions. -/
structure Itinerary where
  entries : List Nat
  partitions : GroupTopic → List Nat

/-- Everything in its natural order. -/
def Itinerary.plain : Itinerary := ⟨[], fun _ => []⟩

end GroupOffsets
