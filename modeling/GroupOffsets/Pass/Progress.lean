/-!
# Passes

A pass goes over the table and asks for one partition after the other.  It is written as a machine
that stops whenever it asks: what it has done so far is its state, and it goes on when it is given
the answer.  Anything may happen between the two.
-/

namespace GroupOffsets

/-- How far a pass has come: it asks for something and waits in state `σ`, or it is done. -/
inductive Progress (σ α : Type) where
  | asks (s : σ)
  | done (a : α)
  deriving DecidableEq, Repr

end GroupOffsets
