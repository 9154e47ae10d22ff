/-!
# Edits

An edit replaces a range of a text. Edits are applied all at once, in the order of their
ranges; an edit may not start before the end of the one before it, but may touch it.

Ranges are given by offsets. An offset below zero counts from the end of the text, and one
beyond the end means the end; which edit comes first is decided by the numbers alone.
-/

namespace LocalizedKeys

/-- How many characters lie before an offset. -/
def offsetIn (text : List Char) (n : Int) : Nat :=
  if n < 0 then (text.length + n).toNat else n.toNat

@[simp] theorem offsetIn_natCast (text : List Char) (n : Nat) : offsetIn text n = n := by
  simp [offsetIn, Int.not_lt.2 (Int.natCast_nonneg n)]

/-- The characters between two offsets. -/
def slice (text : List Char) (start stop : Int) : List Char :=
  (text.take (offsetIn text stop)).drop (offsetIn text start)

theorem slice_natCast (text : List Char) (start stop : Nat) :
    slice text start stop = (text.take stop).drop start := by
  simp [slice]

/-- A replacement for the characters from `start` to `stop`. -/
structure Edit where
  start : Int
  stop : Int
  replacement : List Char
deriving DecidableEq, Repr

/-- Two edits overlap: one starts at `start`, before the other has ended. An edit that starts
below zero overlaps what lies before the text. -/
structure Overlap where
  start : Int
deriving DecidableEq, Repr

/-- What is reported about overlapping edits. -/
def Overlap.message (o : Overlap) : String := s!"Overlapping edits at offset {o.start}"

namespace Edit

/-- The order of edits: by where they start, then by where they end. -/
def precedes (a b : Edit) : Bool :=
  decide (a.start < b.start ∨ (a.start = b.start ∧ a.stop ≤ b.stop))

/-- The text from offset `pos` on with sorted edits applied. -/
def applyFrom (text : List Char) (pos : Int) : List Edit → Except Overlap (List Char)
  | [] => .ok (text.drop (offsetIn text pos))
  | edit :: rest =>
    if edit.start < pos then .error ⟨edit.start⟩
    else
      match applyFrom text edit.stop rest with
      | .error o => .error o
      | .ok tail => .ok (slice text pos edit.start ++ edit.replacement ++ tail)

end Edit

/-- The text with edits applied; of two with the same range the earlier one in the list comes
first. -/
def applyEdits (text : List Char) (edits : List Edit) : Except Overlap (List Char) :=
  Edit.applyFrom text 0 (edits.mergeSort Edit.precedes)

end LocalizedKeys
