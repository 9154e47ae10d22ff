/-!
# Ranges of characters

A class of characters as an increasing list of closed ranges of code points. Looking a code
point up stops at the first range that begins beyond it.
-/

namespace LocalizedKeys.Text

/-- Closed ranges of code points in increasing order. -/
abbrev Ranges := List (Nat × Nat)

namespace Ranges

/-- The range that holds a code point. -/
def find? (n : Nat) : Ranges → Option (Nat × Nat)
  | [] => none
  | range :: rest =>
    if n < range.1 then none
    else if n ≤ range.2 then some range
    else find? n rest

/-- Whether some range holds the code point. -/
def contains (ranges : Ranges) (n : Nat) : Bool := (find? n ranges).isSome

end Ranges

end LocalizedKeys.Text
