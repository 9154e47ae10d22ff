import LocalizedKeys.Source.Cursor
import LocalizedKeys.Text.Letter

/-!
# Names

A name is a letter or underscore followed by letters, numbers and underscores, plain or between
backticks. The backticks stay part of the name as written; its bare form is without them.
Qualified names are names joined by dots, with nothing in between.
-/

namespace LocalizedKeys.Swift

open Text

/-- May begin a name. -/
def isNameStart (c : Char) : Bool := isLetter c || c == '_'

/-- May continue a name. -/
def isNamePart (c : Char) : Bool := isLetter c || isNumber c || c == '_'

/-- Stands on both sides of an escaped name. -/
def backtick : Char := '\x60'

/-- The length of the plain name at the front. -/
def plainNameLength? : List Char → Option Nat
  | [] => none
  | c :: rest => if isNameStart c then some ((rest.takeWhile isNamePart).length + 1) else none

/-- The length of the name at the front, backticks included. -/
def nameLength? : List Char → Option Nat
  | [] => none
  | c :: rest =>
    if c = backtick then
      match plainNameLength? rest with
      | some n => if (rest.drop n).head? = some backtick then some (n + 2) else none
      | none => none
    else plainNameLength? (c :: rest)

/-- The name at a cursor, and the place after it. -/
def readName? (c : Cursor) : Option (String × Cursor) :=
  (nameLength? c.rest).map fun n => (String.ofList (c.rest.take n), c.advance n)

theorem plainNameLength?_pos {cs : List Char} {n : Nat} (h : plainNameLength? cs = some n) :
    0 < n ∧ n ≤ cs.length := by
  cases cs with
  | nil => simp [plainNameLength?] at h
  | cons c rest =>
    simp only [plainNameLength?, Option.ite_none_right_eq_some, Option.some.injEq] at h
    have := (List.takeWhile_prefix isNamePart (l := rest)).length_le
    simp only [List.length_cons]
    omega

theorem nameLength?_pos {cs : List Char} {n : Nat} (h : nameLength? cs = some n) :
    0 < n ∧ n ≤ cs.length := by
  cases cs with
  | nil => simp [nameLength?] at h
  | cons c rest =>
    rw [nameLength?] at h
    by_cases hc : c = backtick
    · rw [if_pos hc] at h
      split at h
      · rename_i m hm
        have := plainNameLength?_pos hm
        split at h
        · rename_i hclose
          have hlt : m < rest.length := by
            rcases Nat.lt_or_ge m rest.length with hlt | hge
            · exact hlt
            · simp [List.drop_eq_nil_of_le hge] at hclose
          obtain rfl := Option.some.inj h
          simp only [List.length_cons]
          omega
        · simp at h
      · simp at h
    · rw [if_neg hc] at h
      exact plainNameLength?_pos h

theorem readName?_shorter {c c' : Cursor} {name : String} (h : readName? c = some (name, c')) :
    c'.rest.length < c.rest.length := by
  obtain ⟨n, hn, heq⟩ := Option.map_eq_some_iff.1 h
  obtain ⟨-, rfl⟩ := Prod.mk.inj heq
  have := nameLength?_pos hn
  rw [Cursor.length_advance]
  omega

/-- The parts of a qualified name after the first: each is a dot and a name. -/
def qualifiedTailLength (cs : List Char) : Nat :=
  match cs with
  | '.' :: rest =>
    match h : nameLength? rest with
    | some n => n + 1 + qualifiedTailLength (rest.drop n)
    | none => 0
  | _ => 0
termination_by cs.length
decreasing_by
  simp only [List.length_drop, List.length_cons]
  omega

/-- The qualified name at a cursor, and the place after it. -/
def readQualifiedName? (c : Cursor) : Option (String × Cursor) :=
  (nameLength? c.rest).map fun n =>
    let length := n + qualifiedTailLength (c.rest.drop n)
    (String.ofList (c.rest.take length), c.advance length)

theorem readQualifiedName?_shorter {c c' : Cursor} {name : String}
    (h : readQualifiedName? c = some (name, c')) : c'.rest.length < c.rest.length := by
  obtain ⟨n, hn, heq⟩ := Option.map_eq_some_iff.1 h
  obtain ⟨-, rfl⟩ := Prod.mk.inj heq
  have := nameLength?_pos hn
  rw [Cursor.length_advance]
  omega

/-- A name without the backticks around it. -/
def bareName (name : String) : String :=
  let cs := name.toList
  if 2 < cs.length ∧ cs.head? = some backtick ∧ cs.getLast? = some backtick then
    String.ofList cs.tail.dropLast
  else name

end LocalizedKeys.Swift
