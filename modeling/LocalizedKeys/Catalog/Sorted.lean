/-!
# Sorted tables

A table from texts to values, as a list of pairs in the order of the texts. Putting a value
keeps the order and takes the place of an earlier value.
-/

namespace LocalizedKeys.Catalog

/-- A list of pairs, meant to be in increasing order of their first parts. -/
abbrev Sorted (α : Type) := List (String × α)

namespace Sorted

variable {α : Type}

/-- The value at a key. -/
def get? (key : String) : Sorted α → Option α
  | [] => none
  | (k, value) :: rest => if k = key then some value else get? key rest

/-- Puts a value at a key. -/
def put (key : String) (value : α) : Sorted α → Sorted α
  | [] => [(key, value)]
  | (k, old) :: rest =>
    if k = key then (key, value) :: rest
    else if k < key then (k, old) :: put key value rest
    else (key, value) :: (k, old) :: rest

theorem get?_append (key : String) (xs ys : Sorted α) :
    get? key (xs ++ ys) = (get? key xs).or (get? key ys) := by
  induction xs with
  | nil => rfl
  | cons pair rest ih =>
    rw [List.cons_append, get?, get?, ih]
    split <;> rfl

theorem get?_put_self (key : String) (value : α) (table : Sorted α) :
    get? key (put key value table) = some value := by
  induction table with
  | nil => simp [put, get?]
  | cons pair rest ih =>
    unfold put
    split
    · simp [get?]
    · rename_i hne
      split
      · simp [get?, hne, ih]
      · simp [get?]

theorem get?_put_of_ne {key other : String} (h : other ≠ key) (value : α) (table : Sorted α) :
    get? other (put key value table) = get? other table := by
  induction table with
  | nil => simp [put, get?, h.symm]
  | cons pair rest ih =>
    unfold put
    split
    · rename_i heq
      simp [get?, heq, h.symm]
    · split
      · simp [get?, ih]
      · simp [get?, h.symm]

end Sorted

end LocalizedKeys.Catalog
