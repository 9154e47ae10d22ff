import LocalizedKeys.Proofs.Carried

/-!
# Reading at another place, in front of another text

Where a text goes on with layout, with an attribute or with a closing brace, what is read in front
of that place stays the same if the text is cut there and something else follows on a new line:
`seaming` is the carrier for this. With nothing to be cut off it is `moving`: what is read from a
text depends neither on where the text stands nor on what is appended to it on a new line.
`Cursor.moved n t` is a cursor `n` characters further on, with `t` behind its text, and `t` is empty
or begins with a line end (`AtLineEnd`).
-/

namespace LocalizedKeys

namespace Cursor

/-- The cursor `n` characters further on, with `t` behind its text. -/
def moved (n : Nat) (t : List Char) (c : Cursor) : Cursor := ⟨c.pos + n, c.rest ++ t⟩

@[simp] theorem moved_pos {n : Nat} {t : List Char} {c : Cursor} : (c.moved n t).pos = c.pos + n :=
  rfl

@[simp] theorem moved_rest {n : Nat} {t : List Char} {c : Cursor} :
    (c.moved n t).rest = c.rest ++ t := rfl

/-- The cursor `n` characters further on, with `t` in the place of `r` at the end of its text. -/
def seamed (n : Nat) (r t : List Char) (c : Cursor) : Cursor :=
  ⟨c.pos + n, c.rest.take (c.rest.length - r.length) ++ t⟩

end Cursor

namespace Swift

open Text Cursor

variable {t : List Char}

/-! ## Names at a seam -/

theorem isNamePart_of_isSoft {ch : Char} (h : isSoft ch = true) : isNamePart ch = false := by
  simp only [isSoft, Bool.or_eq_true, beq_iff_eq] at h
  rcases h with (h | rfl) | rfl
  · exact isNamePart_of_isSpace (isSpace_of_isLayout h)
  · decide
  · decide

theorem plainNameLength?_append_soft (ht : SoftHead t) (cs : List Char) :
    plainNameLength? (cs ++ t) = plainNameLength? cs := by
  cases cs with
  | cons ch cs =>
    rw [List.cons_append, plainNameLength?, plainNameLength?,
      takeWhile_seam fun ch hch => isNamePart_of_isSoft (ht ch hch)]
  | nil =>
    cases t with
    | nil => rfl
    | cons d t =>
      have hstart : isNameStart d = false := by
        cases hd : isNameStart d with
        | false => rfl
        | true =>
          have := isNamePart_of_isSoft (ht d rfl)
          simp [isNamePart_of_isNameStart hd] at this
      simp [plainNameLength?, hstart]

/-- No name goes on over a seam. -/
theorem nameLength?_append_soft (ht : SoftHead t) (cs : List Char) :
    nameLength? (cs ++ t) = nameLength? cs := by
  have hbacktick : t.head? ≠ some backtick := fun h => absurd (ht _ h) (by decide)
  cases cs with
  | nil =>
    cases t with
    | nil => rfl
    | cons d t =>
      have hne : d ≠ backtick := fun h => hbacktick (by rw [h]; rfl)
      have hlength : nameLength? (d :: t) = plainNameLength? (d :: t) := by
        rw [nameLength?, if_neg hne]
      rw [List.nil_append, hlength]
      exact plainNameLength?_append_soft ht []
  | cons ch cs =>
    rw [List.cons_append, nameLength?, nameLength?, plainNameLength?_append_soft ht,
      ← List.cons_append, plainNameLength?_append_soft ht]
    split
    · cases hlength : plainNameLength? cs with
      | none => rfl
      | some k =>
        have hhead : (cs.drop k ++ t).head? = some backtick ↔
            (cs.drop k).head? = some backtick := by
          cases cs.drop k with
          | nil => simp [hbacktick]
          | cons d ds => rfl
        dsimp only
        rw [List.drop_append_of_le_length (plainNameLength?_pos hlength).2]
        simp only [hhead]
    · rfl

/-! ## Everything else -/

variable {r : List Char}

theorem seamed_pos (n : Nat) (r t : List Char) (c : Cursor) : (c.seamed n r t).pos = c.pos + n :=
  rfl

theorem seamed_rest {n : Nat} {c : Cursor} {u : List Char} (h : c.rest = u ++ r) :
    c.seamed n r t = ⟨c.pos + n, u ++ t⟩ := by
  rw [seamed, h, List.length_append, Nat.add_sub_cancel, List.take_left]

/-- Everything in front of something soft is read in front of a line end, `n` characters further
on. -/
def seaming (n : Nat) (hr : SoftHead r) (ht : AtLineEnd t) : Carrier where
  offset := n
  carry := seamed n r t
  Known c := ∃ u, c.rest = u ++ r
  AtSeam c := c.rest = r
  carry_pos := seamed_pos n r t
  known_of_reaches := by
    rintro c c' ⟨u, hu⟩ ⟨w, hmoves⟩
    exact ⟨w ++ u, by rw [hmoves.1, hu, List.append_assoc]⟩
  known_advance := by
    rintro c ch ⟨u, hu⟩ hnext _ hsoft
    cases u with
    | nil =>
      rw [Cursor.next?, hu] at hnext
      simp [hr ch hnext] at hsoft
    | cons d u => exact ⟨u, by rw [advance_rest, hu]; rfl⟩
  moves := by
    rintro c c' w hmoves ⟨u, hu⟩
    have hc : c.rest = (w ++ u) ++ r := by rw [hmoves.1, hu, List.append_assoc]
    rw [seamed_rest hc, seamed_rest hu]
    exact ⟨List.append_assoc .., by rw [hmoves.2]; exact Nat.add_right_comm ..⟩
  seam_last := by
    rintro c c' hseam ⟨u, hu⟩
    rw [hseam, hu, List.length_append]
    exact Nat.le_add_left ..
  seam_soft {c ch} hseam hnext := by
    rw [Cursor.next?, hseam] at hnext
    exact hr ch hnext
  atLineEnd {c} hseam := by
    rw [seamed_rest (u := []) hseam]
    exact ht
  cons := by
    rintro c ⟨u, hu⟩ hseam
    rw [seamed_rest hu]
    cases u with
    | nil => exact absurd hu hseam
    | cons ch u => exact ⟨ch, _, _, hu, rfl, sameNext_append hr ht.softHead u⟩
  sameName := by
    rintro c ⟨u, hu⟩
    rw [seamed_rest hu, readName?, readName?, Option.map_map, Option.map_map, hu,
      nameLength?_append_soft hr, nameLength?_append_soft ht.softHead]
    cases hn : nameLength? u with
    | none => rfl
    | some k =>
      have hk := (nameLength?_pos hn).2
      simp only [Option.map_some, Function.comp, List.take_append_of_le_length hk]
  passes := by
    rintro fs fs' w k c hpasses ⟨u, hu⟩
    rw [seamed_rest hu]
    rw [hu] at hpasses
    exact hpasses.seam (.inr ⟨hr.firm.quiet, ht.softHead.firm⟩) (.inr (.inr fun _ => ht))

/-- Everything is read in front of a line end, `n` characters further on. -/
def moving (n : Nat) (ht : AtLineEnd t) : Carrier := seaming n atLineEnd_nil.softHead ht

theorem known_moving {n : Nat} {ht : AtLineEnd t} (c : Cursor) : (moving n ht).Known c :=
  ⟨c.rest, (List.append_nil _).symm⟩

@[simp] theorem moving_carry (n : Nat) (ht : AtLineEnd t) (c : Cursor) :
    (moving n ht).carry c = c.moved n t := seamed_rest (List.append_nil _).symm

theorem inside_moving {n : Nat} {ht : AtLineEnd t} {c : Cursor} :
    (moving n ht).Inside c ↔ (c.rest = [] → t = []) := by
  refine ⟨fun h hnil => ?_, fun h => ⟨known_moving c, fun hseam => ?_⟩⟩
  · simpa [hnil] using h.2 hnil
  · have hnil : c.rest = [] := hseam
    simp [hnil, h hnil]

theorem advance_one_moved {n : Nat} {c : Cursor} {ch : Char} (h : c.next? = some ch) :
    (c.moved n []).advance 1 = (c.advance 1).moved n [] := by
  simpa using (moving n atLineEnd_nil).advance_one h (known_moving _)

/-- What is read from a text is read from it at another place and in front of more text. -/
theorem Reads.moved {limit : Int} {levels : Nat} {closing : Option Char} {c c' : Cursor}
    {ds : List Declaration} (h : Reads limit levels closing c ds c') (n : Nat) (ht : AtLineEnd t)
    (hin : c'.rest = [] → t = []) :
    Reads limit levels closing (c.moved n t) (movedAll n ds) (c'.moved n t) := by
  have hnext : ((moving n ht).carry c').next? = c'.next? := by
    by_cases hend : c'.rest = []
    · simp [Cursor.next?, hend, hin hend]
    · exact (moving n ht).next? (known_moving _) hend
  have hcarried := h.carried (moving n ht) (inside_moving.2 hin) hnext
  rw [moving_carry, moving_carry] at hcarried
  exact hcarried

end Swift

end LocalizedKeys
