import LocalizedKeys.Source.Location

/-!
# Line tables

The table of a text finds the lines and columns that counting line feeds gives. The entry for a line
is where it starts (`starts_getElem?`), the entries go up, and halving the range comes down to the
last entry that is not beyond the place (`search_spec`).

A line break between two texts starts the lines of the second one anew: a place in the second text
has the column it has there, and a line that many further on.

`IsPlace` tells the line and column of an offset by the line feeds in front of it, and places come
in the order of their offsets (`lineColumn_lt`). `locate_places` says both of what the table finds.
-/

namespace LocalizedKeys

/-! ## Where lines start -/

/-- How many characters lie between the start of the line of a place and the place. -/
theorem sub_lineStart {text : List Char} {pos : Nat} (h : pos ≤ text.length) :
    pos - lineStart text pos = ((text.take pos).reverse.takeWhile (· != '\n')).length := by
  have hle := (List.takeWhile_prefix (· != '\n') (l := (text.take pos).reverse)).length_le
  simp only [List.length_reverse, List.length_take, Nat.min_eq_left h] at hle
  simp only [lineStart, List.length_take, Nat.min_eq_left h]
  omega

theorem lineStart_le (text : List Char) (pos : Nat) : lineStart text pos ≤ pos := by
  simp only [lineStart, List.length_take]
  omega

theorem takeWhile_append_break (xs ys : List Char) :
    (xs ++ '\n' :: ys).takeWhile (· != '\n') = xs.takeWhile (· != '\n') := by
  induction xs with
  | nil => simp
  | cons x xs ih => simp only [List.cons_append, List.takeWhile_cons, ih]

theorem takeWhile_append_of_not_mem {xs : List Char} (h : '\n' ∉ xs) (ys : List Char) :
    (xs ++ ys).takeWhile (· != '\n') = xs ++ ys.takeWhile (· != '\n') := by
  refine List.takeWhile_append_of_pos fun x hx => ?_
  rw [bne_iff_ne]
  rintro rfl
  exact h hx

theorem takeWhile_of_not_mem {xs : List Char} (h : '\n' ∉ xs) :
    xs.takeWhile (· != '\n') = xs := by
  simpa using takeWhile_append_of_not_mem h []

/-- The first line starts at zero. -/
theorem lineStart_eq_zero {text : List Char} {pos : Nat} (h : (text.take pos).count '\n' = 0) :
    lineStart text pos = 0 := by
  rw [List.count_eq_zero, ← List.mem_reverse] at h
  simp only [lineStart, takeWhile_of_not_mem h, List.length_reverse, Nat.sub_self]

/-- One character further to the front there is another line, or not. -/
theorem lineStart_cons (c : Char) {rest : List Char} {pos : Nat} (h : pos ≤ rest.length) :
    lineStart (c :: rest) (pos + 1) =
      if (rest.take pos).count '\n' = 0 then if c = '\n' then 1 else 0
      else lineStart rest pos + 1 := by
  have hlength : (rest.take pos).length = pos := by rw [List.length_take, Nat.min_eq_left h]
  simp only [lineStart, List.take_succ_cons, List.reverse_cons, List.length_cons, hlength,
    List.count_eq_zero]
  by_cases hmem : '\n' ∈ rest.take pos
  · obtain ⟨front, back, hsplit⟩ := List.append_of_mem (List.mem_reverse.2 hmem)
    have hfront : ((rest.take pos).reverse.takeWhile (· != '\n')).length < pos := by
      have hlength' := congrArg List.length hsplit
      have hle := (List.takeWhile_prefix (· != '\n') (l := front)).length_le
      simp only [List.length_reverse, hlength, List.length_append, List.length_cons] at hlength'
      rw [hsplit, takeWhile_append_break]
      omega
    rw [if_neg (not_not_intro hmem), hsplit, List.append_assoc, List.cons_append,
      takeWhile_append_break, ← takeWhile_append_break front back, ← hsplit]
    omega
  · rw [if_pos hmem, takeWhile_append_of_not_mem (by rwa [List.mem_reverse])]
    by_cases hc : c = '\n'
    · subst hc
      simp [hlength]
    · simp [hc, hlength]

namespace LineTable

open List

/-- The entries from a line on that starts at `start`, with the text from offset `pos` on: the entry
for the line of a place of the text. -/
theorem getElem?_offsetsAfterBreaks (start base : Nat) {text : List Char} {pos : Nat}
    (h : pos ≤ text.length) :
    (start :: offsetsAfterBreaks base text)[(text.take pos).count '\n']? =
      some (if (text.take pos).count '\n' = 0 then start else base + lineStart text pos) := by
  induction text generalizing start base pos with
  | nil => simp
  | cons c rest ih =>
    cases pos with
    | zero => simp
    | succ pos =>
      have hpos : pos ≤ rest.length := by simpa using h
      rw [lineStart_cons c hpos, take_succ_cons, offsetsAfterBreaks]
      by_cases hc : c = '\n'
      · subst hc
        rw [count_cons_self, if_pos rfl, getElem?_cons_succ, ih (base + 1) (base + 1) hpos,
          if_neg (Nat.succ_ne_zero _)]
        congr 1
        split
        · rfl
        · omega
      · rw [count_cons_of_ne (by simpa using hc), if_neg hc, ih start (base + 1) hpos]
        congr 1
        split
        · rfl
        · omega

theorem pairwise_offsetsAfterBreaks (base : Nat) (text : List Char) :
    (offsetsAfterBreaks base text).Pairwise (· < ·) ∧ ∀ x ∈ offsetsAfterBreaks base text, base < x := by
  induction text generalizing base with
  | nil => simp [offsetsAfterBreaks]
  | cons c rest ih =>
    obtain ⟨hpairwise, hgt⟩ := ih (base + 1)
    rw [offsetsAfterBreaks]
    split
    · refine ⟨pairwise_cons.2 ⟨hgt, hpairwise⟩, forall_mem_cons.2 ⟨by omega, fun x hx => ?_⟩⟩
      have := hgt x hx
      omega
    · refine ⟨hpairwise, fun x hx => ?_⟩
      have := hgt x hx
      omega

/-- The next line starts after the place. -/
theorem lt_of_getElem?_offsetsAfterBreaks (start base : Nat) {text : List Char} {pos x : Nat}
    (h : pos ≤ text.length)
    (hx : (start :: offsetsAfterBreaks base text)[(text.take pos).count '\n' + 1]? = some x) :
    base + pos < x := by
  induction text generalizing start base pos with
  | nil => simp [offsetsAfterBreaks] at hx
  | cons c rest ih =>
    cases pos with
    | zero =>
      rw [getElem?_cons_succ] at hx
      exact (pairwise_offsetsAfterBreaks base (c :: rest)).2 x (mem_of_getElem? hx)
    | succ pos =>
      have hpos : pos ≤ rest.length := by simpa using h
      rw [take_succ_cons, offsetsAfterBreaks] at hx
      by_cases hc : c = '\n'
      · subst hc
        rw [count_cons_self, if_pos rfl, getElem?_cons_succ] at hx
        have := ih (base + 1) (base + 1) hpos hx
        omega
      · rw [count_cons_of_ne (by simpa using hc), if_neg hc] at hx
        have := ih start (base + 1) hpos hx
        omega

/-! ## Looking up a place -/

/-- The search ends at an entry that is not beyond the place, and the next one is, if there is one. -/
theorem search_spec {starts : Array Nat} {pos low high : Nat} (hlow : starts.getD low 0 ≤ pos)
    (hle : low ≤ high) :
    search starts pos low high ≤ high ∧ starts.getD (search starts pos low high) 0 ≤ pos ∧
      (search starts pos low high = high ∨
        pos < starts.getD (search starts pos low high + 1) 0) := by
  fun_induction search starts pos low high with
  | case1 low high hlt middle hmiddle ih =>
    exact ih hmiddle (by omega)
  | case2 low high hlt middle hmiddle ih =>
    obtain ⟨hhigh, hpos, hnext⟩ := ih hlow (by omega)
    refine ⟨by omega, hpos, .inr ?_⟩
    rcases hnext with hend | hnext
    · rw [hend, show middle - 1 + 1 = middle by omega]
      omega
    · exact hnext
  | case3 low high hlt => exact ⟨hle, hlow, .inl (by omega)⟩

theorem ofText_starts_getD (text : List Char) (i : Nat) :
    (ofText text).starts.getD i 0 = ((0 :: offsetsAfterBreaks 0 text)[i]?).getD 0 := by
  simp [ofText, Array.getD_eq_getD_getElem?]

theorem ofText_entry {text : List Char} {pos : Nat} (h : pos ≤ text.length) :
    (0 :: offsetsAfterBreaks 0 text)[(text.take pos).count '\n']? = some (lineStart text pos) := by
  rw [getElem?_offsetsAfterBreaks 0 0 h]
  congr 1
  split
  · rename_i hzero
    exact (lineStart_eq_zero hzero).symm
  · omega

/-- A place of a text is in the line whose number is found by counting. -/
theorem search_ofText {text : List Char} {pos : Nat} (h : pos ≤ text.length) :
    search (ofText text).starts pos 0 ((ofText text).starts.size - 1)
      = (text.take pos).count '\n' := by
  have hentry := ofText_entry h
  have hnextEntry := fun x => lt_of_getElem?_offsetsAfterBreaks 0 0 (x := x) h
  have hsorted : (0 :: offsetsAfterBreaks 0 text).Pairwise (· ≤ ·) := by
    obtain ⟨hpairwise, -⟩ := pairwise_offsetsAfterBreaks 0 text
    exact pairwise_cons.2 ⟨fun _ _ => Nat.zero_le _, hpairwise.imp Nat.le_of_lt⟩
  have hsize : (ofText text).starts.size = (0 :: offsetsAfterBreaks 0 text).length := by
    simp [ofText]
  have hfirst : (ofText text).starts.getD 0 0 ≤ pos := Nat.zero_le pos
  obtain ⟨hhigh, hpos, hnext⟩ :=
    search_spec hfirst (Nat.zero_le ((ofText text).starts.size - 1))
  generalize search (ofText text).starts pos 0 ((ofText text).starts.size - 1) = found at *
  rw [ofText_starts_getD] at hpos hnext
  rw [hsize] at hhigh hnext
  generalize hentries : 0 :: offsetsAfterBreaks 0 text = entries at *
  generalize (text.take pos).count '\n' = line at *
  obtain ⟨hline, hstart⟩ := List.getElem?_eq_some_iff.1 hentry
  have hstartLe := lineStart_le text pos
  have hle : ∀ i j (hi : i < entries.length) (hj : j < entries.length), i ≤ j →
      entries[i] ≤ entries[j] := by
    intro i j hi hj hij
    rcases Nat.eq_or_lt_of_le hij with rfl | hlt
    · exact Nat.le_refl _
    · exact pairwise_iff_getElem.1 hsorted i j hi hj hlt
  have hfound : found < entries.length := by omega
  rw [List.getElem?_eq_getElem hfound, Option.getD_some] at hpos
  rcases Nat.lt_trichotomy found line with hlt | heq | hgt
  · have hsucc : found + 1 < entries.length := by omega
    rw [List.getElem?_eq_getElem hsucc, Option.getD_some] at hnext
    have := hle (found + 1) line hsucc hline hlt
    omega
  · exact heq
  · have hsucc : line + 1 < entries.length := by omega
    have hbeyond := hnextEntry _ (List.getElem?_eq_getElem hsucc)
    have := hle (line + 1) found hsucc hfound hgt
    omega

/-- Looking a place up gives the line and column that counting gives; places outside the text count
as its nearest end. -/
theorem locate_ofText (text : List Char) (pos : Int) :
    (ofText text).locate pos = lineColumn text (min pos.toNat text.length) := by
  have hle : min pos.toNat text.length ≤ text.length := Nat.min_le_right _ _
  simp only [locate, lineColumn]
  rw [show (ofText text).length = text.length from rfl, search_ofText hle, ofText_starts_getD,
    ofText_entry hle, Option.getD_some]

end LineTable

/-! ## Two texts with a line break in between -/

theorem lineColumn_append_left {xs : List Char} {pos : Nat} (h : pos ≤ xs.length) (ys : List Char) :
    lineColumn (xs ++ ys) pos = lineColumn xs pos := by
  simp only [lineColumn, lineStart, List.take_append_of_le_length h]

theorem lineColumn_append_right (xs : List Char) {ys : List Char} {pos : Nat} (h : pos ≤ ys.length) :
    lineColumn (xs ++ '\n' :: ys) (pos + (xs.length + 1)) =
      ((lineColumn ys pos).1 + (xs.count '\n' + 1), (lineColumn ys pos).2) := by
  have htake : (xs ++ '\n' :: ys).take (pos + (xs.length + 1)) = xs ++ '\n' :: ys.take pos := by
    rw [Nat.add_comm, Nat.add_right_comm, List.take_append, List.take_of_length_le (by omega)]
    congr 1
    rw [show xs.length + pos + 1 - xs.length = pos + 1 by omega, List.take_succ_cons]
  have hle : pos + (xs.length + 1) ≤ (xs ++ '\n' :: ys).length := by
    simp only [List.length_append, List.length_cons]
    omega
  simp only [lineColumn, sub_lineStart h, sub_lineStart hle, htake, List.reverse_append,
    List.reverse_cons, List.append_assoc, List.cons_append, List.nil_append, takeWhile_append_break,
    List.count_append, List.count_cons_self]
  congr 1
  omega

/-! ## Places in their order -/

/-- The line and column of an offset, told by the line feeds in front of it: the line is one more
than their number, and the column says how far back the last of them is. In the first line it is as
if a line feed stood in front of the text. -/
structure IsPlace (text : List Char) (pos : Nat) (place : Nat × Nat) : Prop where
  line : place.1 = 1 + (text.take pos).count '\n'
  columnAfter : ∀ feed < pos, text[feed]? = some '\n' →
    (∀ other, feed < other → other < pos → text[other]? ≠ some '\n') → place.2 = pos - feed
  columnInFirst : (∀ other < pos, text[other]? ≠ some '\n') → place.2 = pos + 1

theorem lineFeed_notMem_between {text : List Char} {start pos : Nat}
    (h : ∀ other, start ≤ other → other < pos → text[other]? ≠ some '\n') :
    '\n' ∉ (text.take pos).drop start := by
  intro hmem
  obtain ⟨i, hi⟩ := List.getElem?_of_mem hmem
  rw [List.getElem?_drop, List.getElem?_take] at hi
  split at hi
  · rename_i hpos
    exact h _ (Nat.le_add_right _ _) hpos hi
  · simp at hi

/-- The line of an offset starts behind the last line feed in front of it. -/
theorem lineStart_eq_succ {text : List Char} {pos feed : Nat} (hlt : feed < pos)
    (hfeed : text[feed]? = some '\n')
    (hlast : ∀ other, feed < other → other < pos → text[other]? ≠ some '\n') :
    lineStart text pos = feed + 1 := by
  obtain ⟨hlength, hget⟩ := List.getElem?_eq_some_iff.1 hfeed
  have hsplit : text.take pos = text.take feed ++ '\n' :: (text.take pos).drop (feed + 1) := by
    have hdrop := List.drop_eq_getElem_cons (l := text.take pos) (i := feed)
      (by rw [List.length_take]; omega)
    rw [List.getElem_take, hget] at hdrop
    calc text.take pos = (text.take pos).take feed ++ (text.take pos).drop feed :=
          (List.take_append_drop _ _).symm
      _ = _ := by rw [List.take_take, Nat.min_eq_left (Nat.le_of_lt hlt), hdrop]
  have hbehind : '\n' ∉ (text.take pos).drop (feed + 1) := lineFeed_notMem_between hlast
  have hbefore : (text.take pos).length = min pos text.length := List.length_take
  rw [← List.mem_reverse] at hbehind
  rw [lineStart, hsplit, List.reverse_append, List.reverse_cons, List.append_assoc,
    List.singleton_append, takeWhile_append_break, takeWhile_of_not_mem hbehind]
  simp only [List.length_append, List.length_cons, List.length_take, List.length_reverse,
    List.length_drop]
  omega

theorem lineColumn_isPlace (text : List Char) (pos : Nat) :
    IsPlace text pos (lineColumn text pos) where
  line := Nat.add_comm _ _
  columnAfter feed hlt hfeed hlast := by
    simp only [lineColumn, lineStart_eq_succ hlt hfeed hlast]
    omega
  columnInFirst hnone := by
    have hcount : (text.take pos).count '\n' = 0 := by
      rw [List.count_eq_zero, ← @List.drop_zero _ (text.take pos)]
      exact lineFeed_notMem_between fun other _ => hnone other
    simp only [lineColumn, lineStart_eq_zero hcount, Nat.sub_zero]

/-- Two offsets with as many line feeds in front of them are in one line. -/
theorem lineStart_congr {text : List Char} {i j : Nat} (hi : i ≤ text.length) (hj : j ≤ text.length)
    (hcount : (text.take i).count '\n' = (text.take j).count '\n') :
    lineStart text i = lineStart text j := by
  have hentry := LineTable.ofText_entry hi
  rw [hcount, LineTable.ofText_entry hj] at hentry
  exact (Option.some.inj hentry).symm

/-- Further on in a text there is a later line, or a later column of the same line. -/
theorem lineColumn_lt {text : List Char} {i j : Nat} (hlt : i < j) (hj : j ≤ text.length) :
    Prod.Lex (· < ·) (· < ·) (lineColumn text i) (lineColumn text j) := by
  have hsub : (text.take i).Sublist (text.take j) := by
    rw [← Nat.min_eq_left (Nat.le_of_lt hlt), ← List.take_take]
    exact List.take_sublist i _
  -- with as many line feeds in front of both it is one line, which starts in front of both
  rcases Nat.lt_or_eq_of_le (hsub.count_le '\n') with hcount | hcount
  · exact .left _ _ (Nat.succ_lt_succ hcount)
  · have hstart := lineStart_congr (by omega) hj hcount
    have hle := lineStart_le text i
    simp only [lineColumn, hcount, ← hstart]
    exact .right _ (by omega)

namespace LineTable

/-- **The table of a text finds what counting finds**: for every offset of the text the line and
column that the line feeds in front of it give. Further on in the text they come later, and offsets
outside of it have the place of its nearest end. -/
theorem locate_places (text : List Char) :
    (∀ pos ≤ text.length, (ofText text).locate pos = lineColumn text pos ∧
      IsPlace text pos ((ofText text).locate pos)) ∧
    (∀ i j : Nat, i < j → j ≤ text.length →
      Prod.Lex (· < ·) (· < ·) ((ofText text).locate i) ((ofText text).locate j)) ∧
    (∀ pos : Int, pos < 0 → (ofText text).locate pos = (ofText text).locate 0) ∧
    ∀ pos : Int, text.length < pos →
      (ofText text).locate pos = (ofText text).locate text.length := by
  have hinside : ∀ pos ≤ text.length, (ofText text).locate pos = lineColumn text pos := by
    intro pos hpos
    rw [locate_ofText, Int.toNat_natCast, Nat.min_eq_left hpos]
  refine ⟨fun pos hpos => ⟨hinside pos hpos, ?_⟩, fun i j hlt hj => ?_, fun pos hpos => ?_,
    fun pos hpos => ?_⟩
  · rw [hinside pos hpos]
    exact lineColumn_isPlace text pos
  · rw [hinside i (by omega), hinside j hj]
    exact lineColumn_lt hlt hj
  · rw [locate_ofText, locate_ofText, Int.toNat_of_nonpos (Int.le_of_lt hpos), Int.toNat_zero]
  · rw [locate_ofText, locate_ofText, Int.toNat_natCast, Nat.min_self, Nat.min_eq_right (by omega)]

/-- An empty line, and a line feed at the end. -/
def blankLines : List Char := ['a', '\n', '\n', 'b', '\n']

theorem locate_places_blankLines :
    (2 ≤ blankLines.length ∧ (ofText blankLines).locate (2 : Nat) = (2, 1) ∧
      IsPlace blankLines 2 (2, 1)) ∧
    (2 < 5 ∧ 5 ≤ blankLines.length ∧
      Prod.Lex (· < ·) (· < ·) (2, 1) ((ofText blankLines).locate (5 : Nat))) ∧
    ((-1 : Int) < 0 ∧ (ofText blankLines).locate (-1) = (1, 1)) ∧
    ((blankLines.length : Int) < 9 ∧ (ofText blankLines).locate 9 = (4, 1)) := by
  obtain ⟨hinside, hlater, hbelow, hbeyond⟩ := locate_places blankLines
  have htwo : (ofText blankLines).locate (2 : Nat) = (2, 1) := (hinside 2 (by decide)).1
  have hfive : (ofText blankLines).locate (5 : Nat) = (4, 1) := (hinside 5 (by decide)).1
  have hzero : (ofText blankLines).locate (0 : Nat) = (1, 1) := (hinside 0 (by decide)).1
  refine ⟨⟨by decide, htwo, ?_⟩, ⟨by decide, by decide, ?_⟩, ⟨by decide, ?_⟩, by decide, ?_⟩
  · exact htwo ▸ (hinside 2 (by decide)).2
  · exact htwo ▸ hlater 2 5 (by decide) (by decide)
  · exact (hbelow (-1) (by decide)).trans hzero
  · exact (hbeyond 9 (by decide)).trans hfive

end LineTable

end LocalizedKeys
