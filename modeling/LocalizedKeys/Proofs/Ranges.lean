import LocalizedKeys.Expansion.Placement
import LocalizedKeys.Proofs.Ordered
import LocalizedKeys.Proofs.Placed

/-!
# The ranges that an expansion replaces

An attribute goes with the layout before it and the rest of its line if that is blank; members
take the place of the layout before a closing brace, and of the brace. What these ranges hold is
read off the source here, from the places that a tree has in it. A range grows over layout only,
so it ends where something else stands: it never gets back past a `Boundary`, nor on past a
character that is no layout.
-/

namespace LocalizedKeys.Expansion

open Text Swift

/-- Spaces, tabs and line ends only. -/
def IsLayoutText (cs : List Char) : Prop := ∀ ch ∈ cs, isLayout ch = true

/-- White space only. -/
def IsSpaceText (cs : List Char) : Prop := ∀ ch ∈ cs, isSpace ch = true

/-! ## Layout before a place -/

theorem layoutAtEnd_spec (cs : List Char) :
    ∃ w lay, cs = w ++ lay ∧ lay.length = layoutAtEnd cs ∧ IsLayoutText lay ∧
      ∀ ch ∈ w.getLast?, isLayout ch = false := by
  refine ⟨(cs.reverse.dropWhile isLayout).reverse, (cs.reverse.takeWhile isLayout).reverse,
    ?_, ?_, ?_, ?_⟩
  · rw [← List.reverse_append, List.takeWhile_append_dropWhile, List.reverse_reverse]
  · rw [List.length_reverse]
    rfl
  · intro ch hch
    exact List.all_eq_true.1 (List.all_takeWhile (l := cs.reverse)) ch (List.mem_reverse.1 hch)
  · intro ch hch
    rw [List.getLast?_reverse] at hch
    have := List.head?_dropWhile_not isLayout cs.reverse
    rw [Option.mem_def.1 hch] at this
    simpa using this

/-- Layout at the end is looked for back to the last character that is none. -/
theorem layoutAtEnd_append {xs : List Char} {ch : Char} (hlast : xs.getLast? = some ch)
    (hch : isLayout ch = false) (ys : List Char) : layoutAtEnd (xs ++ ys) = layoutAtEnd ys := by
  have hnone : xs.reverse.takeWhile isLayout = [] := by
    obtain ⟨init, rfl⟩ : ∃ init, xs = init ++ [ch] := List.getLast?_eq_some_iff.1 hlast
    rw [List.reverse_append, List.reverse_singleton, List.singleton_append,
      List.takeWhile_cons_of_neg (by simp [hch])]
  rw [layoutAtEnd, layoutAtEnd, List.reverse_append, List.takeWhile_append, hnone, List.append_nil]
  split
  · rename_i heq
    exact heq.symm
  · rfl

/-- The offset is the start of the text, or something other than layout stands before it. -/
def Boundary (source : List Char) (p : Nat) : Prop :=
  p = 0 ∨ ∃ q ch, p = q + 1 ∧ source[q]? = some ch ∧ isLayout ch = false

theorem Boundary.after {source : List Char} {q : Nat} {ch : Char} (h : source[q]? = some ch)
    (hch : isLayout ch = false) : Boundary source (q + 1) := .inr ⟨q, ch, rfl, h, hch⟩

/-- The offset behind the last character before `p` that is no layout. -/
def lastBoundary (source : List Char) (p : Nat) : Nat := p - layoutAtEnd (source.take p)

theorem lastBoundary_spec {source : List Char} {p : Nat} (hp : p ≤ source.length) :
    ∃ before, IsLayoutText before ∧ lastBoundary source p + before.length = p ∧
      source.drop (lastBoundary source p) = before ++ source.drop p := by
  obtain ⟨w, lay, htake, hlen, hlay, -⟩ := layoutAtEnd_spec (source.take p)
  have hsum : w.length + lay.length = p := by
    rw [← List.length_append, ← htake, List.length_take, Nat.min_eq_left hp]
  have hstart : lastBoundary source p = w.length := by
    rw [lastBoundary, ← hlen]
    omega
  refine ⟨lay, hlay, by omega, ?_⟩
  have hsplit : source = w ++ (lay ++ source.drop p) := by
    rw [← List.append_assoc, ← htake, List.take_append_drop]
  rw [hstart]
  conv => lhs; rw [hsplit]
  rw [List.drop_left]

/-- Ranges that grow back over layout stop at a boundary. -/
theorem Boundary.le_lastBoundary {source : List Char} {p q : Nat} (h : Boundary source q)
    (hq : q ≤ p) (hp : p ≤ source.length) : q ≤ lastBoundary source p := by
  rcases h with rfl | ⟨q, ch, rfl, hget, hch⟩
  · exact Nat.zero_le _
  · obtain ⟨before, hlay, hsum, hdrop⟩ := lastBoundary_spec hp
    rcases Nat.lt_or_ge q (lastBoundary source p) with hlt | hge
    · exact hlt
    · -- the character before the boundary would be layout
      have hmem : ch ∈ before := by
        have hget' : (source.drop (lastBoundary source p))[q - lastBoundary source p]? = some ch := by
          rw [List.getElem?_drop, Nat.add_sub_of_le hge, hget]
        rw [hdrop, List.getElem?_append_left (by omega)] at hget'
        exact List.mem_of_getElem? hget'
      simp [hlay ch hmem] at hch

theorem boundary_lastBoundary {source : List Char} {p : Nat} (hp : p ≤ source.length) :
    Boundary source (lastBoundary source p) := by
  obtain ⟨w, lay, htake, hlen, hlay, hlast⟩ := layoutAtEnd_spec (source.take p)
  have hsum : w.length + lay.length = p := by
    rw [← List.length_append, ← htake, List.length_take, Nat.min_eq_left hp]
  have hstart : lastBoundary source p = w.length := by
    rw [lastBoundary, ← hlen]
    omega
  rw [hstart]
  cases hw : w.getLast? with
  | none => exact .inl (by rw [List.getLast?_eq_none_iff.1 hw]; rfl)
  | some ch =>
    have hpos : w ≠ [] := by
      rintro rfl
      simp at hw
    have hlength := List.length_pos_iff.2 hpos
    refine .inr ⟨w.length - 1, ch, by omega, ?_, hlast ch hw⟩
    have hget : (source.take p)[w.length - 1]? = some ch := by
      rw [htake, List.getElem?_append_left (by omega), ← List.getLast?_eq_getElem?, hw]
    rw [List.getElem?_take] at hget
    split at hget
    · exact hget
    · simp at hget

/-! ## Layout behind a place -/

theorem lineBreakLength_spec (cs : List Char) :
    ∃ lineBreak rest, cs = lineBreak ++ rest ∧ lineBreak.length = lineBreakLength cs ∧
      (lineBreak = [] ∨ lineBreak = ['\n'] ∨ lineBreak = ['\r', '\n']) := by
  unfold lineBreakLength
  split
  · exact ⟨['\r', '\n'], _, rfl, rfl, .inr (.inr rfl)⟩
  · exact ⟨['\n'], _, rfl, rfl, .inr (.inl rfl)⟩
  · exact ⟨[], cs, rfl, rfl, .inl rfl⟩

/-- What is removed behind an attribute is layout. -/
theorem afterAttribute_spec (rest : List Char) :
    ∃ blanks lineBreak tail, rest = blanks ++ (lineBreak ++ tail) ∧
      blanks.length = (rest.takeWhile isBlank).length ∧
      lineBreak.length = lineBreakLength (rest.drop (rest.takeWhile isBlank).length) ∧
      (∀ ch ∈ blanks, isBlank ch = true) ∧
      (lineBreak = [] ∨ lineBreak = ['\n'] ∨ lineBreak = ['\r', '\n']) ∧
      IsLayoutText (blanks ++ lineBreak) := by
  have hdrop : rest.drop (rest.takeWhile isBlank).length = rest.dropWhile isBlank := by
    conv => lhs; rhs; rw [← List.takeWhile_append_dropWhile (p := isBlank) (l := rest)]
    rw [List.drop_left]
  obtain ⟨lineBreak, tail, htail, hlen, hbreak⟩ := lineBreakLength_spec (rest.dropWhile isBlank)
  have hblanks : ∀ x ∈ rest.takeWhile isBlank, isBlank x = true := fun x hx =>
    List.all_eq_true.1 (List.all_takeWhile (l := rest)) x hx
  refine ⟨rest.takeWhile isBlank, lineBreak, tail, ?_, rfl, by rw [hdrop, hlen], hblanks, hbreak,
    ?_⟩
  · rw [← htail, List.takeWhile_append_dropWhile]
  · intro x hx
    rcases List.mem_append.1 hx with hx | hx
    · exact isLayout_of_isBlank (hblanks x hx)
    · rcases hbreak with rfl | rfl | rfl
      · simp at hx
      · rw [List.mem_singleton.1 hx]
        rfl
      · rcases List.mem_cons.1 hx with rfl | hx
        · rfl
        · rw [List.mem_singleton.1 hx]
          rfl

/-- Ranges that grow on over layout stop at anything else. -/
theorem length_le_of_layout {source w rest : List Char} {p q : Nat} {ch : Char}
    (h : source.drop p = w ++ rest) (hw : IsLayoutText w) (hq : source[q]? = some ch)
    (hch : isLayout ch = false) (hle : p ≤ q) : p + w.length ≤ q := by
  rcases Nat.lt_or_ge q (p + w.length) with hlt | hge
  · have hget : (source.drop p)[q - p]? = some ch := by
      rw [List.getElem?_drop, Nat.add_sub_of_le hle, hq]
    rw [h, List.getElem?_append_left (by omega)] at hget
    simp [hw ch (List.mem_of_getElem? hget)] at hch
  · exact hge

/-! ## What the edits replace -/

theorem slice_of_drop {source removed rest : List Char} {s : Nat}
    (h : source.drop s = removed ++ rest) :
    slice source s (s + removed.length : Nat) = removed := by
  rw [slice_natCast, List.drop_take, h, Nat.add_sub_cancel_left, List.take_left]

theorem isLayoutText_lineIndent (source : List Char) (p : Nat) :
    ∀ ch ∈ lineIndent source p, isBlank ch = true := fun ch hch =>
  List.all_eq_true.1 (List.all_takeWhile (l := source.drop (lineStart source p))) ch hch

theorem isLayoutText_attributeRemoval (source : List Char) (span : Span) :
    IsLayoutText (attributeRemoval source span).replacement := by
  intro x hx
  simp only [attributeRemoval] at hx
  split at hx
  · simp at hx
  · split at hx
    · rw [List.mem_singleton.1 hx]
      rfl
    · rcases List.mem_cons.1 hx with rfl | hx
      · rfl
      · exact isLayout_of_isBlank (isLayoutText_lineIndent source _ x hx)

/-- The range holds the attribute with the layout before it and the blanks and the line break
behind it; white space takes its place, which begins a new line unless the attribute was the
first thing in the source. -/
structure RemovesAttribute (source : List Char) (a : Attribute) (r : Replacement) : Prop where
  range : ∃ before arguments blanks lineBreak,
    r.removed = before ++ ('@' :: (a.name.toList ++ arguments) ++ (blanks ++ lineBreak)) ∧
      IsLayoutText before ∧ (∀ ch ∈ blanks, isBlank ch = true) ∧
      (lineBreak = [] ∨ lineBreak = ['\n'] ∨ lineBreak = ['\r', '\n']) ∧
      r.start + before.length = a.span.start ∧
      a.span.start + ('@' :: (a.name.toList ++ arguments)).length = a.span.stop
  inserted : IsLayoutText r.inserted
  newLine : IsLayoutText (source.take a.span.start) ∨ r.inserted.head? = some '\n'

/-- What the removal of an attribute replaces. -/
theorem attributeRemoval_spec {source : List Char} {a : Attribute} {lo hi : Nat} {ch : Char}
    (ha : a.PlacedIn source lo hi) (hhi : source[hi]? = some ch) (hch : isLayout ch = false) :
    ∃ stop : Nat, (attributeRemoval source a.span).start = lastBoundary source a.span.start ∧
      (attributeRemoval source a.span).stop = stop ∧ a.span.start < stop ∧ stop ≤ hi ∧
      RemovesAttribute source a ((attributeRemoval source a.span).on source) := by
  obtain ⟨hlo, hstop, arguments, rest, hdrop, hlen⟩ := ha
  have hstart : a.span.start ≤ source.length := by
    rcases Nat.le_total a.span.start source.length with hle | hge
    · exact hle
    · rw [List.drop_eq_nil_of_le hge] at hdrop
      simp at hdrop
  obtain ⟨before, hbefore, hsum, hback⟩ := lastBoundary_spec hstart
  have hrest : source.drop a.span.stop = rest := by
    rw [hlen, ← List.drop_drop, hdrop, List.drop_left]
  obtain ⟨blanks, lineBreak, tail, hsplit, hblanksLength, hbreakLength, hblanks, hbreak, hafter⟩ :=
    afterAttribute_spec rest
  have hstopEq : (attributeRemoval source a.span).stop
      = (a.span.stop + (blanks ++ lineBreak).length : Nat) := by
    simp only [attributeRemoval, ← List.drop_drop, hrest, List.length_append, hbreakLength,
      hblanksLength]
    omega
  have hend := length_le_of_layout (w := blanks ++ lineBreak) (by
    rw [hrest, List.append_assoc]; exact hsplit) hafter hhi hch hstop
  refine ⟨_, rfl, hstopEq, by rw [hlen, List.length_cons]; omega, hend, ?_⟩
  have hon : (attributeRemoval source a.span).on source
      = ⟨lastBoundary source a.span.start, before ++ ('@' :: (a.name.toList ++ arguments)
          ++ (blanks ++ lineBreak)), (attributeRemoval source a.span).replacement⟩ := by
    have hall : source.drop (lastBoundary source a.span.start)
        = (before ++ ('@' :: (a.name.toList ++ arguments) ++ (blanks ++ lineBreak))) ++ tail := by
      rw [hback, hdrop, hsplit]
      simp only [List.append_assoc, List.cons_append]
    have hslice := slice_of_drop hall
    have hends : lastBoundary source a.span.start + (before ++ ('@' :: (a.name.toList ++ arguments)
        ++ (blanks ++ lineBreak))).length = a.span.stop + (blanks ++ lineBreak).length := by
      rw [hlen]
      simp only [List.length_append, List.length_cons]
      omega
    rw [hends] at hslice
    have hstartEq : (attributeRemoval source a.span).start
        = (lastBoundary source a.span.start : Nat) := rfl
    rw [Edit.on, hstopEq, hstartEq, hslice]
    rfl
  rw [hon]
  refine ⟨⟨before, arguments, blanks, lineBreak, rfl, hbefore, hblanks, hbreak, hsum, hlen.symm⟩, ?_, ?_⟩
  · exact isLayoutText_attributeRemoval source a.span
  · by_cases hfirst : a.span.start - layoutAtEnd (source.take a.span.start) = 0
    · refine .inl ?_
      have : lastBoundary source a.span.start = 0 := hfirst
      have htake : source.take a.span.start = before := by
        rw [this, Nat.zero_add] at hsum
        rw [this, List.drop_zero] at hback
        rw [hback, ← hsum, List.take_left]
      rw [htake]
      exact hbefore
    · refine .inr ?_
      simp only [attributeRemoval, if_neg hfirst]
      split <;> rfl

/-- The range holds the layout before a closing brace, and the brace; before the brace come the
members, indented and with blank lines between them. -/
structure InsertsMembers (t : TypeDecl) (members : List (List Char)) (r : Replacement) :
    Prop where
  range : ∃ before, r.removed = before ++ ['\x7d'] ∧ IsLayoutText before ∧
    r.start + before.length + 1 = t.body.stop
  inserted : ∃ separator indent closing, IsSpaceText separator ∧ IsSpaceText indent ∧
    IsSpaceText closing ∧
    r.inserted = separator ++ (join ['\n', '\n'] (members.map (indentBlock indent))
      ++ (closing ++ ['\x7d']))

theorem isSpaceText_memberIndent (source : List Char) (start : Option Nat) (spans : List Span)
    {unit : List Char} (hunit : ∀ ch ∈ unit, isBlank ch = true) :
    IsSpaceText (memberIndent source start spans unit) := by
  unfold memberIndent
  split
  · rename_i span hfind
    have := List.find?_some hfind
    exact fun ch hch => List.all_eq_true.1 this ch hch
  · intro ch hch
    rcases List.mem_append.1 hch with hch | hch
    · exact isSpace_of_isBlank (isLayoutText_lineIndent source _ ch hch)
    · exact isSpace_of_isBlank (hunit ch hch)

theorem memberInsertion_inserted (source : List Char) (site : Site) (members : List (List Char))
    {unit : List Char} (hunit : ∀ ch ∈ unit, isBlank ch = true) :
    ∃ separator indent closing, IsSpaceText separator ∧ IsSpaceText indent ∧
      IsSpaceText closing ∧ (memberInsertion source site members unit).replacement
        = separator ++ (join ['\n', '\n'] (members.map (indentBlock indent))
          ++ (closing ++ ['\x7d'])) := by
  have hseparator : ∀ b : Bool, IsSpaceText (if b then ['\n'] else ['\n', '\n']) := by
    intro b
    cases b <;> (intro ch hch; simp at hch; subst hch; rfl)
  have hclosing : IsSpaceText ('\n' :: if (linePrefixText source site.closing.toNat).all isSpace
      then linePrefixText source site.closing.toNat
      else lineIndent source (site.start.getD site.closing.toNat)) := by
    intro ch hch
    rcases List.mem_cons.1 hch with rfl | hch
    · rfl
    · split at hch
      · rename_i hall
        exact List.all_eq_true.1 hall ch hch
      · exact isSpace_of_isBlank (isLayoutText_lineIndent source _ ch hch)
  refine ⟨_, memberIndent source site.start site.members unit, _,
    hseparator (decide (site.closing - layoutAtEnd ((source.take site.closing.toNat).drop
      (site.body.start + 1)) = site.body.start + 1)),
    isSpaceText_memberIndent source _ _ hunit, hclosing, ?_⟩
  simp only [memberInsertion, List.append_assoc, decide_eq_true_eq]

/-- What the insertion of members replaces. -/
theorem memberInsertion_spec {source : List Char} {t : TypeDecl} {brace close : Nat}
    (members : List (List Char)) {unit : List Char} (hbody : t.body = ⟨brace, close + 1⟩)
    (hopen : source[brace]? = some '\x7b') (hclose : source[close]? = some '\x7d')
    (hlt : brace < close) (hunit : ∀ ch ∈ unit, isBlank ch = true) :
    (memberInsertion source (.of t) members unit).start = lastBoundary source close ∧
      (memberInsertion source (.of t) members unit).stop = (close + 1 : Nat) ∧
      InsertsMembers t members ((memberInsertion source (.of t) members unit).on source) := by
  have hlength : close < source.length := (List.getElem?_eq_some_iff.1 hclose).1
  obtain ⟨before, hbefore, hsum, hback⟩ := lastBoundary_spec (Nat.le_of_lt hlength)
  have hsite : (Site.of t).body = ⟨brace, close + 1⟩ := hbody
  have hclosing : (Site.of t).closing = (close : Int) := by
    rw [Site.closing, hsite]
    simp
  -- the opening brace is no layout, so it does not matter that only what is inside is looked at
  have hinside : layoutAtEnd ((source.take close).drop (brace + 1))
      = layoutAtEnd (source.take close) := by
    have hlast : (source.take (brace + 1)).getLast? = some '\x7b' := by
      rw [List.getLast?_eq_getElem?, List.length_take, Nat.min_eq_left (by omega),
        Nat.add_sub_cancel, List.getElem?_take, if_pos (Nat.lt_succ_self _), hopen]
    have htake : (source.take close).take (brace + 1) = source.take (brace + 1) := by
      rw [List.take_take, Nat.min_eq_left (by omega)]
    have := layoutAtEnd_append hlast (by decide) ((source.take close).drop (brace + 1))
    rw [← htake, List.take_append_drop] at this
    exact this.symm
  have hstart : (memberInsertion source (.of t) members unit).start
      = (lastBoundary source close : Nat) := by
    simp only [memberInsertion, hclosing, Int.toNat_natCast, hsite, hinside]
    rw [lastBoundary]
    have : layoutAtEnd (source.take close) ≤ close := by
      have := (List.takeWhile_prefix isLayout (l := (source.take close).reverse)).length_le
      rw [List.length_reverse, List.length_take] at this
      exact Nat.le_trans this (Nat.min_le_left _ _)
    omega
  have hstop : (memberInsertion source (.of t) members unit).stop = (close + 1 : Nat) := by
    simp only [memberInsertion, hclosing]
    omega
  have hbraceDrop : source.drop close = '\x7d' :: source.drop (close + 1) := by
    rw [List.drop_eq_getElem_cons hlength]
    congr 1
    have := List.getElem?_eq_getElem hlength
    rw [hclose] at this
    exact (Option.some.inj this).symm
  have hon : (memberInsertion source (.of t) members unit).on source
      = ⟨lastBoundary source close, before ++ ['\x7d'],
        (memberInsertion source (.of t) members unit).replacement⟩ := by
    have hall : source.drop (lastBoundary source close)
        = (before ++ ['\x7d']) ++ source.drop (close + 1) := by
      rw [hback, hbraceDrop, List.append_assoc]
      rfl
    have hslice := slice_of_drop hall
    have hends : lastBoundary source close + (before ++ ['\x7d']).length = close + 1 := by
      simp only [List.length_append, List.length_cons, List.length_nil]
      omega
    rw [hends] at hslice
    rw [Edit.on, hstart, hstop, hslice]
    rfl
  refine ⟨hstart, hstop, ?_⟩
  rw [hon]
  refine ⟨⟨before, rfl, hbefore, ?_⟩, memberInsertion_inserted source (.of t) members hunit⟩
  rw [hbody]
  simp only [hsum]

end LocalizedKeys.Expansion
