import LocalizedKeys.Source.Edit
import Mathlib.Data.List.Nodup

/-!
# Edits one after the other

Applying edits goes through the text once and compares each edit only with the one before. That is
enough: edits that each begin where the one before has ended, or later, are behind all that come
before them (`applyFrom_eq_ok_iff`). What comes of it is the same as making the edits one at a time
in the text, the last one first, since none of them moves the places of those that are still to
come (`take_spliceAll`).

`applyEdits_splices` says this of edits in any order; they are made in the order of their ranges.
-/

namespace LocalizedKeys

namespace Edit

/-- The range of an edit lies in the text. -/
structure Fits (text : List Char) (e : Edit) : Prop where
  nonneg : 0 ≤ e.start
  ordered : e.start ≤ e.stop
  inside : e.stop ≤ text.length

/-- The range that an edit replaces. -/
def range (e : Edit) : Int × Int := (e.start, e.stop)

/-- The text with one edit made. -/
def splice (e : Edit) (text : List Char) : List Char :=
  text.take e.start.toNat ++ e.replacement ++ text.drop e.stop.toNat

/-- The text with edits made one at a time, the last one first. -/
def spliceAll (text : List Char) (es : List Edit) : List Char := es.foldr splice text

/-- One edit begins where the other ends, or further on. -/
def Before (a b : Edit) : Prop := a.stop ≤ b.start

/-- The edits in the order in which they are applied. -/
def inOrder (es : List Edit) : List Edit := es.mergeSort precedes

/-- The second list has the edits of the first one in the order of their ranges; those with one
range stay in the order they had. -/
structure Arranged (es sorted : List Edit) : Prop where
  perm : sorted.Perm es
  pairwise : sorted.Pairwise fun a b =>
    a.start < b.start ∨ (a.start = b.start ∧ a.stop ≤ b.stop)
  stable : ∀ range, sorted.filter (·.range = range) = es.filter (·.range = range)

/-! ## Sorting -/

theorem precedes_trans (a b c : Edit) (hab : precedes a b = true) (hbc : precedes b c = true) :
    precedes a c = true := by
  simp only [precedes, decide_eq_true_eq] at hab hbc ⊢
  omega

theorem precedes_total (a b : Edit) : (precedes a b || precedes b a) = true := by
  simp only [precedes, Bool.or_eq_true, decide_eq_true_eq]
  omega

/-- Edits that precede each other have the same range. -/
theorem range_eq_of_precedes {a b : Edit} (hab : precedes a b = true) (hba : precedes b a = true) :
    a.range = b.range := by
  simp only [precedes, decide_eq_true_eq] at hab hba
  simp only [range, Prod.mk.injEq]
  omega

theorem precedes_of_range_eq {a b : Edit} (h : a.range = b.range) : precedes a b = true := by
  simp only [range, Prod.mk.injEq] at h
  simp only [precedes, decide_eq_true_eq]
  omega

theorem pairwise_inOrder (es : List Edit) : (inOrder es).Pairwise fun a b => precedes a b = true :=
  List.pairwise_mergeSort precedes_trans precedes_total es

/-- If no two edits have the same range there is one order only. -/
theorem inOrder_eq {es sorted : List Edit} (hperm : sorted.Perm es) (hnodup : (es.map range).Nodup)
    (hsorted : sorted.Pairwise fun a b => precedes a b = true) : inOrder es = sorted := by
  have hperm' : (inOrder es).Perm sorted := (List.mergeSort_perm _ _).trans hperm.symm
  refine hperm'.eq_of_pairwise (fun a b ha hb hab hba => ?_) (pairwise_inOrder es) hsorted
  exact List.inj_on_of_nodup_map hnodup ((List.mergeSort_perm _ _).mem_iff.1 ha)
    (hperm.mem_iff.1 hb) (range_eq_of_precedes hab hba)

/-- Sorting keeps the order of the edits with one range. -/
theorem filter_inOrder (es : List Edit) (r : Int × Int) :
    (inOrder es).filter (·.range = r) = es.filter (·.range = r) := by
  have hperm : (inOrder es).Perm es := List.mergeSort_perm _ _
  have hequal : (es.filter (·.range = r)).Pairwise fun a b => precedes a b = true := by
    refine List.pairwise_of_forall_mem_list fun a ha b hb => precedes_of_range_eq ?_
    rw [of_decide_eq_true (List.mem_filter.1 ha).2, of_decide_eq_true (List.mem_filter.1 hb).2]
  have hsub : (es.filter (·.range = r)).Sublist (inOrder es) :=
    List.sublist_mergeSort precedes_trans precedes_total hequal List.filter_sublist
  have hsub' := hsub.filter (·.range = r)
  rw [List.filter_filter] at hsub'
  simp only [Bool.and_self] at hsub'
  exact (hsub'.eq_of_length (hperm.filter _).length_eq.symm).symm

theorem arranged_inOrder (es : List Edit) : Arranged es (inOrder es) where
  perm := List.mergeSort_perm _ _
  pairwise := (pairwise_inOrder es).imp fun hab => by simpa [precedes] using hab
  stable := filter_inOrder es

/-! ## Making edits one at a time -/

variable {text : List Char} {es : List Edit}

/-- Edits do not touch what lies in front of them. -/
theorem take_spliceAll (hfits : ∀ e ∈ es, e.Fits text) (hbefore : es.Pairwise Before) {n : Nat}
    (hn : ∀ e ∈ es, (n : Int) ≤ e.start) : (spliceAll text es).take n = text.take n := by
  induction es generalizing n with
  | nil => rfl
  | cons e es ih =>
    obtain ⟨⟨hnonneg, hordered, hinside⟩, hfits⟩ := List.forall_mem_cons.1 hfits
    obtain ⟨hfirst, hrest⟩ := List.pairwise_cons.1 hbefore
    have hstart : (n : Int) ≤ e.start := hn e List.mem_cons_self
    have hlater : ∀ e' ∈ es, ((e.start.toNat : Nat) : Int) ≤ e'.start := by
      intro e' he'
      have : e.stop ≤ e'.start := hfirst e' he'
      omega
    have hlength : n ≤ (text.take e.start.toNat).length := by
      rw [List.length_take]
      omega
    -- the edits behind this one leave the text as it is up to where this one starts
    have hfront := ih hfits hrest hlater
    simp only [spliceAll, List.foldr_cons, splice] at hfront ⊢
    rw [hfront, List.append_assoc, List.take_append_of_le_length hlength, List.take_take,
      Nat.min_eq_left (by omega)]

/-- What an edit leaves of the text in front of it, and those behind it of the rest. -/
theorem drop_spliceAll_cons {e : Edit} (hfit : e.Fits text) (hfits : ∀ e ∈ es, e.Fits text)
    (hfirst : ∀ e' ∈ es, e.Before e') (hrest : es.Pairwise Before) {pos : Nat}
    (hpos : (pos : Int) ≤ e.start) :
    (spliceAll text (e :: es)).drop pos =
      slice text pos e.start ++ e.replacement ++ (spliceAll text es).drop e.stop.toNat := by
  obtain ⟨hnonneg, hordered, hinside⟩ := hfit
  have hlater : ∀ e' ∈ es, ((e.start.toNat : Nat) : Int) ≤ e'.start := by
    intro e' he'
    have : e.stop ≤ e'.start := hfirst e' he'
    omega
  have hlength : pos ≤ (text.take e.start.toNat).length := by
    rw [List.length_take]
    omega
  have hslice : slice text pos e.start = (text.take e.start.toNat).drop pos := by
    rw [← slice_natCast, Int.toNat_of_nonneg hnonneg]
  have hfront := take_spliceAll hfits hrest hlater
  simp only [spliceAll, List.foldr_cons, splice] at hfront ⊢
  rw [hfront, hslice, List.append_assoc, List.drop_append_of_le_length hlength, List.append_assoc]

/-! ## One pass over sorted edits -/

/-- Comparing each edit with the one before finds out whether each is behind all before it, and what
the pass gives is what the edits give one at a time. -/
theorem applyFrom_eq_ok_iff (hfits : ∀ e ∈ es, e.Fits text) {pos : Nat} {out : List Char} :
    applyFrom text pos es = .ok out ↔
      (∀ e ∈ es, (pos : Int) ≤ e.start) ∧ es.Pairwise Before ∧
        out = (spliceAll text es).drop pos := by
  induction es generalizing pos out with
  | nil => simp [applyFrom, spliceAll, eq_comm]
  | cons e es ih =>
    obtain ⟨hfit, hfits⟩ := List.forall_mem_cons.1 hfits
    have hstop : ((e.stop.toNat : Nat) : Int) = e.stop :=
      Int.toNat_of_nonneg (Int.le_trans hfit.nonneg hfit.ordered)
    have htail := @ih hfits e.stop.toNat
    rw [hstop] at htail
    rw [List.forall_mem_cons, List.pairwise_cons, applyFrom]
    by_cases hpos : e.start < pos
    · -- the edit begins too early
      rw [if_pos hpos]
      exact iff_of_false nofun fun h => absurd h.1.1 (Int.not_le.2 hpos)
    · rw [if_neg hpos]
      have hpos := Int.not_lt.1 hpos
      constructor
      · intro h
        cases hrest : applyFrom text e.stop es with
        | error o => simp [hrest] at h
        | ok tail =>
          obtain ⟨hfirst, hpairwise, rfl⟩ := htail.1 hrest
          rw [hrest] at h
          refine ⟨⟨hpos, fun e' he' => ?_⟩, ⟨hfirst, hpairwise⟩, ?_⟩
          · have := hfirst e' he'
            have := hfit.ordered
            omega
          · rw [drop_spliceAll_cons hfit hfits hfirst hpairwise hpos]
            exact (Except.ok.inj h).symm
      · rintro ⟨-, ⟨hfirst, hpairwise⟩, rfl⟩
        rw [htail.2 ⟨hfirst, hpairwise, rfl⟩, drop_spliceAll_cons hfit hfits hfirst hpairwise hpos]

/-- What is reported is where an edit starts that begins before the place, or before an earlier edit
has ended. -/
theorem applyFrom_eq_error {pos : Int} {o : Overlap} (h : applyFrom text pos es = .error o) :
    (∃ e ∈ es, e.start < pos ∧ o = ⟨e.start⟩) ∨
      ∃ a b, [a, b].Sublist es ∧ b.start < a.stop ∧ o = ⟨b.start⟩ := by
  induction es generalizing pos with
  | nil => simp [applyFrom] at h
  | cons e es ih =>
    rw [applyFrom] at h
    split at h
    · rename_i hlt
      exact .inl ⟨e, List.mem_cons_self, hlt, (Except.error.inj h).symm⟩
    · split at h
      · rename_i o' hrest
        obtain rfl := Except.error.inj h
        right
        -- an edit that begins before the end of this one crosses it
        rcases ih hrest with ⟨e', he', hlt, heq⟩ | ⟨a, b, hsub, hlt, heq⟩
        · exact ⟨e, e', (List.singleton_sublist.2 he').cons_cons e, hlt, heq⟩
        · exact ⟨a, b, hsub.cons e, hlt, heq⟩
      · simp at h

/-! ## Edits in any order -/

variable {edits : List Edit}

/-- There is a result if no edit starts before the end of one that is sorted before it. -/
theorem applyEdits_eq_ok_iff (hfits : ∀ e ∈ edits, e.Fits text) {out : List Char} :
    applyEdits text edits = .ok out ↔
      (inOrder edits).Pairwise Before ∧ out = spliceAll text (inOrder edits) := by
  have hperm : (inOrder edits).Perm edits := List.mergeSort_perm _ _
  have hfits' : ∀ e ∈ inOrder edits, e.Fits text := fun e he => hfits e (hperm.mem_iff.1 he)
  have hpass := @applyFrom_eq_ok_iff _ _ hfits' 0 out
  rw [applyEdits]
  refine hpass.trans ?_
  rw [List.drop_zero]
  exact and_iff_right fun e he => (hfits' e he).nonneg

/-- Edits are behind each other if none starts before the end of one that comes before it. -/
theorem pairwise_before_iff :
    es.Pairwise Before ↔ ¬∃ a b, [a, b].Sublist es ∧ b.start < a.stop := by
  rw [List.pairwise_iff_forall_sublist]
  simp only [Before, not_exists, not_and, Int.not_lt]

/-- **Edits are made all at once.** They are brought into the order of their ranges. If one of them
starts before the end of one that is sorted before it, there is no result, and the report names such
an edit; or else they can be made one at a time, from the last to the first, with the same result.
If no two have one range, it makes no difference in which order they are listed. -/
theorem applyEdits_splices (hfits : ∀ e ∈ edits, e.Fits text) :
    Arranged edits (inOrder edits) ∧
    ((∃ o, applyEdits text edits = .error o) ↔
      ∃ a b, [a, b].Sublist (inOrder edits) ∧ b.start < a.stop) ∧
    (∀ o, applyEdits text edits = .error o →
      ∃ a b, [a, b].Sublist (inOrder edits) ∧ b.start < a.stop ∧ o = ⟨b.start⟩) ∧
    ((¬∃ a b, [a, b].Sublist (inOrder edits) ∧ b.start < a.stop) →
      applyEdits text edits = .ok (spliceAll text (inOrder edits))) ∧
    ((edits.map range).Nodup → ∀ edits', edits'.Perm edits →
      applyEdits text edits' = applyEdits text edits) := by
  have hreport : ∀ o, applyEdits text edits = .error o →
      ∃ a b, [a, b].Sublist (inOrder edits) ∧ b.start < a.stop ∧ o = ⟨b.start⟩ := by
    intro o ho
    rcases applyFrom_eq_error ho with ⟨e, he, hlt, -⟩ | hreport
    · have := (hfits e ((List.mergeSort_perm _ _).mem_iff.1 he)).nonneg
      omega
    · exact hreport
  have hok : (inOrder edits).Pairwise Before →
      applyEdits text edits = .ok (spliceAll text (inOrder edits)) :=
    fun h => (applyEdits_eq_ok_iff hfits).2 ⟨h, rfl⟩
  refine ⟨arranged_inOrder edits, ⟨?_, ?_⟩, hreport, fun h => hok (pairwise_before_iff.2 h), ?_⟩
  · rintro ⟨o, ho⟩
    obtain ⟨a, b, hsub, hlt, -⟩ := hreport o ho
    exact ⟨a, b, hsub, hlt⟩
  · intro hex
    cases happly : applyEdits text edits with
    | error o => exact ⟨o, rfl⟩
    | ok out => exact absurd hex (pairwise_before_iff.1 ((applyEdits_eq_ok_iff hfits).1 happly).1)
  · intro hnodup edits' hperm
    have hsorted : inOrder edits' = inOrder edits :=
      inOrder_eq ((List.mergeSort_perm _ _).trans hperm.symm)
        ((hperm.map range).nodup_iff.2 hnodup) (pairwise_inOrder edits)
    rw [applyEdits, applyEdits]
    exact congrArg (applyFrom text 0) hsorted

/-- Edits that touch each other, two of them insertions at one place. -/
def touching : List Edit := [⟨3, 3, ['y']⟩, ⟨1, 3, ['-']⟩, ⟨3, 3, ['z']⟩]

/-- Two edits that have a character in common. -/
def crossing : List Edit := [⟨2, 4, []⟩, ⟨0, 3, ['x']⟩]

theorem applyEdits_splices_touching :
    (∀ e ∈ touching, e.Fits ['a', 'b', 'c', 'd']) ∧
    (¬∃ a b, [a, b].Sublist (inOrder touching) ∧ b.start < a.stop) ∧
    applyEdits ['a', 'b', 'c', 'd'] touching = .ok ['a', '-', 'y', 'z', 'd'] ∧
    (∀ e ∈ crossing, e.Fits ['a', 'b', 'c', 'd']) ∧ (crossing.map range).Nodup ∧
    crossing.reverse.Perm crossing ∧
    (∃ o, applyEdits ['a', 'b', 'c', 'd'] crossing = .error o) ∧
    applyEdits ['a', 'b', 'c', 'd'] crossing.reverse
      = applyEdits ['a', 'b', 'c', 'd'] crossing := by
  have htouching : ∀ e ∈ touching, e.Fits ['a', 'b', 'c', 'd'] := by
    simp only [touching, List.forall_mem_cons]
    exact ⟨⟨by decide, by decide, by decide⟩, ⟨by decide, by decide, by decide⟩,
      ⟨by decide, by decide, by decide⟩, nofun⟩
  have hcrossing : ∀ e ∈ crossing, e.Fits ['a', 'b', 'c', 'd'] := by
    simp only [crossing, List.forall_mem_cons]
    exact ⟨⟨by decide, by decide, by decide⟩, ⟨by decide, by decide, by decide⟩, nofun⟩
  have hsorted : inOrder touching = [⟨1, 3, ['-']⟩, ⟨3, 3, ['y']⟩, ⟨3, 3, ['z']⟩] := by
    simp [inOrder, touching, List.mergeSort, List.MergeSort.Internal.splitInTwo, precedes]
  have hsorted' : inOrder crossing = [⟨0, 3, ['x']⟩, ⟨2, 4, []⟩] := by
    simp [inOrder, crossing, List.mergeSort, List.MergeSort.Internal.splitInTwo, precedes]
  have happly := applyEdits_splices htouching
  have hcross := applyEdits_splices hcrossing
  rw [hsorted] at happly ⊢
  rw [hsorted'] at hcross
  have hapart : ¬∃ a b : Edit, [a, b].Sublist
      [⟨1, 3, ['-']⟩, ⟨3, 3, ['y']⟩, ⟨3, 3, ['z']⟩] ∧ b.start < a.stop := by
    rw [← pairwise_before_iff]
    simp [Before]
  have hnodup : (crossing.map range).Nodup := by decide
  exact ⟨htouching, hapart, happly.2.2.2.1 hapart, hcrossing, hnodup, List.reverse_perm _,
    hcross.2.1.2 ⟨_, _, .refl _, by decide⟩, hcross.2.2.2.2 hnodup _ (List.reverse_perm _)⟩

end Edit

end LocalizedKeys
