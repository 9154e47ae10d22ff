import LocalizedKeys.Proofs.Splices

/-!
# Edits in their order

Edits that lie one behind the other can all be applied, whatever the order in which they are
listed: sorting brings them into the order of their places, which is the only one there is
(`Edit.inOrder_eq`), and then each begins where the one before has ended or later. `Replaces` says
of two texts that one is the other with some ranges replaced; that the ranges come in order and do
not overlap is part of its shape.
-/

namespace LocalizedKeys

/-- A range of a text and what comes in its place. -/
structure Replacement where
  start : Nat
  removed : List Char
  inserted : List Char
deriving DecidableEq, Repr

/-- A text that begins at offset `pos` becomes another one by replacing ranges; all characters
between them are kept. -/
inductive Replaces : Nat → List Char → List Replacement → List Char → Prop
  | nil {pos : Nat} {text : List Char} : Replaces pos text [] text
  | cons {pos : Nat} {kept rest out : List Char} {r : Replacement} {rs : List Replacement} :
      r.start = pos + kept.length →
      Replaces (r.start + r.removed.length) rest rs out →
      Replaces pos (kept ++ (r.removed ++ rest)) (r :: rs) (kept ++ (r.inserted ++ out))

/-- What an edit does to a text. -/
def Edit.on (text : List Char) (e : Edit) : Replacement :=
  ⟨e.start.toNat, slice text e.start e.stop, e.replacement⟩

/-- The edits lie between two offsets, each behind the one before and none of them empty. -/
inductive Ordered : Nat → List Edit → Nat → Prop
  | nil {lo hi : Nat} : lo ≤ hi → Ordered lo [] hi
  | cons {lo hi start stop : Nat} {e : Edit} {es : List Edit} :
      e.start = start → e.stop = stop → lo ≤ start → start < stop → Ordered stop es hi →
      Ordered lo (e :: es) hi

namespace Ordered

variable {lo mid hi : Nat} {es es' : List Edit}

theorem le (h : Ordered lo es hi) : lo ≤ hi := by
  induction h with
  | nil h => exact h
  | cons _ _ h₁ h₂ _ ih => omega

theorem mono {lo' : Nat} (h : Ordered lo es hi) (hlo : lo' ≤ lo) : Ordered lo' es hi := by
  cases h with
  | nil h => exact .nil (Nat.le_trans hlo h)
  | cons hstart hstop hle hlt h => exact .cons hstart hstop (Nat.le_trans hlo hle) hlt h

theorem mono_hi {hi' : Nat} (h : Ordered lo es hi) (hhi : hi ≤ hi') : Ordered lo es hi' := by
  induction h with
  | nil h => exact .nil (Nat.le_trans h hhi)
  | cons hstart hstop hle hlt _ ih => exact .cons hstart hstop hle hlt (ih hhi)

theorem append (h : Ordered lo es mid) (h' : Ordered mid es' hi) :
    Ordered lo (es ++ es') hi := by
  induction h with
  | nil hle => exact h'.mono hle
  | cons hstart hstop hle hlt _ ih => exact .cons hstart hstop hle hlt (ih h')

theorem single {e : Edit} {start stop : Nat} (hstart : e.start = start) (hstop : e.stop = stop)
    (hlo : lo ≤ start) (hlt : start < stop) (hhi : stop ≤ hi) : Ordered lo [e] hi :=
  .cons hstart hstop hlo hlt (.nil hhi)

theorem start_ge (h : Ordered lo es hi) : ∀ e ∈ es, (lo : Int) ≤ e.start := by
  induction h with
  | nil => simp
  | cons hstart _ hle hlt _ ih =>
    intro e he
    rcases List.mem_cons.1 he with rfl | he
    · omega
    · have := ih e he
      omega

/-- The edits are sorted, and none of two of them could stand in the place of the other. -/
theorem pairwise (h : Ordered lo es hi) : es.Pairwise fun a b => a.start < b.start := by
  induction h with
  | nil => exact .nil
  | cons hstart hstop _ hlt h ih =>
    refine .cons (fun e he => ?_) ih
    have := h.start_ge e he
    omega

/-- However the edits are listed, sorting them brings them into their order. -/
theorem mergeSort_eq (h : Ordered lo es hi) (hperm : es'.Perm es) :
    es'.mergeSort Edit.precedes = es := by
  have hnodup : (es.map Edit.range).Nodup := by
    refine List.pairwise_map.2 (h.pairwise.imp fun {a b} hab hrange => ?_)
    have : a.start = b.start := congrArg Prod.fst hrange
    omega
  have hsorted : es.Pairwise fun a b => Edit.precedes a b = true := by
    refine h.pairwise.imp fun {a b} hab => ?_
    simp only [Edit.precedes, decide_eq_true_eq]
    omega
  exact Edit.inOrder_eq hperm.symm ((hperm.map _).nodup_iff.2 hnodup) hsorted

/-- Edits in their order can be applied, and replace their ranges. -/
theorem applyFrom {text : List Char} (h : Ordered lo es hi) (hhi : hi ≤ text.length) :
    ∃ out, Edit.applyFrom text lo es = .ok out ∧
      Replaces lo (text.drop lo) (es.map (Edit.on text)) out := by
  induction h with
  | nil => exact ⟨_, by rw [Edit.applyFrom, offsetIn_natCast], .nil⟩
  | @cons lo hi start stop e es hstart hstop hle hlt h ih =>
    obtain ⟨out, hout, hreplaces⟩ := ih hhi
    have hstop' : stop ≤ text.length := Nat.le_trans h.le hhi
    have hkept : slice text lo e.start = (text.drop lo).take (start - lo) := by
      rw [hstart, slice_natCast, List.drop_take]
    have hremoved : slice text e.start e.stop = (text.drop start).take (stop - start) := by
      rw [hstart, hstop, slice_natCast, List.drop_take]
    have hsplit : text.drop lo = slice text lo e.start ++ (slice text e.start e.stop
        ++ text.drop stop) := by
      rw [hkept, hremoved]
      have h₁ := List.take_append_drop (start - lo) (text.drop lo)
      have h₂ := List.take_append_drop (stop - start) (text.drop start)
      rw [List.drop_drop, Nat.add_sub_of_le hle] at h₁
      rw [List.drop_drop, Nat.add_sub_of_le (Nat.le_of_lt hlt)] at h₂
      rw [h₂, h₁]
    refine ⟨slice text lo e.start ++ e.replacement ++ out, ?_, ?_⟩
    · rw [Edit.applyFrom, if_neg (by omega)]
      simp only [hstop, hout]
    · rw [hsplit, List.map_cons, List.append_assoc]
      have hplace : (Edit.on text e).start = start := by simp [Edit.on, hstart]
      have hkeptLength : (slice text lo e.start).length = start - lo := by
        rw [hkept, List.length_take, List.length_drop]
        omega
      have hremovedLength : (Edit.on text e).removed.length = stop - start := by
        rw [Edit.on, hremoved, List.length_take, List.length_drop]
        omega
      refine .cons (r := Edit.on text e) ?_ ?_
      · rw [hplace, hkeptLength]
        omega
      · rw [hplace, hremovedLength, Nat.add_sub_of_le (Nat.le_of_lt hlt)]
        exact hreplaces

/-- Edits that have an order can be applied in any. -/
theorem applyEdits {text : List Char} (h : Ordered 0 es text.length) (hperm : es'.Perm es) :
    ∃ out, LocalizedKeys.applyEdits text es' = .ok out ∧
      Replaces 0 text (es.map (Edit.on text)) out := by
  obtain ⟨out, hout, hreplaces⟩ := h.applyFrom (Nat.le_refl _)
  refine ⟨out, ?_, hreplaces⟩
  rw [LocalizedKeys.applyEdits, h.mergeSort_eq hperm]
  exact hout

end Ordered

end LocalizedKeys
