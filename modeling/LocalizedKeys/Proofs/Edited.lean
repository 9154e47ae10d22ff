import LocalizedKeys.Proofs.Cuts
import LocalizedKeys.Proofs.Moved

/-!
# A text with edits, seen from one of its places

Edits that lie behind a place of a text leave everything up to the first of them as it is.
`editedFrom` is the text from a place on with such edits applied. It goes on as before up to the
start of the first edit (`firstStart`), and from there on it is `editedTail`.

The edits of an expansion begin in front of an attribute or a closing brace, or of layout there, and
put a line feed first (`Marked`). So the place where the first of them begins is a seam: cursors in
front of it are taken from the text to the edited one by `Follows.seam`, and trivia that ends at or
behind it stays trivia (`Follows.trivia`).
-/

namespace LocalizedKeys.Expansion

open Text Swift Cursor

/-- Where the first of sorted edits begins. -/
def firstStart (text : List Char) : List Edit → Nat
  | [] => text.length
  | e :: _ => e.start.toNat

/-- The text from the start of the first of sorted edits on, with all of them applied. -/
def editedTail (text : List Char) : List Edit → List Char
  | [] => []
  | e :: es =>
    e.replacement ++ ((text.take (firstStart text es)).drop e.stop.toNat ++ editedTail text es)

/-- The text from an offset on with sorted edits applied that lie behind it. -/
def editedFrom (text : List Char) (es : List Edit) (p : Nat) : List Char :=
  (text.take (firstStart text es)).drop p ++ editedTail text es

variable {text : List Char} {es : List Edit} {p q : Nat}

theorem editedTail_cons (e : Edit) (es : List Edit) :
    editedTail text (e :: es) = e.replacement ++ editedFrom text es e.stop.toNat := rfl

/-- In an edit there is nothing of the text. -/
theorem editedFrom_of_le (h : firstStart text es ≤ p) :
    editedFrom text es p = editedTail text es := by
  rw [editedFrom, List.drop_eq_nil_of_le, List.nil_append]
  exact Nat.le_trans (List.length_take_le _ _) h

theorem firstStart_le (h : Ordered p es text.length) : firstStart text es ≤ text.length := by
  cases h with
  | nil => exact Nat.le_refl _
  | cons hstart _ _ hlt h =>
    have := h.le
    rw [firstStart, hstart]
    omega

theorem Ordered.le_firstStart (h : Ordered p es text.length) : p ≤ firstStart text es := by
  cases h with
  | nil hle => exact hle
  | cons hstart _ hle _ _ =>
    rw [firstStart, hstart]
    exact hle

/-- This is what applying the edits gives. -/
theorem applyFrom_eq (h : Ordered p es text.length) :
    Edit.applyFrom text p es = .ok (editedFrom text es p) := by
  generalize hhi : text.length = hi at h
  induction h with
  | nil =>
    rw [Edit.applyFrom, offsetIn_natCast, editedFrom, editedTail, firstStart, List.take_length,
      List.append_nil]
  | @cons lo hi start stop e es hstart hstop hle hlt h ih =>
    subst hhi
    have htail := ih rfl
    rw [Edit.applyFrom, if_neg (by omega), hstop, htail]
    simp only [editedFrom, editedTail, firstStart, hstart, hstop, slice_natCast, List.append_assoc,
      Int.toNat_natCast]

/-! ## Places behind which edits follow -/

/-- The edit begins in front of an attribute or a closing brace, or of layout there, and begins a
new line unless it is at the start of the text. -/
structure Marked (text : List Char) (e : Edit) : Prop where
  place : ∃ lay ch rest, text.drop e.start.toNat = lay ++ ch :: rest ∧ IsLayoutText lay ∧
    (ch = '@' ∨ ch = '\x7d')
  newLine : e.start = 0 ∨ e.replacement.head? = some '\n'

/-- The edits lie behind the offset, or begin in layout in front of it. -/
structure Follows (text : List Char) (es : List Edit) (p : Nat) : Prop where
  ordered : Ordered (lastBoundary text p) es text.length
  marked : ∀ e ∈ es, Marked text e

namespace Follows

theorem mono (h : Follows text es q) (hle : p ≤ q) (hq : q ≤ text.length) : Follows text es p :=
  ⟨h.ordered.mono ((boundary_lastBoundary (Nat.le_trans hle hq)).le_lastBoundary
    (Nat.le_trans (Nat.sub_le _ _) hle) hq), h.marked⟩

/-- Where something other than layout comes last the edits begin behind it. -/
theorem boundary_le (h : Follows text es p) (hq : Boundary text q) (hle : q ≤ p)
    (hp : p ≤ text.length) : q ≤ firstStart text es :=
  Nat.le_trans (hq.le_lastBoundary hle hp) (Ordered.le_firstStart h.ordered)

/-- What lies between the start of the edits and a place behind it is layout. -/
theorem layout (h : Follows text es p) (hp : p ≤ text.length) :
    IsLayoutText ((text.take p).drop (firstStart text es)) := by
  obtain ⟨before, hbefore, hsum, hdrop⟩ := lastBoundary_spec hp
  have hall : (text.take p).drop (lastBoundary text p) = before := by
    rw [List.drop_take, hdrop, show p - lastBoundary text p = before.length by omega,
      List.take_left]
  have hle := Ordered.le_firstStart h.ordered
  rw [← Nat.add_sub_of_le hle, ← List.drop_drop, hall]
  exact fun ch hch => hbefore ch (List.mem_of_mem_drop hch)

theorem softHead (h : Follows text es p) : SoftHead (text.drop (firstStart text es)) := by
  cases hes : es with
  | nil =>
    intro ch hch
    rw [firstStart, List.drop_length] at hch
    simp at hch
  | cons e es' =>
    obtain ⟨lay, ch, rest, hdrop, hlay, hmark⟩ := (h.marked e (by simp [hes])).place
    intro x hx
    rw [firstStart, hdrop] at hx
    cases lay with
    | nil =>
      obtain rfl := Option.some.inj hx
      rcases hmark with rfl | rfl <;> decide
    | cons y lay =>
      obtain rfl := Option.some.inj hx
      exact isSoft_of_isLayout (hlay _ List.mem_cons_self)

theorem atLineEnd (h : Follows text es p) (hpos : 0 < firstStart text es) :
    AtLineEnd (editedTail text es) := by
  cases hes : es with
  | nil => exact atLineEnd_nil
  | cons e es' =>
    subst hes
    rw [firstStart] at hpos
    intro ch hch
    rcases (h.marked e List.mem_cons_self).newLine with hzero | hnew
    · simp [hzero] at hpos
    · rw [editedTail_cons, List.head?_append, hnew] at hch
      obtain rfl := Option.some.inj hch
      decide

/-! ## The seam -/

/-- What is in front of the edits is taken to the edited text. -/
def seam (h : Follows text es p) (hpos : 0 < firstStart text es) : Carrier :=
  seaming 0 h.softHead (h.atLineEnd hpos)

variable {c c₁ : Cursor}

theorem rest_eq (hc : c.At text) (hle : c.pos ≤ q) :
    c.rest = (text.take q).drop c.pos ++ text.drop q := by
  have hlen : (text.take q).drop c.pos ++ text.drop q = text.drop c.pos := by
    conv => rhs; rw [← List.take_append_drop q text]
    rw [List.drop_append]
    congr 1
    rw [List.length_take]
    rcases Nat.le_total q text.length with h | h
    · rw [Nat.min_eq_left h, Nat.sub_eq_zero_of_le hle, List.drop_zero]
    · rw [List.drop_eq_nil_of_le h, List.drop_nil]
  rw [hc.2, hlen]

/-- The text from the edits on goes on with layout up to the place behind which they follow. -/
theorem drop_firstStart (h : Follows text es c.pos) (hc : c.At text)
    (hle : firstStart text es ≤ c.pos) : text.drop (firstStart text es)
      = (text.take c.pos).drop (firstStart text es) ++ c.rest := by
  have := rest_eq (c := ⟨firstStart text es, text.drop (firstStart text es)⟩)
    ⟨firstStart_le h.ordered, rfl⟩ hle
  rwa [← hc.2] at this

theorem known (h : Follows text es p) (hpos : 0 < firstStart text es) (hc : c.At text)
    (hle : c.pos ≤ firstStart text es) : (h.seam hpos).Known c :=
  ⟨_, rest_eq hc hle⟩

theorem carry_eq (h : Follows text es p) (hpos : 0 < firstStart text es) (hc : c.At text)
    (hle : c.pos ≤ firstStart text es) :
    (h.seam hpos).carry c = ⟨c.pos, editedFrom text es c.pos⟩ :=
  seamed_rest (rest_eq hc hle)

theorem pos_of_atSeam (h : Follows text es p) {hpos : 0 < firstStart text es} (hc : c.At text)
    (hseam : (h.seam hpos).AtSeam c) : c.pos = firstStart text es := by
  have hrest : c.rest = text.drop (firstStart text es) := hseam
  have hle := firstStart_le h.ordered
  have hlen := hc.pos_add_length
  rw [hrest, List.length_drop] at hlen
  omega

/-- In front of the edits the text goes on as before. -/
theorem inside (h : Follows text es p) (hc : c.At text) (hlt : c.pos < firstStart text es) :
    (h.seam (Nat.zero_lt_of_lt hlt)).Inside c :=
  .of_not_atSeam (h.known _ hc (Nat.le_of_lt hlt)) fun hseam => by
    have := h.pos_of_atSeam hc hseam
    omega

theorem next? (h : Follows text es p) (hc : c.At text) (hlt : c.pos < firstStart text es) :
    (editedFrom text es c.pos).head? = c.next? := by
  have := Carrier.next? (h.inside hc hlt).1 fun hseam => by
    have := h.pos_of_atSeam hc hseam
    omega
  rwa [h.carry_eq _ hc (Nat.le_of_lt hlt)] at this

/-- The character in front of the edits stays where it is. -/
theorem cons (hc : c.At text) (hlt : c.pos < firstStart text es) {ch : Char}
    (hnext : c.next? = some ch) :
    editedFrom text es c.pos = ch :: editedFrom text es (c.pos + 1) := by
  have hget : (text.take (firstStart text es))[c.pos]? = some ch := by
    rw [List.getElem?_take, if_pos hlt]
    rw [Cursor.next?, hc.2, List.head?_drop] at hnext
    exact hnext
  obtain ⟨hlength, hget⟩ := List.getElem?_eq_some_iff.1 hget
  rw [editedFrom, List.drop_eq_getElem_cons hlength, hget, List.cons_append]
  rfl

theorem solid (h : Follows text es p) (hc : c.At text) (hlt : c.pos < firstStart text es)
    (hsolid : Solid c.rest) : Solid (editedFrom text es c.pos) := by
  have htrivia := Carrier.trivia (skipTrivia_solid hsolid c.pos) (h.inside hc hlt)
  obtain ⟨w, hmoves, -, hsolid'⟩ := skipTrivia_spec htrivia
  have hcarry := h.carry_eq (Nat.zero_lt_of_lt hlt) hc (Nat.le_of_lt hlt)
  rw [show (⟨c.pos, c.rest⟩ : Cursor) = c from rfl, hcarry] at hsolid'
  exact hsolid'

/-- Trivia in front of a place is trivia in the edited text, and may end at an edit there. -/
theorem trivia (h : Follows text es c₁.pos) (hc : c.At text) (htrivia : skipTrivia c = .ok c₁) :
    ∃ w, editedFrom text es c.pos = w ++ editedFrom text es c₁.pos ∧
      Trivia w (editedFrom text es c₁.pos) := by
  have hreaches := reaches_skipTrivia htrivia
  have hc₁ := hreaches.at_of hc
  obtain ⟨w, hmoves, hw, -⟩ := skipTrivia_spec htrivia
  have hle := hreaches.pos_le
  rcases Nat.lt_or_ge c.pos (firstStart text es) with hlt | hge
  · have hpos := Nat.zero_lt_of_lt hlt
    rcases Nat.lt_or_ge c₁.pos (firstStart text es) with hlt₁ | hge₁
    · have hin := h.inside hc₁ hlt₁
      have hmoves' := (h.seam hpos).moves hmoves hin.1
      have hw' := hw.seam (Carrier.lineEnd hin.1)
      rw [h.carry_eq hpos hc (Nat.le_of_lt hlt), h.carry_eq hpos hc₁ (Nat.le_of_lt hlt₁)] at hmoves'
      rw [h.carry_eq hpos hc₁ (Nat.le_of_lt hlt₁)] at hw'
      exact ⟨w, hmoves'.1, hw'⟩
    · -- the edits begin in the trivia
      have hsplit : w = (text.take (firstStart text es)).drop c.pos
          ++ (text.take c₁.pos).drop (firstStart text es) := by
        have hrest := hmoves.1
        rw [rest_eq hc (Nat.le_of_lt hlt), h.drop_firstStart hc₁ hge₁, ← List.append_assoc] at hrest
        exact (List.append_cancel_right hrest).symm
      rw [hsplit] at hw
      refine ⟨(text.take (firstStart text es)).drop c.pos, ?_, ?_⟩
      · rw [editedFrom_of_le hge₁]
        rfl
      · rw [editedFrom_of_le hge₁]
        exact hw.cut (h.layout hc₁.1) (h.atLineEnd hpos)
  · refine ⟨[], ?_, .nil⟩
    rw [editedFrom_of_le hge, editedFrom_of_le (Nat.le_trans hge hle), List.nil_append]

end Follows

end LocalizedKeys.Expansion
