import LocalizedKeys.Proofs.ExpressionTexts
import LocalizedKeys.Proofs.Tokens

/-!
# Where an expression ends, and what is kept of it

An expression goes through whole tokens until the first stop character that stands outside of
brackets, literals and comments, an unmatched closing bracket, or the end of the text. The brackets
it has passed match. Its text is what it has passed up to the last token that counts, a literal or a
character that is no white space (`ScannedAs`).

A step of the pass changes what is open, where the text ends so far and where the pass is. So each of
these facts is an induction on the tokens. The text alone is scanned to its end, and stays as it is
(`scanExpression_scanned`).
-/

namespace LocalizedKeys.Swift

open Text Cursor

/-- What is passed by an expression with the given text: the tokens `counted`, up to a place `last`,
and the tokens `skipped` behind them. -/
structure ScannedAs (stops : List Char) (c : Cursor) (text : String) (c' : Cursor)
    (counted skipped : List Token) (last : Cursor) : Prop where
  upTo : Lexes c counted last
  behind : Lexes last skipped c'
  /-- The brackets match, each with one of its kind. -/
  balanced : Balanced (counted ++ skipped)
  /-- With balanced tokens before it, a character stands outside of brackets. -/
  noStop : ∀ {before after : List Token} {ch : Char},
    counted ++ skipped = before ++ .character ch :: after → Balanced before → ch ∉ stops
  /-- A closing bracket at the end matches nothing that was passed, whatever follows. -/
  ends : c'.rest = [] ∨ ∃ ch, c'.next? = some ch ∧
    (ch ∈ stops ∨ isClosingBracket ch = true ∧
      ∀ after, ¬Balanced (counted ++ skipped ++ .character ch :: after))
  lastCounts : ∀ t ∈ counted.getLast?, t.counts = true
  skippedCounts : ∀ t ∈ skipped, t.counts = false
  text_eq : text = String.ofList (trim (c.slice last.pos))

namespace ScansTokens

variable {stops opened : List Char} {mark mark' : Nat} {c c' : Cursor} {ts : List Token}

/-! ## The end and what stands before it -/

theorem endsExpression (h : ScansTokens stops opened mark c ts mark' c') :
    EndsExpression stops c'.rest := by
  induction h with
  | stop hends => exact hends
  | token _ _ _ _ ih => exact ih

/-- No token begins with a stop character if those before it close what is open. -/
theorem noStop (h : ScansTokens stops opened mark c ts mark' c') {before after : List Token}
    {t : Token} (hts : ts = before ++ t :: after) (hbefore : Swift.closes opened before = true) :
    ∀ ch ∈ t.text.head?, stops.contains ch = false := by
  induction h generalizing before with
  | stop => simp at hts
  | @token opened opened' mark mark' c c₁ c' t₁ ts hgoes htoken hafter _ ih =>
    cases before with
    | nil =>
      obtain ⟨rfl, rfl⟩ := List.cons.inj hts
      intro ch hch
      rw [head?_of_readToken htoken] at hch
      have hgoesOn := hgoes ch hch
      have hempty : opened.isEmpty = true := hbefore
      rw [GoesOn, hempty, Bool.true_and, Bool.or_eq_false_iff] at hgoesOn
      exact hgoesOn.1
    | cons t₂ before =>
      obtain ⟨rfl, hrest⟩ := List.cons.inj hts
      rw [closes_bracketsAfter hafter] at hbefore
      exact ih hrest hbefore

/-! ## The mark -/

/-- The mark is behind the last token that counts, and stays where it was if there is none. -/
theorem marks (h : ScansTokens stops opened mark c ts mark' c') :
    ∃ counted skipped last, ts = counted ++ skipped ∧ Lexes c counted last ∧
      Lexes last skipped c' ∧ (∀ t ∈ counted.getLast?, t.counts = true) ∧
      (∀ t ∈ skipped, t.counts = false) ∧
      mark' = if counted = [] then mark else last.pos := by
  induction h with
  | @stop mark c _ => exact ⟨[], [], c, rfl, .nil, .nil, by simp, by simp, rfl⟩
  | @token opened opened' mark mark' c c₁ c' t ts _ htoken _ _ ih =>
    obtain ⟨counted, skipped, last, rfl, hcounted, hskipped, hlast, hnone, hmark⟩ := ih
    by_cases hempty : counted = []
    · -- nothing counts from here on, so that it is this token or none
      subst hempty
      cases hcounted
      rw [if_pos rfl] at hmark
      cases hcounts : t.counts with
      | true =>
        rw [hcounts, if_pos rfl] at hmark
        refine ⟨[t], skipped, c₁, rfl, .cons htoken .nil, hskipped, ?_, hnone, ?_⟩
        · intro t' ht'
          obtain rfl := Option.some.inj ht'
          exact hcounts
        · rw [hmark, if_neg (List.cons_ne_nil t [])]
      | false =>
        rw [hcounts, if_neg Bool.false_ne_true] at hmark
        refine ⟨[], t :: skipped, c, rfl, .nil, .cons htoken hskipped, by simp, ?_, hmark⟩
        exact List.forall_mem_cons.2 ⟨hcounts, hnone⟩
    · rw [if_neg hempty] at hmark
      refine ⟨t :: counted, skipped, last, rfl, .cons htoken hcounted, hskipped, ?_, hnone, ?_⟩
      · obtain ⟨t₁, counted, rfl⟩ := List.exists_cons_of_ne_nil hempty
        rw [List.getLast?_cons_cons]
        exact hlast
      · rw [hmark, if_neg (List.cons_ne_nil t counted)]

end ScansTokens

/-! ## Expressions -/

/-- A closing bracket behind balanced tokens has none to match. -/
theorem Balanced.not_balanced_closing {ts : List Token} (h : Balanced ts) {ch : Char}
    (hch : isClosingBracket ch = true) (after : List Token) :
    ¬Balanced (ts ++ .character ch :: after) := by
  intro hbalanced
  have hcloses := balanced_iff.1 hbalanced
  obtain ⟨-, -, hnone, -⟩ := plain_of_isClosingBracket hch
  rw [h.closes_append, closes, hnone] at hcloses
  simp [hch] at hcloses

theorem scannedAs_of_scanExpression {stops : List Char} {c c' : Cursor} {text : String}
    (h : scanExpression stops c = .ok (text, c')) :
    ∃ counted skipped last, ScannedAs stops c text c' counted skipped last := by
  unfold scanExpression at h
  split at h
  · rename_i mark c₁ hscan
    obtain ⟨rfl, rfl⟩ := Prod.mk.inj (Except.ok.inj h)
    obtain ⟨ts, hts⟩ := scansTokens_expression hscan
    have hbalanced := balanced_iff.2 hts.closes
    obtain ⟨counted, skipped, last, rfl, hcounted, hskipped, hlast, hnone, hmark⟩ := hts.marks
    refine ⟨counted, skipped, last,
      ⟨hcounted, hskipped, hbalanced, fun hsplit hbefore hmem => ?_, ?_, hlast, hnone, ?_⟩⟩
    · have := hts.noStop hsplit (balanced_iff.1 hbefore) _ rfl
      simp [hmem] at this
    · cases hrest : c₁.rest with
      | nil => exact .inl rfl
      | cons ch rest =>
        refine .inr ⟨ch, by rw [Cursor.next?, hrest]; rfl, ?_⟩
        have hends := hts.endsExpression ch (by rw [hrest]; rfl)
        rw [Bool.or_eq_true, List.contains_iff_mem] at hends
        exact hends.imp_right fun hch => ⟨hch, hbalanced.not_balanced_closing hch⟩
    · -- the mark begins at the start, which is the last place if nothing counts
      by_cases hempty : counted = []
      · subst hempty
        cases hcounted
        rw [hmark, if_pos rfl]
      · rw [hmark, if_neg hempty]
  · simp at h

/-- **An expression ends at the first stop.** What it has passed are literals, comments and other
characters; brackets among them match by kind, and no stop character stands outside of brackets.
It ends with the text, at a stop character, or at a closing bracket that matches nothing. Its text is
the source from its start to the last literal or character that is no white space, without the white
space at its ends. That text alone is scanned to its end with the same stop characters, and given
back unchanged. -/
theorem scanExpression_scanned {stops : List Char} {c c' : Cursor} {text : String}
    (h : scanExpression stops c = .ok (text, c')) :
    (∃ counted skipped last, ScannedAs stops c text c' counted skipped last) ∧
      scanExpression stops (.start text.toList) = .ok (text, ⟨text.toList.length, []⟩) := by
  obtain ⟨hpasses, hhead, hlast⟩ := passes_text_of_scan h
  have hend : EndsExpression stops [] := fun ch hch => absurd hch nofun
  have hscan := scanExpression_text hpasses hend 0
  rw [List.append_nil, List.take_length, trim_eq hhead hlast, String.ofList_toList,
    Nat.zero_add] at hscan
  exact ⟨scannedAs_of_scanExpression h, hscan⟩

/-- An argument with a call in it, a literal with an interpolation, and a comment behind it. -/
def callSource : List Char := "f( g(a[1], \"x, \\(b(2, 3))\") /* , */ , c)".toList

theorem scanExpression_scanned_callSource :
    (∃ counted skipped last, ScannedAs [',', ')'] (seek callSource 2)
        "g(a[1], \"x, \\(b(2, 3))\")" ⟨36, ", c)".toList⟩ counted skipped last) ∧
      scanExpression [',', ')'] (.start "g(a[1], \"x, \\(b(2, 3))\")".toList)
        = .ok ("g(a[1], \"x, \\(b(2, 3))\")", ⟨24, []⟩) := by
  have hscan : scanExpression [',', ')'] (seek callSource 2)
      = .ok ("g(a[1], \"x, \\(b(2, 3))\")", ⟨36, ", c)".toList⟩) := by decide +kernel
  exact scanExpression_scanned hscan

end LocalizedKeys.Swift
