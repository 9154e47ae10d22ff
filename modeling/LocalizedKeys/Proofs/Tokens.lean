import LocalizedKeys.Proofs.Frames
import LocalizedKeys.Proofs.Pieces
import LocalizedKeys.Proofs.Placed

/-!
# Sources as tokens

A source can be taken apart without knowing what a declaration is: into string literals, comments,
and single characters (`tokens`). What stands between two brackets that match is `Balanced` if all
brackets in there match as well; those inside of literals and comments are none.

The readers of declarations know of no tokens. Each of them passes names, trivia, expressions and
single characters in an order of its own. `Covers c c'` says that a reader which got from `c` to
`c'` has passed whole tokens, balanced among themselves. It is shown here for the readers that all
others are made of.
-/

namespace LocalizedKeys.Swift

open Text Cursor

/-! ## Tokens -/

/-- A part of a source. -/
inductive Token where
  | literal (text : List Char)
  | comment (text : List Char)
  | character (c : Char)
deriving DecidableEq, Repr

namespace Token

/-- The characters of a token. -/
def text : Token → List Char
  | literal text => text
  | comment text => text
  | character c => [c]

/-- Whether a token is a bracket. What looks like one in a literal or a comment is none. -/
def isBracket : Token → Bool
  | character c => (closingBracket? c).isSome || isClosingBracket c
  | _ => false

/-- Whether the text of an expression reaches to the end of a token: it leaves out comments and
blanks that nothing else follows. -/
def counts : Token → Bool
  | literal _ => true
  | comment _ => false
  | character c => !isSpace c

/-- The brackets that wait to be closed after a token. -/
def bracketsAfter (t : Token) (opened : List Char) (pos : Nat) : Except SyntaxError (List Char) :=
  match t with
  | character ch => Swift.bracketsAfter opened ch pos
  | _ => .ok opened

end Token

/-- The token at a cursor, and the place after it. -/
def readToken (c : Cursor) : Except SyntaxError (Token × Cursor) :=
  match c.rest with
  | '/' :: '/' :: rest =>
    .ok (.comment (c.rest.take (lineLength rest + 2)), c.advance (lineLength rest + 2))
  | '/' :: '*' :: rest =>
    match commentLength? 1 0 rest with
    | some n => .ok (.comment (c.rest.take (n + 2)), c.advance (n + 2))
    | none => .error (.unterminated .blockComment c.pos)
  | ch :: rest =>
    if opensLiteral ch rest then
      match skipStringLiteral c with
      | .ok c' => .ok (.literal (c.slice c'.pos), c')
      | .error e => .error e
    else .ok (.character ch, c.advance 1)
  | [] => .error (.unexpectedEnd c.pos)

theorem lineLength_le (cs : List Char) : lineLength cs ≤ cs.length :=
  (List.takeWhile_prefix _).length_le

/-- A token is what lies between the places before and after it, and it is not empty. -/
theorem readToken_spec {c c' : Cursor} {t : Token} (h : readToken c = .ok (t, c')) :
    c.Moves t.text c' ∧ c'.rest.length < c.rest.length := by
  unfold readToken at h
  split at h
  · rename_i rest hrest
    obtain ⟨rfl, rfl⟩ := Prod.mk.inj (Except.ok.inj h)
    have hle := lineLength_le rest
    have hlength : c.rest.length = rest.length + 2 := by rw [hrest]; rfl
    exact ⟨moves_advance (by omega), by rw [Cursor.length_advance]; omega⟩
  · rename_i rest hrest
    have hlength : c.rest.length = rest.length + 2 := by rw [hrest]; rfl
    split at h
    · rename_i n hn
      obtain ⟨rfl, rfl⟩ := Prod.mk.inj (Except.ok.inj h)
      obtain ⟨k, hk, hle, -⟩ := commentLength?_take hn
      exact ⟨moves_advance (by omega), by rw [Cursor.length_advance]; omega⟩
    · simp at h
  · rename_i ch rest _ _ hrest
    have hlength : c.rest.length = rest.length + 1 := by rw [hrest]; rfl
    split at h
    · split at h
      · rename_i hskip
        obtain ⟨rfl, rfl⟩ := Prod.mk.inj (Except.ok.inj h)
        obtain ⟨⟨w, hmoves⟩, hlt⟩ := skipStringLiteral_shorter hskip
        refine ⟨?_, hlt⟩
        rw [Token.text, hmoves.slice]
        exact hmoves
      · simp at h
    · obtain ⟨rfl, rfl⟩ := Prod.mk.inj (Except.ok.inj h)
      refine ⟨.cons hrest (.refl _), ?_⟩
      rw [Cursor.length_advance]
      omega
  · simp at h

theorem head?_of_readToken {c c' : Cursor} {t : Token} (h : readToken c = .ok (t, c')) :
    t.text.head? = c.next? := by
  obtain ⟨hmoves, hlt⟩ := readToken_spec h
  rw [Cursor.next?, hmoves.1]
  cases htext : t.text with
  | nil =>
    rw [hmoves.1, htext, List.nil_append] at hlt
    omega
  | cons ch text => rfl

/-- The tokens from a cursor to the end of the text. -/
def tokens (c : Cursor) : Except SyntaxError (List Token) :=
  if c.rest = [] then .ok []
  else
    match _htoken : readToken c with
    | .error e => .error e
    | .ok (t, c') =>
      match tokens c' with
      | .error e => .error e
      | .ok ts => .ok (t :: ts)
termination_by c.rest.length
decreasing_by exact (readToken_spec _htoken).2

/-- The tokens between two places. -/
inductive Lexes : Cursor → List Token → Cursor → Prop
  | nil {c : Cursor} : Lexes c [] c
  | cons {c c₁ c' : Cursor} {t : Token} {ts : List Token} :
      readToken c = .ok (t, c₁) → Lexes c₁ ts c' → Lexes c (t :: ts) c'

theorem Lexes.append {c c₁ c' : Cursor} {ts us : List Token} (h : Lexes c ts c₁)
    (h' : Lexes c₁ us c') : Lexes c (ts ++ us) c' := by
  induction h with
  | nil => exact h'
  | cons ht _ ih => exact .cons ht (ih h')

/-- No character is lost between tokens. -/
theorem Lexes.moves {c c' : Cursor} {ts : List Token} (h : Lexes c ts c') :
    c.Moves (ts.flatMap Token.text) c' := by
  induction h with
  | nil => exact .refl _
  | cons ht _ ih =>
    rw [List.flatMap_cons]
    exact (readToken_spec ht).1.trans ih

theorem Lexes.tokens_eq {c c' : Cursor} {ts : List Token} (h : Lexes c ts c')
    (hend : c'.rest = []) : tokens c = .ok ts := by
  induction h with
  | nil => rw [tokens, if_pos hend]
  | @cons c c₁ c' t ts ht _ ih =>
    have hlt := (readToken_spec ht).2
    have hne : c.rest ≠ [] := List.ne_nil_of_length_pos (by omega)
    rw [tokens, if_neg hne]
    split
    · rename_i heq
      simp [ht] at heq
    · rename_i heq
      obtain ⟨rfl, rfl⟩ := Prod.mk.inj (Except.ok.inj (ht.symm.trans heq))
      rw [ih hend]

/-! ## Balanced tokens -/

/-- All brackets among the tokens are opened and closed in pairs of one kind, the inner ones before
the outer ones. -/
inductive Balanced : List Token → Prop
  | nil : Balanced []
  | cons {t : Token} {ts : List Token} : t.isBracket = false → Balanced ts → Balanced (t :: ts)
  | group {opening close : Char} {inner ts : List Token} :
      closingBracket? opening = some close → Balanced inner → Balanced ts →
      Balanced (.character opening :: (inner ++ .character close :: ts))

theorem Balanced.append {ts us : List Token} (h : Balanced ts) (h' : Balanced us) :
    Balanced (ts ++ us) := by
  induction h with
  | nil => exact h'
  | cons ht _ ih => exact .cons ht ih
  | group hclose hinner _ _ ih =>
    rw [List.cons_append, List.append_assoc, List.cons_append]
    exact .group hclose hinner ih

/-- Whether the tokens close the brackets on a stack, its top first, and all that they open. -/
def closes : List Char → List Token → Bool
  | stack, [] => stack.isEmpty
  | stack, .character ch :: ts =>
    match closingBracket? ch with
    | some close => closes (close :: stack) ts
    | none =>
      if isClosingBracket ch then stack.head? == some ch && closes stack.tail ts
      else closes stack ts
  | stack, .literal _ :: ts => closes stack ts
  | stack, .comment _ :: ts => closes stack ts

theorem closes_cons {t : Token} (ht : t.isBracket = false) (stack : List Char) (ts : List Token) :
    closes stack (t :: ts) = closes stack ts := by
  cases t with
  | character ch =>
    simp only [Token.isBracket, Bool.or_eq_false_iff, Option.isSome_eq_false_iff,
      Option.isNone_iff_eq_none] at ht
    rw [closes, ht.1, ht.2]
    rfl
  | literal text => rfl
  | comment text => rfl

theorem closes_opening {opening close : Char} (h : closingBracket? opening = some close)
    (stack : List Char) (ts : List Token) :
    closes stack (.character opening :: ts) = closes (close :: stack) ts := by
  rw [closes, h]

/-- What closes a bracket opens none. -/
theorem closing_of_opening {opening close : Char} (h : closingBracket? opening = some close) :
    isClosingBracket close = true ∧ closingBracket? close = none := by
  unfold closingBracket? at h
  repeat' split at h
  · rw [← Option.some.inj h]
    exact ⟨rfl, rfl⟩
  · rw [← Option.some.inj h]
    exact ⟨rfl, rfl⟩
  · rw [← Option.some.inj h]
    exact ⟨rfl, rfl⟩
  · simp at h

/-- Balanced tokens leave the stack as it was. -/
theorem Balanced.closes_append {ts : List Token} (h : Balanced ts) (stack : List Char)
    (us : List Token) : closes stack (ts ++ us) = closes stack us := by
  induction h generalizing stack us with
  | nil => rfl
  | cons ht _ ih => rw [List.cons_append, closes_cons ht, ih]
  | group hclose _ _ ihInner ih =>
    obtain ⟨hclosing, hnone⟩ := closing_of_opening hclose
    rw [List.cons_append, List.append_assoc, closes_opening hclose, ihInner, List.cons_append,
      closes, hnone]
    simp only [hclosing, if_true, List.head?_cons, beq_self_eq_true, Bool.true_and,
      List.tail_cons]
    exact ih stack us

/-- The brackets of a stack are closed one after the other, with balanced tokens in between. -/
inductive Unwinds : List Char → List Token → Prop
  | last {ts : List Token} : Balanced ts → Unwinds [] ts
  | close {ch : Char} {stack : List Char} {ts us : List Token} :
      Balanced ts → Unwinds stack us → Unwinds (ch :: stack) (ts ++ .character ch :: us)

theorem Unwinds.cons {t : Token} {stack : List Char} {ts : List Token} (ht : t.isBracket = false)
    (h : Unwinds stack ts) : Unwinds stack (t :: ts) := by
  cases h with
  | last hts => exact .last (.cons ht hts)
  | close hts hus => exact .close (.cons ht hts) hus

theorem Unwinds.opening {opening close : Char} {stack : List Char} {ts : List Token}
    (hclose : closingBracket? opening = some close) (h : Unwinds (close :: stack) ts) :
    Unwinds stack (.character opening :: ts) := by
  cases h with
  | @close _ _ inner us hinner hus =>
    cases hus with
    | last hts => exact .last (.group hclose hinner hts)
    | @close ch stack ts us hts hus =>
      have := @Unwinds.close ch stack _ us (.group hclose hinner hts) hus
      rwa [List.cons_append, List.append_assoc, List.cons_append] at this

theorem unwinds_of_closes {stack : List Char} {ts : List Token} (h : closes stack ts = true) :
    Unwinds stack ts := by
  -- from the back: what unwinds a higher stack is cut where its top is closed
  fun_induction closes stack ts with
  | case1 stack =>
    rw [List.isEmpty_iff.1 h]
    exact .last .nil
  | case2 stack ch ts close hclose ih => exact (ih h).opening hclose
  | case3 stack ch ts hnone hclosing ih =>
    rw [Bool.and_eq_true, beq_iff_eq] at h
    obtain ⟨below, rfl⟩ := List.head?_eq_some_iff.1 h.1
    exact .close .nil (ih h.2)
  | case4 stack ch ts hnone hclosing ih =>
    refine (ih h).cons ?_
    rw [Token.isBracket, hnone, Bool.eq_false_iff.2 hclosing]
    rfl
  | case5 stack text ts ih => exact (ih h).cons rfl
  | case6 stack text ts ih => exact (ih h).cons rfl

/-- Balanced is what a stack of brackets finds balanced. -/
theorem balanced_iff {ts : List Token} : Balanced ts ↔ closes [] ts = true := by
  constructor
  · intro h
    have := h.closes_append [] []
    rwa [List.append_nil] at this
  · intro h
    cases unwinds_of_closes h with
    | last hts => exact hts

instance : DecidablePred Balanced := fun _ => decidable_of_iff _ balanced_iff.symm

/-- Between the two places are whole tokens, and they are balanced. -/
def Covers (c c' : Cursor) : Prop := ∃ ts, Lexes c ts c' ∧ Balanced ts

namespace Covers

theorem refl (c : Cursor) : Covers c c := ⟨[], .nil, .nil⟩

theorem trans {c c₁ c' : Cursor} (h : Covers c c₁) (h' : Covers c₁ c') : Covers c c' := by
  obtain ⟨ts, hts, hbalanced⟩ := h
  obtain ⟨us, hus, hbalanced'⟩ := h'
  exact ⟨ts ++ us, hts.append hus, hbalanced.append hbalanced'⟩

theorem token {c c' : Cursor} {t : Token} (h : readToken c = .ok (t, c'))
    (ht : t.isBracket = false) : Covers c c' :=
  ⟨[t], .cons h .nil, .cons ht .nil⟩

end Covers

/-! ## Single characters -/

theorem readToken_line {c : Cursor} {rest : List Char} (h : c.rest = '/' :: '/' :: rest) :
    readToken c =
      .ok (.comment (c.rest.take (lineLength rest + 2)), c.advance (lineLength rest + 2)) := by
  rw [readToken, h]
  rfl

theorem readToken_block {c : Cursor} {rest : List Char} {n : Nat}
    (h : c.rest = '/' :: '*' :: rest) (hn : commentLength? 1 0 rest = some n) :
    readToken c = .ok (.comment (c.rest.take (n + 2)), c.advance (n + 2)) := by
  unfold readToken
  simp only [h, hn]

/-- Whether a comment begins with a character. -/
def opensComment (ch : Char) (rest : List Char) : Bool :=
  ch == '/' && (rest.head? == some '/' || rest.head? == some '*')

theorem readToken_code {c : Cursor} {ch : Char} {rest : List Char} (h : c.rest = ch :: rest)
    (hcomment : opensComment ch rest = false) :
    readToken c =
      if opensLiteral ch rest then
        match skipStringLiteral c with
        | .ok c' => .ok (.literal (c.slice c'.pos), c')
        | .error e => .error e
      else .ok (.character ch, c.advance 1) := by
  have hslash : ∀ tail, ch = '/' → rest ≠ '/' :: tail ∧ rest ≠ '*' :: tail := by
    rintro tail rfl
    constructor <;> rintro rfl <;> simp [opensComment] at hcomment
  rw [readToken]
  split <;> rename_i heq
  · obtain ⟨rfl, rfl⟩ := List.cons.inj (h.symm.trans heq)
    exact absurd rfl (hslash _ rfl).1
  · obtain ⟨rfl, rfl⟩ := List.cons.inj (h.symm.trans heq)
    exact absurd rfl (hslash _ rfl).2
  · obtain ⟨rfl, rfl⟩ := List.cons.inj (h.symm.trans heq)
    rfl
  · simp [h] at heq

/-- The cursor stands before a single character. -/
theorem readToken_character {c : Cursor} {ch : Char} {rest : List Char} (h : c.rest = ch :: rest)
    (hcomment : opensComment ch rest = false) (hliteral : opensLiteral ch rest = false) :
    readToken c = .ok (.character ch, c.advance 1) := by
  rw [readToken_code h hcomment, hliteral]
  rfl

theorem opensComment_of_opensLiteral {ch : Char} {rest : List Char}
    (h : opensLiteral ch rest = true) : opensComment ch rest = false := by
  rw [opensComment, Bool.and_eq_false_imp]
  intro hslash
  rw [beq_iff_eq.1 hslash] at h
  simp [opensLiteral] at h

theorem opens_of_ne {ch : Char} (hquote : ch ≠ '"') (hhash : ch ≠ '#') (hslash : ch ≠ '/')
    (rest : List Char) : opensComment ch rest = false ∧ opensLiteral ch rest = false := by
  simp [opensComment, opensLiteral, hquote, hhash, hslash]

theorem covers_plain {c : Cursor} {ch : Char} (h : c.next? = some ch)
    (hplain : isPlainChar ch = true) : Covers c (c.advance 1) := by
  obtain ⟨rest, hrest⟩ := List.head?_eq_some_iff.1 h
  simp only [isPlainChar, Bool.and_eq_true, bne_iff_ne, ne_eq, Option.isNone_iff_eq_none,
    Bool.not_eq_true'] at hplain
  obtain ⟨⟨⟨⟨hquote, hhash⟩, hslash⟩, hopening⟩, hclosing⟩ := hplain
  obtain ⟨hcomment, hliteral⟩ := opens_of_ne hquote hhash hslash rest
  refine .token (readToken_character hrest hcomment hliteral) ?_
  simp [Token.isBracket, hopening, hclosing]

/-- A text of characters that mean nothing is covered wherever it stands. -/
theorem covers_text {c c' : Cursor} {w : List Char} (h : c.Moves w c')
    (hplain : ∀ ch ∈ w, isPlainChar ch = true) : Covers c c' := by
  induction w generalizing c with
  | nil =>
    obtain ⟨pos, rest⟩ := c
    obtain ⟨hrest, hpos⟩ := h
    obtain ⟨rfl, rfl⟩ : c'.pos = pos ∧ rest = c'.rest := ⟨hpos, hrest⟩
    exact .refl _
  | cons ch w ih =>
    have hnext : c.next? = some ch := by rw [Cursor.next?, h.1]; rfl
    have hrest : (c.advance 1).Moves w c' := by
      rw [Cursor.advance_one h.1]
      refine ⟨rfl, ?_⟩
      rw [h.2, List.length_cons, Nat.add_assoc, Nat.add_comm 1]
    exact (covers_plain hnext (hplain ch List.mem_cons_self)).trans
      (ih hrest fun x hx => hplain x (List.mem_cons_of_mem _ hx))

theorem ne_of_bracket {ch : Char} (h : (closingBracket? ch).isSome || isClosingBracket ch) :
    ch ≠ '"' ∧ ch ≠ '#' ∧ ch ≠ '/' := by
  refine ⟨?_, ?_, ?_⟩ <;> rintro rfl <;> exact absurd h (by decide)

/-- A group is covered if what stands between its brackets is. -/
theorem Covers.group {c c₁ : Cursor} {opening close : Char} (hopening : c.next? = some opening)
    (hclose : closingBracket? opening = some close) (h : Covers (c.advance 1) c₁)
    (hclosing : c₁.next? = some close) : Covers c (c₁.advance 1) := by
  obtain ⟨rest, hrest⟩ := List.head?_eq_some_iff.1 hopening
  obtain ⟨rest₁, hrest₁⟩ := List.head?_eq_some_iff.1 hclosing
  obtain ⟨ts, hlexes, hbalanced⟩ := h
  have hread : ∀ {c : Cursor} {ch : Char} {rest : List Char}, c.rest = ch :: rest →
      ((closingBracket? ch).isSome || isClosingBracket ch) = true →
      readToken c = .ok (.character ch, c.advance 1) := by
    intro c ch rest hrest hbracket
    obtain ⟨hquote, hhash, hslash⟩ := ne_of_bracket hbracket
    obtain ⟨hcomment, hliteral⟩ := opens_of_ne hquote hhash hslash rest
    exact readToken_character hrest hcomment hliteral
  refine ⟨.character opening :: (ts ++ [.character close]),
    .cons ?_ (hlexes.append (.cons ?_ .nil)), .group hclose hbalanced .nil⟩
  · exact hread hrest (by rw [hclose]; rfl)
  · exact hread hrest₁ (by rw [(closing_of_opening hclose).1, Bool.or_true])

/-! ## Trivia and names -/

theorem isPlainChar_of_isLayout {ch : Char} (h : isLayout ch = true) : isPlainChar ch = true := by
  simp only [isLayout, isBlank, isLineEnd, Bool.or_eq_true, beq_iff_eq] at h
  rcases h with (rfl | rfl) | rfl | rfl <;> rfl

theorem covers_line {c : Cursor} {rest : List Char} (h : c.rest = '/' :: '/' :: rest) :
    Covers c (c.advance (lineLength rest + 2)) :=
  .token (readToken_line h) rfl

theorem covers_block {c : Cursor} {rest : List Char} {n : Nat} (h : c.rest = '/' :: '*' :: rest)
    (hn : commentLength? 1 0 rest = some n) : Covers c (c.advance (n + 2)) :=
  .token (readToken_block h hn) rfl

theorem covers_layout {c : Cursor} {ch : Char} {rest : List Char} (h : c.rest = ch :: rest)
    (hch : isLayout ch = true) : Covers c (c.advance 1) :=
  covers_plain (by rw [Cursor.next?, h]; rfl) (isPlainChar_of_isLayout hch)

theorem covers_skipTrivia {c c' : Cursor} (h : skipTrivia c = .ok c') : Covers c c' := by
  fun_induction skipTrivia c with
  | case1 c rest hrest ih => exact (covers_line hrest).trans (ih h)
  | case2 c rest hrest n hn ih => exact (covers_block hrest hn).trans (ih h)
  | case3 => simp at h
  | case4 c ch rest _ _ hrest hch ih => exact (covers_layout hrest hch).trans (ih h)
  | case5 | case6 =>
    obtain rfl := Except.ok.inj h
    exact .refl _

theorem covers_skipInlineTrivia {c c' : Cursor} (h : skipInlineTrivia c = .ok c') :
    Covers c c' := by
  fun_induction skipInlineTrivia c with
  | case1 c rest hrest =>
    obtain rfl := Except.ok.inj h
    exact covers_line hrest
  | case2 c rest hrest n hn ih => exact (covers_block hrest hn).trans (ih h)
  | case3 => simp at h
  | case4 c ch rest _ _ hrest hch ih =>
    exact (covers_layout hrest (by rw [isLayout, hch, Bool.true_or])).trans (ih h)
  | case5 | case6 =>
    obtain rfl := Except.ok.inj h
    exact .refl _

theorem covers_readName? {c c' : Cursor} {name : String} (h : readName? c = some (name, c')) :
    Covers c c' := by
  obtain ⟨n, hmoves, hn, -⟩ := readName?_spec h
  exact covers_text hmoves fun ch hch => (isPlainChar_of_isNameChar (hn.all ch hch)).1

theorem plain_take_nameLength? {cs : List Char} {n : Nat} (h : nameLength? cs = some n) :
    ∀ ch ∈ cs.take n, isPlainChar ch = true := by
  obtain ⟨name, r, rfl, rfl, hname, -⟩ := nameLength?_spec h
  intro ch hch
  rw [List.take_left] at hch
  exact (isPlainChar_of_isNameChar (hname.all ch hch)).1

theorem plain_take_qualifiedTailLength (cs : List Char) :
    ∀ ch ∈ cs.take (qualifiedTailLength cs), isPlainChar ch = true := by
  fun_induction qualifiedTailLength cs with
  | case1 rest n hn ih =>
    intro ch hch
    rw [Nat.add_right_comm, List.take_succ_cons, List.mem_cons, List.take_add,
      List.mem_append] at hch
    rcases hch with rfl | hch | hch
    · rfl
    · exact plain_take_nameLength? hn ch hch
    · exact ih ch hch
  | case2 | case3 => simp

theorem covers_readQualifiedName? {c c' : Cursor} {name : String}
    (h : readQualifiedName? c = some (name, c')) : Covers c c' := by
  refine covers_text (moves_readQualifiedName? h) fun ch hch => ?_
  obtain ⟨n, hn, heq⟩ := Option.map_eq_some_iff.1 h
  obtain ⟨rfl, -⟩ := Prod.mk.inj heq
  rw [String.toList_ofList, List.take_add, List.mem_append] at hch
  rcases hch with hch | hch
  · exact plain_take_nameLength? hn ch hch
  · exact plain_take_qualifiedTailLength _ ch hch

/-! ## Expressions -/

theorem startsWith_slash {c : Cursor} {ch : Char} {rest : List Char} (hrest : c.rest = ch :: rest)
    (next : Char) :
    c.startsWith ['/', next] = (ch == '/' && rest.head? == some next) := by
  rw [Bool.eq_iff_iff, startsWith_two, hrest]
  simp only [List.cons.injEq, Bool.and_eq_true, beq_iff_eq, List.head?_eq_some_iff]
  constructor
  · intro h
    obtain ⟨tail, hch, htail⟩ := h
    exact ⟨hch, tail, htail⟩
  · intro h
    obtain ⟨hch, tail, htail⟩ := h
    exact ⟨tail, hch, htail⟩

variable {stops opened : List Char}

/-- The expression does not end at a character. -/
def GoesOn (stops opened : List Char) (ch : Char) : Prop :=
  (opened.isEmpty && (stops.contains ch || isClosingBracket ch)) = false

/-- Where an expression goes on, it goes on behind the next token. -/
theorem scan_token {c : Cursor} {ch : Char} {rest : List Char}
    (hopened : ∀ close ∈ opened, isClosingBracket close = true) (hrest : c.rest = ch :: rest)
    (hgoes : GoesOn stops opened ch) (mark : Nat) :
    scan (framesOf stops opened) mark c =
      readToken c >>= fun (t, c₁) => t.bracketsAfter opened c.pos >>= fun opened' =>
        scan (framesOf stops opened') (if t.counts then c₁.pos else mark) c₁ := by
  rw [scan_framesOf hopened, hrest]
  dsimp only
  rw [hgoes, if_neg Bool.false_ne_true]
  by_cases hliteral : opensLiteral ch rest = true
  · rw [if_pos hliteral, readToken_code hrest (opensComment_of_opensLiteral hliteral),
      if_pos hliteral]
    cases skipStringLiteral c <;> rfl
  rw [if_neg hliteral]
  by_cases hline : c.startsWith ['/', '/'] = true
  · obtain ⟨tail, htail⟩ := (startsWith_two _ _).1 hline
    rw [if_pos hline, readToken_line htail, ← hrest, htail, lineLength_slash, lineLength_slash]
    rfl
  rw [if_neg hline]
  by_cases hblock : c.startsWith ['/', '*'] = true
  · obtain ⟨tail, htail⟩ := (startsWith_two _ _).1 hblock
    rw [if_pos hblock, skipBlockComment_eq htail]
    cases hlength : commentLength? 1 0 tail with
    | none =>
      have hread : readToken c = .error (.unterminated .blockComment c.pos) := by
        unfold readToken
        simp only [htail, hlength]
      rw [hread]
      rfl
    | some n =>
      rw [readToken_block htail hlength]
      rfl
  rw [if_neg hblock]
  have hcomment : opensComment ch rest = false := by
    rw [startsWith_slash hrest, Bool.not_eq_true] at hline hblock
    rw [opensComment, Bool.and_or_distrib_left, hline, hblock]
    rfl
  have hmark : (if isSpace ch then mark else (c.advance 1).pos)
      = if (Token.character ch).counts then (c.advance 1).pos else mark := by
    rw [Token.counts]
    cases isSpace ch <;> rfl
  rw [Bool.not_eq_true] at hliteral
  rw [readToken_character hrest hcomment hliteral, hmark]
  rfl

theorem Token.bracketsAfter_closing {t : Token} {opened' : List Char} {pos : Nat}
    (hopened : ∀ close ∈ opened, isClosingBracket close = true)
    (h : t.bracketsAfter opened pos = .ok opened') :
    ∀ close ∈ opened', isClosingBracket close = true := by
  cases t with
  | character ch => exact Swift.bracketsAfter_closing hopened h
  | literal text => exact Except.ok.inj h ▸ hopened
  | comment text => exact Except.ok.inj h ▸ hopened

/-- The tokens behind one close what is open after it. -/
theorem closes_bracketsAfter {t : Token} {opened' : List Char} {pos : Nat}
    (h : t.bracketsAfter opened pos = .ok opened') (ts : List Token) :
    closes opened (t :: ts) = closes opened' ts := by
  cases t with
  | literal text => rw [closes, Except.ok.inj h]
  | comment text => rw [closes, Except.ok.inj h]
  | character ch =>
    rw [Token.bracketsAfter, Swift.bracketsAfter.eq_def] at h
    rw [closes.eq_def]
    dsimp only
    cases hopen : closingBracket? ch with
    | some close =>
      rw [hopen] at h
      rw [← Except.ok.inj h]
    | none =>
      rw [hopen] at h
      dsimp only at h ⊢
      by_cases hclosing : isClosingBracket ch = true
      · rw [if_pos hclosing] at h ⊢
        cases opened with
        | nil => simp at h
        | cons close outer =>
          dsimp only at h
          split at h
          · rename_i heq
            rw [← Except.ok.inj h, heq]
            simp
          · simp at h
      · rw [if_neg hclosing] at h ⊢
        rw [← Except.ok.inj h]

/-- The tokens that an expression goes through from one place to another, with its open brackets and
its mark before and after them. -/
inductive ScansTokens (stops : List Char) :
    List Char → Nat → Cursor → List Token → Nat → Cursor → Prop
  | stop {mark : Nat} {c : Cursor} : EndsExpression stops c.rest →
      ScansTokens stops [] mark c [] mark c
  | token {opened opened' : List Char} {mark mark' : Nat} {c c₁ c' : Cursor} {t : Token}
      {ts : List Token} : (∀ ch ∈ c.next?, GoesOn stops opened ch) →
      readToken c = .ok (t, c₁) → t.bracketsAfter opened c.pos = .ok opened' →
      ScansTokens stops opened' (if t.counts then c₁.pos else mark) c₁ ts mark' c' →
      ScansTokens stops opened mark c (t :: ts) mark' c'

/-- **An expression goes through whole tokens.** -/
theorem scansTokens_of_scan (hopened : ∀ close ∈ opened, isClosingBracket close = true)
    {mark mark' : Nat} {c c' : Cursor}
    (h : scan (framesOf stops opened) mark c = .ok (mark', c')) :
    ∃ ts, ScansTokens stops opened mark c ts mark' c' := by
  induction hlength : c.rest.length using Nat.strongRecOn generalizing opened mark c with
  | ind n ih =>
    subst hlength
    cases hrest : c.rest with
    | nil =>
      rw [scan_framesOf hopened, hrest] at h
      cases opened with
      | nil =>
        obtain ⟨rfl, rfl⟩ := Prod.mk.inj (Except.ok.inj h)
        exact ⟨[], .stop (by simp [EndsExpression, hrest])⟩
      | cons close outer => simp at h
    | cons ch rest =>
      have hnext : c.next? = some ch := by rw [Cursor.next?, hrest, List.head?_cons]
      by_cases hstop : (opened.isEmpty && (stops.contains ch || isClosingBracket ch)) = true
      · rw [scan_framesOf hopened, hrest] at h
        dsimp only at h
        rw [if_pos hstop] at h
        obtain ⟨rfl, rfl⟩ := Prod.mk.inj (Except.ok.inj h)
        obtain ⟨hempty, hends⟩ := Bool.and_eq_true_iff.1 hstop
        obtain rfl := List.isEmpty_iff.1 hempty
        refine ⟨[], .stop ?_⟩
        rintro x hx
        rw [hrest] at hx
        exact Option.some.inj hx ▸ hends
      · rw [Bool.not_eq_true] at hstop
        rw [scan_token hopened hrest hstop] at h
        obtain ⟨⟨t, c₁⟩, htoken, h⟩ := bind_eq_ok.1 h
        obtain ⟨opened', hafter, h⟩ := bind_eq_ok.1 h
        obtain ⟨ts, hts⟩ :=
          ih _ (readToken_spec htoken).2 (Token.bracketsAfter_closing hopened hafter) h rfl
        refine ⟨t :: ts, .token ?_ htoken hafter hts⟩
        intro x hx
        exact Option.some.inj (hnext.symm.trans hx) ▸ hstop

namespace ScansTokens

variable {mark mark' : Nat} {c c' : Cursor} {ts : List Token}

theorem lexes (h : ScansTokens stops opened mark c ts mark' c') : Lexes c ts c' := by
  induction h with
  | stop => exact .nil
  | token _ htoken _ _ ih => exact .cons htoken ih

theorem closes (h : ScansTokens stops opened mark c ts mark' c') :
    Swift.closes opened ts = true := by
  induction h with
  | stop => rfl
  | token _ _ hafter _ ih => rw [closes_bracketsAfter hafter, ih]

theorem covers (h : ScansTokens stops [] mark c ts mark' c') : Covers c c' :=
  ⟨ts, h.lexes, balanced_iff.2 h.closes⟩

end ScansTokens

theorem scansTokens_expression {mark mark' : Nat} {c c' : Cursor}
    (h : scan [.expression stops] mark c = .ok (mark', c')) :
    ∃ ts, ScansTokens stops [] mark c ts mark' c' := by
  have hopened : ∀ close ∈ ([] : List Char), isClosingBracket close = true :=
    fun close hmem => absurd hmem List.not_mem_nil
  exact scansTokens_of_scan hopened h

theorem covers_scan {mark mark' : Nat} {c c' : Cursor}
    (h : scan [.expression stops] mark c = .ok (mark', c')) : Covers c c' := by
  obtain ⟨ts, hts⟩ := scansTokens_expression h
  exact hts.covers

theorem covers_scanExpression {text : String} {c c' : Cursor}
    (h : scanExpression stops c = .ok (text, c')) : Covers c c' := by
  unfold scanExpression at h
  split at h
  · rename_i hscan
    obtain ⟨-, rfl⟩ := Prod.mk.inj (Except.ok.inj h)
    exact covers_scan hscan
  · simp at h

theorem covers_skipGroup {opening close : Char} {c c' : Cursor} (hopening : c.next? = some opening)
    (hclose : closingBracket? opening = some close) (h : skipGroup close c = .ok c') :
    Covers c c' := by
  unfold skipGroup at h
  split at h
  · simp at h
  · rename_i hscan
    have hcovers := covers_scan hscan
    split at h
    · rename_i hnext
      obtain rfl := Except.ok.inj h
      exact hcovers.group hopening hclose hnext
    · simp at h

end LocalizedKeys.Swift
