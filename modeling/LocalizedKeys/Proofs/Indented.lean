import LocalizedKeys.Expansion.Placement
import LocalizedKeys.Proofs.Multiline

/-!
# Literals that are indented

Members are indented line by line, and the lines of a multi-line literal among them are not spared.
The value of the literal outlives this (`decodeLiteral_indentLines`): the closing delimiter is moved
by the same indentation as the lines, and what stands in front of it is dropped from all of them.

Indenting a block comes down to putting the indentation behind each line feed which is not followed
by another one (`indentBlock_eq`). In this form the parts of a text can be seen one by one, and so a
literal in the middle of a member.
-/

namespace LocalizedKeys.Expansion

open Swift Text

/-! ## Behind line feeds -/

/-- The indentation in front of what begins a line; an empty line has none. -/
def lineLead (indent rest : List Char) : List Char :=
  if rest.head? = some '\n' then [] else indent

/-- A text with an indentation behind each line feed that no other one follows. -/
def indentLines (indent : List Char) : List Char → List Char
  | [] => []
  | c :: rest =>
    c :: ((if c = '\n' then lineLead indent rest else []) ++ indentLines indent rest)

/-- A line with its indentation, unless it is empty. -/
def indentLine (indent line : List Char) : List Char :=
  if line.isEmpty then line else indent ++ line

variable {indent : List Char}

theorem indentLines_feed (rest : List Char) :
    indentLines indent ('\n' :: rest) = '\n' :: (lineLead indent rest ++ indentLines indent rest) :=
  rfl

theorem indentLines_cons {c : Char} (h : c ≠ '\n') (rest : List Char) :
    indentLines indent (c :: rest) = c :: indentLines indent rest := by
  rw [indentLines, if_neg h, List.nil_append]

theorem lineLead_cons {c : Char} (h : c ≠ '\n') (rest : List Char) :
    lineLead indent (c :: rest) = indent :=
  if_neg fun hhead => h (Option.some.inj hhead)

theorem indentLine_of_ne_nil {line : List Char} (h : line ≠ []) :
    indentLine indent line = indent ++ line :=
  if_neg fun hempty => h (List.isEmpty_iff.1 hempty)

/-- A text can be cut where no two line feeds meet. -/
theorem indentLines_append {x y : List Char}
    (h : x.getLast? ≠ some '\n' ∨ y.head? ≠ some '\n') :
    indentLines indent (x ++ y) = indentLines indent x ++ indentLines indent y := by
  induction x with
  | nil => rfl
  | cons c x ih =>
    cases x with
    | nil =>
      by_cases hc : c = '\n'
      · -- only here does the second text decide what stands behind the first one
        subst hc
        have hy : y.head? ≠ some '\n' := h.resolve_left fun hlast => hlast rfl
        have hempty : indentLines indent ['\n'] = '\n' :: indent := by
          simp [indentLines, lineLead]
        rw [List.singleton_append, indentLines_feed, lineLead, if_neg hy, hempty, List.cons_append]
      · rw [List.singleton_append, indentLines_cons hc, indentLines_cons hc]
        rfl
    | cons d x =>
      rw [List.getLast?_cons_cons] at h
      have hlead : lineLead indent (d :: x ++ y) = lineLead indent (d :: x) := rfl
      rw [List.cons_append, indentLines, ih h, hlead, indentLines.eq_def indent (c :: d :: x)]
      simp only [List.cons_append, List.append_assoc]

/-! ## Blocks -/

/-- The lines from some place of a line on, which has begun with `current`. -/
theorem join_linesFrom_indented {text : List Char} (hlast : text.getLast? ≠ some '\n')
    (current : List Char) :
    join ['\n'] ((linesFrom current text).map (indentLine indent))
      = if current = [] then if text = [] then [] else lineLead indent text ++ indentLines indent text
        else indent ++ (current.reverse ++ indentLines indent text) := by
  induction text generalizing current with
  | nil =>
    by_cases hcurrent : current = []
    · rw [if_pos hcurrent, if_pos rfl, hcurrent]
      rfl
    · rw [if_neg hcurrent, linesFrom, List.map_singleton, join,
        indentLine_of_ne_nil (by simpa using hcurrent), indentLines, List.append_nil]
  | cons c rest ih =>
    by_cases hc : c = '\n'
    · subst hc
      have hne : rest ≠ [] := by
        rintro rfl
        exact hlast rfl
      have hrest : rest.getLast? ≠ some '\n' := by
        cases rest with
        | nil => contradiction
        | cons d rest => rwa [List.getLast?_cons_cons] at hlast
      rw [linesFrom, if_pos rfl, List.map_cons, join_cons _ _ (by simp [linesFrom_ne_nil]),
        ih hrest, if_pos rfl, if_neg hne, if_neg (List.cons_ne_nil _ _), indentLines_feed]
      by_cases hcurrent : current = []
      · rw [if_pos hcurrent, hcurrent]
        rfl
      · rw [if_neg hcurrent, indentLine_of_ne_nil (by simpa using hcurrent)]
        simp only [List.append_assoc, List.singleton_append]
    · have hrest : rest.getLast? ≠ some '\n' := by
        cases rest with
        | nil => simp
        | cons d rest => rwa [List.getLast?_cons_cons] at hlast
      rw [linesFrom, if_neg hc, ih hrest, if_neg (List.cons_ne_nil _ _),
        if_neg (List.cons_ne_nil _ _), indentLines_cons hc, lineLead_cons hc, List.reverse_cons]
      by_cases hcurrent : current = []
      · rw [if_pos hcurrent, hcurrent]
        rfl
      · rw [if_neg hcurrent]
        simp only [List.append_assoc, List.singleton_append]

/-- A block is indented on its first line and behind its line feeds. -/
theorem indentBlock_eq {text : List Char} (hne : text ≠ []) (hlast : text.getLast? ≠ some '\n') :
    indentBlock indent text = lineLead indent text ++ indentLines indent text := by
  have h := @join_linesFrom_indented indent _ hlast []
  rwa [if_pos rfl, if_neg hne] at h

theorem indentBlock_join {texts : List (List Char)} (hne : texts ≠ [])
    (h : ∀ text ∈ texts, '\n' ∉ text) :
    indentBlock indent (join ['\n'] texts) = join ['\n'] (texts.map (indentLine indent)) := by
  rw [indentBlock, lines_join hne h]
  rfl

/-! ## Multi-line literals -/

theorem join_append_cons (separator front text : List Char) (rest : List (List Char)) :
    join separator ((front ++ text) :: rest) = front ++ join separator (text :: rest) := by
  cases rest with
  | nil => rfl
  | cons next rest =>
    rw [join_cons _ _ (List.cons_ne_nil _ _), join_cons _ _ (List.cons_ne_nil _ _)]
    simp only [List.append_assoc]

theorem getLast?_blockLiteral (content : List (List Char)) (closing : List Char) :
    (blockLiteral content closing).getLast? = some '"' := by
  rw [blockLiteral, ← List.cons_append, join_concat (List.cons_ne_nil _ _), ← List.append_assoc,
    List.getLast?_append]
  rfl

theorem head?_blockLiteral (content : List (List Char)) (closing : List Char) :
    (blockLiteral content closing).head? = some '"' := by
  rw [blockLiteral, join_cons _ _ (by simp)]
  rfl

/-- The lines of a literal are indented, and so is its closing delimiter. -/
theorem indentLines_blockLiteral {content : List (List Char)} {closing : List Char}
    (hlines : ∀ line ∈ content, '\n' ∉ line) (hclosing : '\n' ∉ closing) :
    indentLines indent (blockLiteral content closing)
      = blockLiteral (content.map (indentLine indent)) (indent ++ closing) := by
  have hhead := head?_blockLiteral content closing
  have hlast := getLast?_blockLiteral content closing
  have hne : blockLiteral content closing ≠ [] := by
    intro hnil
    rw [hnil] at hhead
    exact absurd hhead (by decide)
  -- the first line has an indentation as well, which is the same on both sides
  have hblock : indentBlock indent (blockLiteral content closing)
      = indent ++ blockLiteral (content.map (indentLine indent)) (indent ++ closing) := by
    have hall : ∀ line ∈ tripleQuote :: (content ++ [closing ++ tripleQuote]), '\n' ∉ line := by
      intro line hline hmem
      rcases List.mem_cons.1 hline with rfl | hline
      · exact absurd hmem (by decide)
      · rcases List.mem_append.1 hline with hline | hline
        · exact hlines line hline hmem
        · rw [List.mem_singleton.1 hline] at hmem
          exact (List.mem_append.1 hmem).elim hclosing (by decide)
    rw [blockLiteral, indentBlock_join (List.cons_ne_nil _ _) hall, List.map_cons, List.map_append,
      List.map_singleton, indentLine_of_ne_nil (by decide), join_append_cons,
      indentLine_of_ne_nil (by simp [tripleQuote]), ← List.append_assoc, blockLiteral,
      List.append_assoc indent]
  rw [indentBlock_eq hne (by rw [hlast]; decide), lineLead, if_neg (by rw [hhead]; decide)] at hblock
  exact List.append_cancel_left hblock

theorem dropFront_nil (word : List Char) : dropFront word [] = [] := by
  unfold dropFront
  split
  · exact List.drop_nil
  · rfl

/-- What is dropped from a line that was indented is what is dropped from the line. -/
theorem dropFront_indentLine {closing line : List Char} (h : line = [] ∨ closing <+: line) :
    dropFront (indent ++ closing) (indentLine indent line) = dropFront closing line := by
  by_cases hempty : line = []
  · subst hempty
    exact (dropFront_nil _).trans (dropFront_nil _).symm
  · obtain ⟨rest, rfl⟩ := h.resolve_left hempty
    rw [indentLine_of_ne_nil hempty, ← List.append_assoc, dropFront_append, dropFront_append]

theorem lineFeed_notMem_indentLine {line : List Char} (hindent : '\n' ∉ indent)
    (h : '\n' ∉ line) : '\n' ∉ indentLine indent line := by
  unfold indentLine
  split
  · exact h
  · intro hmem
    exact (List.mem_append.1 hmem).elim hindent h

theorem indentLine_ne_return {line : List Char} (h : '\r' ∉ line) :
    indentLine indent line ≠ ['\r'] := by
  intro heq
  by_cases hempty : line = []
  · subst hempty
    have hnil : [] = ['\r'] := heq
    exact absurd hnil (by decide)
  · -- the last character is that of the line
    rw [indentLine_of_ne_nil hempty] at heq
    have hlast : (indent ++ line).getLast? = some '\r' := by rw [heq]; rfl
    rw [List.getLast?_append, List.getLast?_eq_some_getLast hempty, Option.some_or] at hlast
    exact h (Option.some.inj hlast ▸ List.getLast_mem hempty)

variable {content : List (List Char)} {closing : List Char}

/-- The lines of an indented literal, without what stands in front of its closing delimiter, are
those of the literal. -/
theorem literalValue_indentLines (hne : content ≠ [])
    (hclosing : ∀ c ∈ closing, isBlank c = true)
    (hindent : ∀ c ∈ indent, isSpace c = true ∧ c ≠ '\n')
    (hlines : ∀ line ∈ content, (line = [] ∨ closing <+: line) ∧ '\n' ∉ line ∧ '\r' ∉ line) :
    literalValue (indentLines indent (blockLiteral content closing))
      = literalValue (blockLiteral content closing) := by
  have hfeed : '\n' ∉ closing := lineFeed_notMem_indent hclosing
  have hfeed' : '\n' ∉ indent := fun hmem => (hindent _ hmem).2 rfl
  have hspace : ∀ c ∈ closing, isSpace c = true := fun c hc => isSpace_of_isBlank (hclosing c hc)
  have hvalue : literalValue (blockLiteral content closing)
      = unescape (join ['\n'] (content.map (dropFront closing))) := by
    refine literalValue_blockLiteral hne (fun line hline => (hlines line hline).2.1) ?_ hspace hfeed
    intro hhead
    exact (hlines _ (List.mem_of_mem_head? hhead)).2.2 List.mem_cons_self
  have hindented : literalValue (blockLiteral (content.map (indentLine indent)) (indent ++ closing))
      = unescape (join ['\n'] ((content.map (indentLine indent)).map
          (dropFront (indent ++ closing)))) := by
    refine literalValue_blockLiteral (by simpa using hne) ?_ ?_ ?_ ?_
    · intro line hline
      obtain ⟨original, horiginal, rfl⟩ := List.mem_map.1 hline
      exact lineFeed_notMem_indentLine hfeed' (hlines original horiginal).2.1
    · intro hhead
      obtain ⟨original, horiginal, heq⟩ := List.mem_map.1 (List.mem_of_mem_head? hhead)
      exact indentLine_ne_return (hlines original horiginal).2.2 heq
    · intro c hc
      exact (List.mem_append.1 hc).elim (fun hc => (hindent c hc).1) (hspace c)
    · intro hmem
      exact (List.mem_append.1 hmem).elim hfeed' hfeed
  have hdropped : (content.map (indentLine indent)).map (dropFront (indent ++ closing))
      = content.map (dropFront closing) := by
    rw [List.map_map]
    exact List.map_congr_left fun line hline => dropFront_indentLine (hlines line hline).1
  rw [indentLines_blockLiteral (fun line hline => (hlines line hline).2.1) hfeed, hindented,
    hdropped, hvalue]

/-- A text in a block that neither begins nor ends with a line feed is indented on its own. -/
theorem indentBlock_around {before text after : List Char} {c d : Char}
    (hhead : text.head? = some c) (hc : c ≠ '\n') (hlast : text.getLast? = some d) (hd : d ≠ '\n')
    (hafter : after.getLast? ≠ some '\n') :
    indentBlock indent (before ++ text ++ after)
      = lineLead indent (before ++ text) ++ indentLines indent before ++ indentLines indent text
        ++ indentLines indent after := by
  have hfront : (before ++ text).getLast? = some d := by
    rw [List.getLast?_append, hlast, Option.some_or]
  have hne : before ++ text ≠ [] := by
    intro hnil
    rw [hnil] at hfront
    exact absurd hfront (by simp)
  have hend : (before ++ text ++ after).getLast? ≠ some '\n' := by
    rw [List.getLast?_append, hfront]
    cases hback : after.getLast? with
    | none => simpa using hd
    | some e =>
      rw [hback] at hafter
      simpa using hafter
  have hlead : lineLead indent (before ++ text ++ after) = lineLead indent (before ++ text) := by
    obtain ⟨e, rest, heq⟩ := List.exists_cons_of_ne_nil hne
    rw [heq]
    rfl
  rw [indentBlock_eq (fun hnil => hne (List.append_eq_nil_iff.1 hnil).1) hend, hlead,
    indentLines_append (.inl (by rw [hfront]; simpa using hd)),
    indentLines_append (.inr (by rw [hhead]; simpa using hc))]
  simp only [List.append_assoc]

/-- **Indenting a multi-line literal does not change its value**, and this is what happens to it
where it stands in a block. -/
theorem decodeLiteral_indentLines (hne : content ≠ [])
    (hclosing : ∀ c ∈ closing, isBlank c = true)
    (hindent : ∀ c ∈ indent, isSpace c = true ∧ c ≠ '\n')
    (hlines : ∀ line ∈ content, (line = [] ∨ closing <+: line) ∧ '\n' ∉ line ∧ '\r' ∉ line) :
    decodeLiteral (String.ofList (indentLines indent (blockLiteral content closing)))
        = decodeLiteral (String.ofList (blockLiteral content closing)) ∧
      ∀ before after : List Char, after.getLast? ≠ some '\n' →
        indentBlock indent (before ++ blockLiteral content closing ++ after)
          = lineLead indent (before ++ blockLiteral content closing) ++ indentLines indent before
            ++ indentLines indent (blockLiteral content closing) ++ indentLines indent after := by
  refine ⟨?_, fun before after hafter => ?_⟩
  · rw [decodeLiteral, decodeLiteral, String.toList_ofList, String.toList_ofList,
      literalValue_indentLines hne hclosing hindent hlines]
  · exact indentBlock_around (head?_blockLiteral content closing) (by decide)
      (getLast?_blockLiteral content closing) (by decide) hafter

/-- Tabs in the literal, a carriage return in the indentation, an empty line, a line that goes on in
the next one, and an escape. -/
theorem decodeLiteral_indentLines_mixed :
    (∀ c ∈ ['\t'], isBlank c = true) ∧ (∀ c ∈ ['\r', ' '], isSpace c = true ∧ c ≠ '\n') ∧
      (∀ line ∈ [['\t', 'a', '\\'], [], ['\t', '\t', '\\', 't']],
        (line = [] ∨ ['\t'] <+: line) ∧ '\n' ∉ line ∧ '\r' ∉ line) ∧
      decodeLiteral "\"\"\"\n\r \ta\\\n\n\r \t\t\\t\n\r \t\"\"\"" = "a\n\t\t" ∧
      decodeLiteral "\"\"\"\n\ta\\\n\n\t\t\\t\n\t\"\"\"" = "a\n\t\t" ∧
      indentBlock ['\r', ' '] "let a = \"\"\"\n\ta\\\n\n\t\t\\t\n\t\"\"\" + b".toList
        = "\r let a = \"\"\"\n\r \ta\\\n\n\r \t\t\\t\n\r \t\"\"\" + b".toList := by
  have hclosing : ∀ c ∈ ['\t'], isBlank c = true := by decide
  have hindent : ∀ c ∈ ['\r', ' '], isSpace c = true ∧ c ≠ '\n' := by decide
  have hlines : ∀ line ∈ [['\t', 'a', '\\'], [], ['\t', '\t', '\\', 't']],
      (line = [] ∨ ['\t'] <+: line) ∧ '\n' ∉ line ∧ '\r' ∉ line := by decide
  obtain ⟨hvalue, hblock⟩ :=
    decodeLiteral_indentLines (List.cons_ne_nil _ _) hclosing hindent hlines
  have hplain : decodeLiteral "\"\"\"\n\ta\\\n\n\t\t\\t\n\t\"\"\"" = "a\n\t\t" := by
    decide +kernel
  exact ⟨hclosing, hindent, hlines, hvalue.trans hplain, hplain,
    hblock "let a = ".toList " + b".toList (by decide)⟩

end LocalizedKeys.Expansion
