import LocalizedKeys.Proofs.Bodies
import LocalizedKeys.Proofs.LineTables

/-!
# The lines of multi-line literals

A multi-line literal is written in lines between delimiters of three quotes, all of them indented
like the closing delimiter. Its value should be these lines without the indentation.

`multilineBody_of_front` says what becomes of the lines between plain delimiters, whatever they are:
the white space in front of the closing delimiter is dropped from the front of each line that has it
there. From this follows the exact value of a literal with indented lines, with any number of hash
marks and either ending of lines (`multilineValue`). It is the lines in three cases only
(`KeepsLines`): a carriage return in front of the last line feed is never dropped, between hash marks
no indentation is dropped from a line, and without any line the indentation is taken for the text.
-/

namespace LocalizedKeys.Text

/-! ## What is dropped at the end -/

theorem dropWhileEnd_append {p : Char → Bool} {ending : List Char}
    (h : ∀ c ∈ ending, p c = true) (cs : List Char) :
    dropWhileEnd p (cs ++ ending) = dropWhileEnd p cs := by
  rw [dropWhileEnd, dropWhileEnd, List.reverse_append, List.dropWhile_append_of_pos]
  intro c hc
  exact h c (List.mem_reverse.1 hc)

theorem dropWhileEnd_concat {p : Char → Bool} {c : Char} (h : p c = false) (cs : List Char) :
    dropWhileEnd p (cs ++ [c]) = cs ++ [c] := by
  rw [dropWhileEnd, List.reverse_append, List.reverse_singleton, List.singleton_append,
    List.dropWhile_cons_of_neg (by simp [h]), List.reverse_cons, List.reverse_reverse]

end LocalizedKeys.Text

namespace LocalizedKeys.Swift

open Text

/-! ## Dropping words -/

theorem dropFront_append (word r : List Char) : dropFront word (word ++ r) = r := by
  rw [dropFront, if_pos (List.isPrefixOf_iff_prefix.2 (List.prefix_append word r)),
    List.drop_left]

theorem dropFront_of_not_prefix {word cs : List Char} (h : ¬word <+: cs) :
    dropFront word cs = cs := by
  rw [dropFront, if_neg fun hprefix => h (List.isPrefixOf_iff_prefix.1 hprefix)]

theorem dropFront_cons_ne {c d : Char} (h : c ≠ d) (word cs : List Char) :
    dropFront (c :: word) (d :: cs) = d :: cs :=
  dropFront_of_not_prefix fun hprefix => h (List.cons_prefix_cons.1 hprefix).1

theorem dropBack_append (cs word : List Char) : dropBack word (cs ++ word) = cs := by
  rw [dropBack, if_pos (List.isSuffixOf_iff_suffix.2 (List.suffix_append cs word)),
    List.length_append, Nat.add_sub_cancel, List.take_left]

/-! ## Between delimiters -/

/-- The delimiter of a multi-line literal. -/
def tripleQuote : List Char := ['"', '"', '"']

theorem betweenQuotes?_tripleQuote (between : List Char) :
    betweenQuotes? 3 (tripleQuote ++ (between ++ tripleQuote)) = some between := by
  have hfront : (List.replicate 3 '"').isPrefixOf (tripleQuote ++ (between ++ tripleQuote)) = true :=
    List.isPrefixOf_iff_prefix.2 (List.prefix_append tripleQuote _)
  have hback : (List.replicate 3 '"').isSuffixOf (tripleQuote ++ (between ++ tripleQuote)) = true :=
    List.isSuffixOf_iff_suffix.2
      ((List.suffix_append between tripleQuote).trans (List.suffix_append _ _))
  have hlength : (tripleQuote ++ (between ++ tripleQuote)).length = between.length + 6 := by
    simp [tripleQuote]
  rw [betweenQuotes?]
  simp only [hfront, hback, hlength, Bool.and_self, Bool.true_and, decide_eq_true_eq]
  rw [if_pos (by omega)]
  simp [tripleQuote]

/-- Without hash marks the escapes in the lines are replaced. -/
theorem literalValue_plain (between : List Char) :
    literalValue (tripleQuote ++ (between ++ tripleQuote)) = unescape (multilineBody between) := by
  have hhashes : ((tripleQuote ++ (between ++ tripleQuote)).takeWhile (· == '#')).length = 0 := rfl
  simp only [literalValue, hhashes, if_true, betweenQuotes?_tripleQuote]

/-- Between hash marks white space goes at the end and a line feed on both sides. -/
theorem literalValue_hashed {hashes : Nat} (h : 0 < hashes) (between : List Char) :
    literalValue (List.replicate hashes '#'
        ++ (tripleQuote ++ (between ++ tripleQuote) ++ List.replicate hashes '#'))
      = dropBack ['\n'] (dropWhileEnd isBlank (dropFront ['\n'] between)) := by
  generalize hinner : tripleQuote ++ (between ++ tripleQuote) = inner
  have hquote : ∃ rest, inner = '"' :: rest := ⟨_, hinner.symm⟩
  obtain ⟨rest, hrest⟩ := hquote
  have hcount : ((List.replicate hashes '#' ++ (inner ++ List.replicate hashes '#')).takeWhile
      (· == '#')).length = hashes := by
    rw [List.takeWhile_append_of_pos (by simp), hrest, List.cons_append,
      List.takeWhile_cons_of_neg (by decide), List.append_nil, List.length_replicate]
  have hback : (List.replicate hashes '#').isSuffixOf
      (List.replicate hashes '#' ++ (inner ++ List.replicate hashes '#')) = true :=
    List.isSuffixOf_iff_suffix.2 ((List.suffix_append _ _).trans (List.suffix_append _ _))
  have hcut : ((List.replicate hashes '#' ++ (inner ++ List.replicate hashes '#')).drop hashes).take
      ((List.replicate hashes '#' ++ (inner ++ List.replicate hashes '#')).length - 2 * hashes)
        = inner := by
    rw [List.drop_left' (List.length_replicate ..)]
    refine List.take_left' ?_
    simp only [List.length_append, List.length_replicate]
    omega
  rw [literalValue]
  simp only [hcount, if_neg (Nat.ne_of_gt h), rawValue?, hback, if_true, hcut]
  rw [← hinner, betweenQuotes?_tripleQuote]
  rfl

/-! ## The lines of the body -/

/-- Lines above a closing line of white space lose what stands on that line, if they begin with it. -/
theorem multilineBody_of_front {between closing : List Char} {above : List (List Char)}
    (hfront : dropFront ['\r', '\n'] (dropFront ['\n'] between) = join ['\n'] above ++ '\n' :: closing)
    (hne : above ≠ []) (hlines : ∀ line ∈ above, '\n' ∉ line)
    (hspace : ∀ c ∈ closing, isSpace c = true) (hclosing : '\n' ∉ closing) :
    multilineBody between = join ['\n'] (above.map (dropFront closing)) := by
  have hlast : ((join ['\n'] above ++ '\n' :: closing).reverse.takeWhile (· != '\n')).reverse
      = closing := by
    rw [List.reverse_append, List.reverse_cons, List.append_assoc, List.singleton_append,
      takeWhile_append_break, takeWhile_of_not_mem (by rwa [List.mem_reverse]),
      List.reverse_reverse]
  have hlength : (join ['\n'] above ++ '\n' :: closing).length
      = (join ['\n'] above).length + closing.length + 1 := by
    rw [List.length_append, List.length_cons, Nat.add_assoc]
  have habove : (join ['\n'] above ++ '\n' :: closing).take
      ((join ['\n'] above ++ '\n' :: closing).length - closing.length - 1) = join ['\n'] above := by
    refine List.take_left' ?_
    omega
  have hcond : (closing.length < (join ['\n'] above ++ '\n' :: closing).length
      && closing.all isSpace) = true := by
    rw [Bool.and_eq_true, decide_eq_true_eq, List.all_eq_true]
    exact ⟨by omega, hspace⟩
  rw [multilineBody]
  simp only [hfront, hlast, hcond, if_true, habove, lines_join hne hlines]

/-- Without a line feed between the lines there is nothing to drop. -/
theorem multilineBody_of_not_mem {between : List Char}
    (h : '\n' ∉ dropFront ['\r', '\n'] (dropFront ['\n'] between)) :
    multilineBody between = dropFront ['\r', '\n'] (dropFront ['\n'] between) := by
  rw [multilineBody]
  simp only [takeWhile_of_not_mem (by rwa [List.mem_reverse] :
    '\n' ∉ (dropFront ['\r', '\n'] (dropFront ['\n'] between)).reverse), List.reverse_reverse,
    Nat.lt_irrefl, decide_false, Bool.false_and, Bool.false_eq_true, if_false]

/-! ## Ends of lines -/

/-- How lines end. -/
inductive LineEnding where
  | lineFeed
  | carriageReturn
deriving DecidableEq, Repr

/-- The characters at the end of a line. -/
def LineEnding.chars : LineEnding → List Char
  | lineFeed => ['\n']
  | carriageReturn => ['\r', '\n']

/-- What is left of the end of a line when its line feed is dropped. -/
def LineEnding.remnant : LineEnding → List Char
  | lineFeed => []
  | carriageReturn => ['\r']

theorem LineEnding.remnant_append (ending : LineEnding) :
    ending.remnant ++ ['\n'] = ending.chars := by
  cases ending <;> rfl

/-- The line break behind the opening delimiter is dropped, and nothing behind it. -/
theorem LineEnding.dropFront_chars {ending : LineEnding} {r : List Char}
    (h : ending = .lineFeed → ¬['\r', '\n'] <+: r) :
    dropFront ['\r', '\n'] (dropFront ['\n'] (ending.chars ++ r)) = r := by
  cases ending with
  | lineFeed =>
    rw [chars, dropFront_append]
    exact dropFront_of_not_prefix (h rfl)
  | carriageReturn =>
    rw [chars, List.cons_append, dropFront_cons_ne (by decide)]
    exact dropFront_append ['\r', '\n'] r

/-! ## Lines with a closing line -/

/-- The literal of lines that end with line feeds: the opening delimiter stands on the first line,
and the closing one behind some white space on the last. -/
def blockLiteral (content : List (List Char)) (closing : List Char) : List Char :=
  join ['\n'] (tripleQuote :: (content ++ [closing ++ tripleQuote]))

theorem join_concat {texts : List (List Char)} (hne : texts ≠ []) (separator text : List Char) :
    join separator (texts ++ [text]) = join separator texts ++ separator ++ text := by
  induction texts with
  | nil => contradiction
  | cons first texts ih =>
    cases texts with
    | nil => rfl
    | cons next texts =>
      rw [List.cons_append, join_cons _ _ (by simp), ih (List.cons_ne_nil _ _),
        join_cons _ _ (List.cons_ne_nil _ _)]
      simp only [List.append_assoc]

theorem blockLiteral_eq {content : List (List Char)} (hne : content ≠ []) (closing : List Char) :
    blockLiteral content closing
      = tripleQuote
        ++ ((LineEnding.lineFeed.chars ++ (join ['\n'] content ++ '\n' :: closing)) ++ tripleQuote) := by
  rw [blockLiteral, join_cons _ _ (by simp), join_concat hne, LineEnding.chars]
  simp only [List.append_assoc, List.cons_append, List.nil_append]

/-- A line is no carriage return in front of a line feed unless it is one. -/
theorem not_prefix_line {line : List Char} (hline : '\n' ∉ line) (hne : line ≠ ['\r'])
    (r : List Char) : ¬['\r', '\n'] <+: line ++ '\n' :: r := by
  intro hprefix
  cases line with
  | nil => exact absurd (List.cons_prefix_cons.1 hprefix).1 (by decide)
  | cons c line =>
    obtain ⟨hreturn, hfeed⟩ := List.cons_prefix_cons.1 hprefix
    cases line with
    | nil => exact hne (by rw [hreturn])
    | cons d line =>
      have hd : '\n' = d := (List.cons_prefix_cons.1 hfeed).1
      exact hline (hd ▸ List.mem_cons_of_mem _ List.mem_cons_self)

theorem literalValue_blockLiteral {content : List (List Char)} {closing : List Char}
    (hne : content ≠ []) (hlines : ∀ line ∈ content, '\n' ∉ line)
    (hfirst : content.head? ≠ some ['\r']) (hspace : ∀ c ∈ closing, isSpace c = true)
    (hclosing : '\n' ∉ closing) :
    literalValue (blockLiteral content closing)
      = unescape (join ['\n'] (content.map (dropFront closing))) := by
  have hprefix : ¬['\r', '\n'] <+: join ['\n'] content ++ '\n' :: closing := by
    cases content with
    | nil => contradiction
    | cons line content =>
      have hline := hlines line List.mem_cons_self
      have hother : line ≠ ['\r'] := fun h => hfirst (congrArg some h)
      cases content with
      | nil => exact not_prefix_line hline hother closing
      | cons next content =>
        rw [join_cons _ _ (List.cons_ne_nil _ _), List.append_assoc, List.append_assoc]
        exact not_prefix_line hline hother _
  have hfront := @LineEnding.dropFront_chars .lineFeed _ fun _ => hprefix
  rw [blockLiteral_eq hne, literalValue_plain,
    multilineBody_of_front hfront hne hlines hspace hclosing]

/-! ## Indented lines -/

/-- Indented lines, and the indentation of the delimiter behind them. -/
def indentedLines (ending : LineEnding) (indent : List Char) (content : List (List Char)) :
    List Char :=
  (content.flatMap fun line => indent ++ line ++ ending.chars) ++ indent

/-- The literal of lines that are all indented like its closing delimiter. -/
def multilineLiteral (hashes : Nat) (ending : LineEnding) (indent : List Char)
    (content : List (List Char)) : List Char :=
  List.replicate hashes '#' ++ tripleQuote ++ ending.chars ++ indentedLines ending indent content
    ++ tripleQuote ++ List.replicate hashes '#'

/-- What is left of indented lines between plain delimiters. -/
def plainLines (ending : LineEnding) (indent : List Char) (content : List (List Char)) :
    List Char :=
  if content = [] then indent else join ending.chars content ++ ending.remnant

/-- What is left of indented lines between hash marks. -/
def hashedLines (ending : LineEnding) (indent : List Char) (content : List (List Char)) :
    List Char :=
  match ending with
  | .lineFeed => join ['\n'] (content.map fun line => indent ++ line)
  | .carriageReturn => '\r' :: content.flatMap fun line => '\n' :: (indent ++ line ++ ['\r'])

/-- The value of a literal of indented lines. -/
def multilineValue (hashes : Nat) (ending : LineEnding) (indent : List Char)
    (content : List (List Char)) : List Char :=
  if hashes = 0 then plainLines ending indent content else hashedLines ending indent content

variable {hashes : Nat} {ending : LineEnding} {indent : List Char} {content : List (List Char)}

theorem multilineLiteral_eq : multilineLiteral hashes ending indent content
    = List.replicate hashes '#'
      ++ (tripleQuote ++ ((ending.chars ++ indentedLines ending indent content) ++ tripleQuote)
        ++ List.replicate hashes '#') := by
  simp only [multilineLiteral, List.append_assoc]

theorem indentedLines_nil : indentedLines ending indent [] = indent := rfl

theorem indentedLines_eq (hne : content ≠ []) :
    indentedLines ending indent content
      = join ['\n'] (content.map fun line => indent ++ (line ++ ending.remnant))
        ++ '\n' :: indent := by
  have hlines : (content.flatMap fun line => indent ++ line ++ ending.chars)
      = (content.map fun line => indent ++ (line ++ ending.remnant)).flatMap
          fun line => line ++ ['\n'] := by
    rw [List.flatMap_map]
    simp only [← ending.remnant_append, List.append_assoc]
  rw [indentedLines, hlines, flatMap_append_eq_join (by simpa using hne), List.append_assoc,
    List.singleton_append]

/-! ## The value of indented lines -/

theorem ne_of_isBlank {c d : Char} (h : isBlank c = true) (hd : isBlank d = false) : c ≠ d := by
  intro heq
  rw [heq, hd] at h
  exact Bool.noConfusion h

theorem IsVerbatim.ne_lineFeed {c : Char} (h : IsVerbatim c) : c ≠ '\n' := by
  intro heq
  rw [heq] at h
  exact Bool.noConfusion h.2.2

theorem IsVerbatim.ne_carriageReturn {c : Char} (h : IsVerbatim c) : c ≠ '\r' := by
  intro heq
  rw [heq] at h
  exact Bool.noConfusion h.2.2

section

variable (hindent : ∀ c ∈ indent, isBlank c = true)
  (hcontent : ∀ line ∈ content, ∀ c ∈ line, IsVerbatim c)

include hindent

theorem lineFeed_notMem_indent : '\n' ∉ indent :=
  fun h => ne_of_isBlank (hindent _ h) (by decide) rfl

include hcontent

theorem lineFeed_notMem_line :
    ∀ line ∈ content.map (fun line => indent ++ (line ++ ending.remnant)), '\n' ∉ line := by
  intro line hline hmem
  obtain ⟨original, horiginal, rfl⟩ := List.mem_map.1 hline
  rcases List.mem_append.1 hmem with hmem | hmem
  · exact lineFeed_notMem_indent hindent hmem
  · rcases List.mem_append.1 hmem with hmem | hmem
    · exact (hcontent original horiginal _ hmem).ne_lineFeed rfl
    · cases ending <;> simp [LineEnding.remnant] at hmem

theorem not_prefix_indentedLines : ¬['\r', '\n'] <+: indentedLines .lineFeed indent content := by
  intro hprefix
  have hmem : '\r' ∈ indentedLines .lineFeed indent content :=
    hprefix.subset (List.mem_cons_self ..)
  simp only [indentedLines, List.mem_append, List.mem_flatMap, LineEnding.chars,
    List.mem_singleton] at hmem
  rcases hmem with ⟨line, hline, (hmem | hmem) | hmem⟩ | hmem
  · exact ne_of_isBlank (hindent _ hmem) (by decide) rfl
  · exact (hcontent line hline _ hmem).ne_carriageReturn rfl
  · exact absurd hmem (by decide)
  · exact ne_of_isBlank (hindent _ hmem) (by decide) rfl

/-- Between plain delimiters the indentation is dropped from the lines, but the last one keeps the
carriage return at its end. -/
theorem multilineBody_indentedLines :
    multilineBody (ending.chars ++ indentedLines ending indent content)
      = plainLines ending indent content := by
  unfold plainLines
  have hfront := @LineEnding.dropFront_chars ending (indentedLines ending indent content)
    fun h => h ▸ not_prefix_indentedLines hindent hcontent
  split
  · rename_i hnil
    subst hnil
    rw [indentedLines_nil] at hfront ⊢
    have hnot := lineFeed_notMem_indent hindent
    rw [← hfront] at hnot
    rw [multilineBody_of_not_mem hnot, hfront]
  · rename_i hne
    rw [indentedLines_eq hne] at hfront ⊢
    rw [multilineBody_of_front hfront (by simpa using hne)
      (lineFeed_notMem_line hindent hcontent) (fun c hc => isSpace_of_isBlank (hindent c hc))
      (lineFeed_notMem_indent hindent), List.map_map]
    have hdrop : (dropFront indent ∘ fun line => indent ++ (line ++ ending.remnant))
        = fun line => line ++ ending.remnant := by
      funext line
      exact dropFront_append indent _
    rw [hdrop, join_map_append hne, ending.remnant_append]

theorem backslash_notMem_plainLines : '\\' ∉ plainLines ending indent content := by
  intro hmem
  unfold plainLines at hmem
  split at hmem
  · exact ne_of_isBlank (hindent _ hmem) (by decide) rfl
  · rcases List.mem_append.1 hmem with hmem | hmem
    · rcases mem_join hmem with hmem | ⟨line, hline, hmem⟩
      · cases ending <;> simp [LineEnding.chars] at hmem
      · exact (hcontent line hline _ hmem).2.1 rfl
    · cases ending <;> simp [LineEnding.remnant] at hmem

omit hcontent in
/-- Between hash marks the lines keep their indentation, and there are carriage returns at both ends
if lines end with them. -/
theorem dropped_indentedLines :
    dropBack ['\n'] (dropWhileEnd isBlank (dropFront ['\n']
        (ending.chars ++ indentedLines ending indent content)))
      = hashedLines ending indent content := by
  cases ending with
  | lineFeed =>
    rw [LineEnding.chars, dropFront_append, indentedLines, dropWhileEnd_append hindent]
    by_cases hne : content = []
    · subst hne
      rfl
    · have hlines : (content.flatMap fun line => indent ++ line ++ LineEnding.lineFeed.chars)
          = join ['\n'] (content.map fun line => indent ++ line) ++ ['\n'] := by
        rw [← flatMap_append_eq_join (by simpa using hne), List.flatMap_map]
        rfl
      rw [hlines, dropWhileEnd_concat (by decide), dropBack_append]
      rfl
  | carriageReturn =>
    have hlines : ∀ content : List (List Char),
        '\n' :: (content.flatMap fun line => indent ++ line ++ LineEnding.carriageReturn.chars)
          = (content.flatMap fun line => '\n' :: (indent ++ line ++ ['\r'])) ++ ['\n'] := by
      -- the line feed at the end of each line is counted to the next one
      intro content
      induction content with
      | nil => rfl
      | cons line content ih =>
        rw [List.flatMap_cons, List.flatMap_cons, List.append_assoc (_ :: _), ← ih,
          LineEnding.chars]
        simp only [List.append_assoc, List.cons_append, List.nil_append]
    rw [LineEnding.chars, List.cons_append, dropFront_cons_ne (by decide), indentedLines,
      List.cons_append, List.nil_append, ← List.cons_append, ← List.cons_append,
      dropWhileEnd_append hindent, hlines, ← List.cons_append, dropWhileEnd_concat (by decide),
      dropBack_append]
    rfl

end

/-! ## Whether the lines come back -/

theorem plainLines_eq_iff :
    plainLines ending indent content = join ending.chars content ↔
      (content = [] ∧ indent = []) ∨ (content ≠ [] ∧ ending = .lineFeed) := by
  unfold plainLines
  by_cases hnil : content = []
  · simp [hnil, join]
  · rw [if_neg hnil, List.append_right_eq_self]
    cases ending <;> simp [hnil, LineEnding.remnant]

theorem length_hashedLines :
    (join LineEnding.carriageReturn.chars content).length
      < (hashedLines .carriageReturn indent content).length := by
  have hlines : (content.flatMap (LineEnding.carriageReturn.chars ++ ·)).length
      ≤ (content.flatMap fun line => '\n' :: (indent ++ line ++ ['\r'])).length := by
    induction content with
    | nil => exact Nat.le_refl _
    | cons line content ih =>
      simp only [List.flatMap_cons, List.length_append, List.length_cons, List.length_nil,
        LineEnding.chars] at ih ⊢
      omega
  exact Nat.lt_succ_of_le (Nat.le_trans (length_join_le _ content) hlines)

theorem hashedLines_eq_iff :
    hashedLines ending indent content = join ending.chars content ↔
      ending = .lineFeed ∧ (content = [] ∨ indent = []) := by
  cases ending with
  | lineFeed =>
    constructor
    · intro h
      -- every line is longer by the indentation
      have hlength := congrArg List.length h
      rw [hashedLines, length_join_map, LineEnding.chars, Nat.add_eq_left, Nat.mul_eq_zero,
        List.length_eq_zero_iff, List.length_eq_zero_iff] at hlength
      exact ⟨rfl, hlength⟩
    · rintro ⟨-, rfl | rfl⟩
      · rfl
      · simp [hashedLines, LineEnding.chars]
  | carriageReturn =>
    constructor
    · intro h
      have hlength := @length_hashedLines indent content
      rw [h] at hlength
      exact absurd hlength (Nat.lt_irrefl _)
    · intro h
      exact absurd h.1 (by decide)

/-- The cases in which the value is just the lines. -/
inductive KeepsLines (indent : List Char) (content : List (List Char)) : Nat → LineEnding → Prop
  | plain : content ≠ [] → KeepsLines indent content 0 .lineFeed
  | bare {ending : LineEnding} : content = [] → indent = [] → KeepsLines indent content 0 ending
  | hashed {hashes : Nat} : content = [] ∨ indent = [] →
      KeepsLines indent content (hashes + 1) .lineFeed

theorem multilineValue_eq_iff :
    multilineValue hashes ending indent content = join ending.chars content ↔
      KeepsLines indent content hashes ending := by
  cases hashes with
  | zero =>
    rw [multilineValue, if_pos rfl, plainLines_eq_iff]
    constructor
    · rintro (⟨hnil, hindent⟩ | ⟨hne, rfl⟩)
      · exact .bare hnil hindent
      · exact .plain hne
    · intro h
      cases h with
      | plain hne => exact .inr ⟨hne, rfl⟩
      | bare hnil hindent => exact .inl ⟨hnil, hindent⟩
  | succ hashes =>
    rw [multilineValue, if_neg (Nat.succ_ne_zero hashes), hashedLines_eq_iff]
    constructor
    · rintro ⟨rfl, h⟩
      exact .hashed h
    · intro h
      cases h with
      | hashed h => exact ⟨rfl, h⟩

/-- **The value of a literal of indented lines**, and when it is these lines. -/
theorem decodeLiteral_multilineLiteral (hindent : ∀ c ∈ indent, isBlank c = true)
    (hcontent : ∀ line ∈ content, ∀ c ∈ line, IsVerbatim c) :
    decodeLiteral (String.ofList (multilineLiteral hashes ending indent content))
        = String.ofList (multilineValue hashes ending indent content) ∧
      (decodeLiteral (String.ofList (multilineLiteral hashes ending indent content))
          = String.ofList (join ending.chars content) ↔
        KeepsLines indent content hashes ending) := by
  have hvalue : literalValue (multilineLiteral hashes ending indent content)
      = multilineValue hashes ending indent content := by
    rw [multilineLiteral_eq]
    cases hashes with
    | zero =>
      rw [List.replicate_zero, List.nil_append, List.append_nil, literalValue_plain,
        multilineBody_indentedLines hindent hcontent, multilineValue, if_pos rfl]
      exact unescape_of_not_mem (backslash_notMem_plainLines hindent hcontent)
    | succ hashes =>
      rw [literalValue_hashed (Nat.succ_pos hashes), dropped_indentedLines hindent,
        multilineValue, if_neg (Nat.succ_ne_zero hashes)]
  have hdecode : decodeLiteral (String.ofList (multilineLiteral hashes ending indent content))
      = String.ofList (multilineValue hashes ending indent content) := by
    rw [decodeLiteral, String.toList_ofList, hvalue]
  refine ⟨hdecode, ?_⟩
  rw [hdecode, String.ofList_inj, multilineValue_eq_iff]

/-- The last of the lines keeps its carriage return, and so do not all literals keep their lines. -/
theorem decodeLiteral_multilineLiteral_carriageReturn :
    (∀ c ∈ [' ', ' '], isBlank c = true) ∧
      (∀ line ∈ [['a'], [], ['b']], ∀ c ∈ line, IsVerbatim c) ∧
      decodeLiteral "\"\"\"\r\n  a\r\n  \r\n  b\r\n  \"\"\"" = "a\r\n\r\nb\r" ∧
      ¬KeepsLines [' ', ' '] [['a'], [], ['b']] 0 .carriageReturn := by
  have hindent : ∀ c ∈ [' ', ' '], isBlank c = true := by decide
  have hcontent : ∀ line ∈ [['a'], [], ['b']], ∀ c ∈ line, IsVerbatim c := by decide
  obtain ⟨hvalue, hiff⟩ :=
    @decodeLiteral_multilineLiteral 0 .carriageReturn _ _ hindent hcontent
  refine ⟨hindent, hcontent, hvalue, fun hkeeps => ?_⟩
  rw [← hiff, hvalue, String.ofList_inj] at hkeeps
  exact absurd hkeeps (by decide)

end LocalizedKeys.Swift
