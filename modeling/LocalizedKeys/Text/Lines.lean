/-!
# Lines

A text falls into lines at line feeds alone. Joining the lines with line feeds gives the text
back, and there is always at least one line. The other way round, texts without line feeds that are
joined are the lines of what comes of it (`lines_join`).
-/

namespace LocalizedKeys.Text

/-- The lines of a text whose first line has begun with `current`, kept in reverse. -/
def linesFrom (current : List Char) : List Char → List (List Char)
  | [] => [current.reverse]
  | c :: rest =>
    if c = '\n' then current.reverse :: linesFrom [] rest else linesFrom (c :: current) rest

/-- The lines of a text. -/
def lines (cs : List Char) : List (List Char) := linesFrom [] cs

/-- Puts a separator between texts. -/
def join (separator : List Char) : List (List Char) → List Char
  | [] => []
  | [text] => text
  | text :: rest => text ++ separator ++ join separator rest

theorem linesFrom_ne_nil (current cs : List Char) : linesFrom current cs ≠ [] := by
  induction cs generalizing current with
  | nil => simp [linesFrom]
  | cons c rest ih => unfold linesFrom; split <;> simp [ih]

theorem join_cons (separator text : List Char) {rest : List (List Char)} (h : rest ≠ []) :
    join separator (text :: rest) = text ++ separator ++ join separator rest := by
  cases rest with
  | nil => contradiction
  | cons => rfl

/-! ## Texts that are joined -/

theorem linesFrom_append {line : List Char} (h : '\n' ∉ line) (current r : List Char) :
    linesFrom current (line ++ '\n' :: r) = (current.reverse ++ line) :: linesFrom [] r := by
  induction line generalizing current with
  | nil => simp [linesFrom]
  | cons c line ih =>
    have hc : c ≠ '\n' := (List.ne_of_not_mem_cons h).symm
    rw [List.cons_append, linesFrom, if_neg hc, ih (List.not_mem_of_not_mem_cons h),
      List.reverse_cons, List.append_assoc, List.singleton_append]

theorem linesFrom_of_not_mem {line : List Char} (h : '\n' ∉ line) (current : List Char) :
    linesFrom current line = [current.reverse ++ line] := by
  induction line generalizing current with
  | nil => simp [linesFrom]
  | cons c line ih =>
    have hc : c ≠ '\n' := (List.ne_of_not_mem_cons h).symm
    rw [linesFrom, if_neg hc, ih (List.not_mem_of_not_mem_cons h), List.reverse_cons,
      List.append_assoc, List.singleton_append]

/-- Lines are found again in the text that they are joined to. -/
theorem lines_join {texts : List (List Char)} (hne : texts ≠ [])
    (h : ∀ text ∈ texts, '\n' ∉ text) : lines (join ['\n'] texts) = texts := by
  rw [lines]
  induction texts with
  | nil => contradiction
  | cons text texts ih =>
    obtain ⟨hfirst, hrest⟩ := List.forall_mem_cons.1 h
    cases texts with
    | nil => exact linesFrom_of_not_mem hfirst []
    | cons next texts =>
      rw [join_cons _ _ (List.cons_ne_nil _ _), List.append_assoc, List.singleton_append,
        linesFrom_append hfirst, ih (List.cons_ne_nil _ _) hrest, List.reverse_nil, List.nil_append]

/-- Texts with an ending each are joined texts with an ending. -/
theorem flatMap_append_eq_join {texts : List (List Char)} (hne : texts ≠ [])
    (ending : List Char) :
    (texts.flatMap fun text => text ++ ending) = join ending texts ++ ending := by
  induction texts with
  | nil => contradiction
  | cons text texts ih =>
    cases texts with
    | nil => simp [join]
    | cons next texts =>
      rw [List.flatMap_cons, ih (List.cons_ne_nil _ _), join_cons _ _ (List.cons_ne_nil _ _)]
      simp only [List.append_assoc]

/-- An ending that all texts have can be seen as part of what stands between them. -/
theorem join_map_append {texts : List (List Char)} (hne : texts ≠ [])
    (separator ending : List Char) :
    join separator (texts.map fun text => text ++ ending)
      = join (ending ++ separator) texts ++ ending := by
  induction texts with
  | nil => contradiction
  | cons text texts ih =>
    cases texts with
    | nil => simp [join]
    | cons next texts =>
      rw [List.map_cons, join_cons _ _ (by simp), ih (List.cons_ne_nil _ _),
        join_cons _ _ (List.cons_ne_nil _ _)]
      simp only [List.append_assoc]

theorem mem_join {separator : List Char} {texts : List (List Char)} {c : Char}
    (h : c ∈ join separator texts) : c ∈ separator ∨ ∃ text ∈ texts, c ∈ text := by
  induction texts with
  | nil => simp [join] at h
  | cons text texts ih =>
    cases texts with
    | nil => exact .inr ⟨text, List.mem_cons_self, h⟩
    | cons next texts =>
      rw [join_cons _ _ (List.cons_ne_nil _ _), List.mem_append, List.mem_append] at h
      rcases h with (h | h) | h
      · exact .inr ⟨text, List.mem_cons_self, h⟩
      · exact .inl h
      · refine (ih h).imp_right ?_
        rintro ⟨other, hother, hc⟩
        exact ⟨other, List.mem_cons_of_mem _ hother, hc⟩

/-- A word in front of every text makes the whole longer by that much. -/
theorem length_join_map (separator front : List Char) (texts : List (List Char)) :
    (join separator (texts.map (front ++ ·))).length
      = (join separator texts).length + texts.length * front.length := by
  induction texts with
  | nil => simp [join]
  | cons text texts ih =>
    cases texts with
    | nil => simp [join, Nat.add_comm]
    | cons next texts =>
      rw [List.map_cons, join_cons _ _ (by simp), join_cons _ _ (List.cons_ne_nil _ _),
        List.length_cons, Nat.succ_mul]
      simp only [List.length_append, ih]
      omega

theorem length_join_le (separator : List Char) (texts : List (List Char)) :
    (join separator texts).length ≤ (texts.flatMap (separator ++ ·)).length := by
  induction texts with
  | nil => simp [join]
  | cons text texts ih =>
    cases texts with
    | nil => simp [join]
    | cons next texts =>
      rw [join_cons _ _ (List.cons_ne_nil _ _), List.flatMap_cons]
      simp only [List.length_append] at ih ⊢
      omega

/-- What is joined is what the standard library puts between. -/
theorem intercalate_eq_join (separator : List Char) (texts : List (List Char)) :
    separator.intercalate texts = join separator texts := by
  induction texts with
  | nil => rfl
  | cons text rest ih =>
    cases rest with
    | nil => simp [join]
    | cons next rest =>
      rw [List.intercalate_cons_cons, ih, join_cons _ _ (List.cons_ne_nil next rest)]

end LocalizedKeys.Text
