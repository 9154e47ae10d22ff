import LocalizedKeys.Proofs.EditedTrees
import LocalizedKeys.Proofs.MemberTexts

/-!
# Reading an expanded source

What comes out of an expansion is a source again, and its tree is the one that was asked for
(`readSource_expanded`). A type that was expanded has lost its annotation, and behind its members
there is one declaration for each member that was made for it; everything else is as it was.

This needs that the keys are literals and that no type which is expanded ends with attributes and
modifiers alone. It also needs that what is copied from the source to indent the new members is
layout, for the white space in front of a member or a brace may be of another kind (`IsReadable`).
-/

namespace LocalizedKeys.Expansion

open Swift Text Cursor

variable {source : List Char} {options : Options} {limits : Limits} {t : TypeDecl} {a : Attribute}
  {r : TypeResult} {ds : List Declaration} {report : Report}

/-! ## What is added to a type -/

/-- The indentation that the new members of a type get. -/
def newIndent (source : List Char) (options : Options) (t : TypeDecl) : List Char :=
  memberIndent source (some t.span.start) (t.members.map Declaration.span) options.indent.toList

/-- The new members that a type with a result has, as they are read; none if it is not expanded. -/
def newMembers (source : List Char) (options : Options) (t : TypeDecl) (r : TypeResult) :
    Option (List Outline) :=
  if r.succeeded then
    some ((r.rendered options).map fun text => textOutline (newIndent source options t) text.toList)
  else none

/-- What is added to a type of a source. -/
def addedTo (source : List Char) (options : Options) (t : TypeDecl) : Option (List Outline) :=
  match annotation? t with
  | none => none
  | some a =>
    match resultFor (.ofText source) options t a with
    | .error _ => none
    | .ok r => newMembers source options t r

/-- The result for a type can be read where it is put: the keys are literals, the last of the old
members ends in front of the new ones, and what these are indented with is layout, also where a line
of them goes on in the next one. -/
structure IsReadable (source : List Char) (options : Options) (t : TypeDecl) (a : Attribute)
    (r : TypeResult) : Prop where
  keys : ∀ arguments ∈ a.arguments, ∀ expression, LastLabelled arguments "prefix" expression →
    isSimpleLiteral expression = true
  last : ∀ d ∈ t.members.getLast?, d.isBare source = false
  indent : ∀ text ∈ r.rendered options, IndentFits (newIndent source options t) text.toList
  closing : r.rendered options ≠ [] →
    IsSpaceText (linePrefixText source (t.body.stop - 1)) →
    IsLayoutText (linePrefixText source (t.body.stop - 1))

/-- The members of a type in a source are well formed. -/
theorem isWellFormed_of_resultFor (hoptions : options.error? = none)
    (hread : readSource limits source = .ok ds) (ht : t ∈ types ds) (ha : annotation? t = some a)
    (hr : resultFor (.ofText source) options t a = .ok r)
    (hkeys : ∀ arguments ∈ a.arguments, ∀ expression, LastLabelled arguments "prefix" expression →
      isSimpleLiteral expression = true) :
    ∀ member ∈ r.members, member.IsWellFormed := by
  have hnames := names_of_readSource hread ht
  have hdecided := decided_resultFor hnames hr
  obtain ⟨c', hreads⟩ := reads_of_readSource hread
  intro member hmember
  cases hmembers : r.outcome with
  | error e => simp [(hdecided.failed e hmembers).1] at hmember
  | ok members =>
    rw [(hdecided.expanded members hmembers).1] at hmember
    have houtcome := (hdecided.outcome _).2 hmembers
    obtain ⟨arguments, hlist, hfit⟩ := houtcome.keysFit hoptions hnames
    obtain ⟨request, -, helements⟩ := houtcome.exists_element
    obtain ⟨header, inside, hinside, e, he, hbecomes⟩ := helements member hmember
    refine ⟨hbecomes.name_eq ▸ hnames header inside hinside e he, ?_⟩
    refine houtcome.isWellFormed ?_ ?_ hmember (hfit.simple (hkeys arguments hlist) member hmember)
    · exact hreads.forall_arguments isExpressionText_readArgument t ht a
        (List.mem_of_find?_eq_some ha)
    · intro header inside hinside e he
      exact ⟨hnames header inside hinside e he,
        (hreads.forall_cases isExpressionText_readCaseElement).2 _
          (mem_types_of_member ht hinside) e he⟩

theorem isBlank_lineIndent (source : List Char) (pos : Nat) :
    ∀ ch ∈ lineIndent source pos, isBlank ch = true :=
  List.all_eq_true.1 List.all_takeWhile

/-- What is put in front of the closing brace of a type is read as its new members. -/
theorem spells_memberInsertion {texts : List (List Char)} {indent : List Char}
    (hindent : indent = newIndent source options t)
    (htexts : ∀ text ∈ texts, IsStatic text ∧ IndentFits indent text)
    (hclosing : IsSpaceText (linePrefixText source (t.body.stop - 1)) →
      IsLayoutText (linePrefixText source (t.body.stop - 1)))
    (limit : Int) (levels : Nat) (rest : List Char) :
    Spells limit levels (some '\x7d')
      ((memberInsertion source (.of t) texts options.indent.toList).replacement ++ rest)
      (texts.map (textOutline indent)) ('\x7d' :: rest) := by
  subst hindent
  have hclose : (Site.of t).closing.toNat = t.body.stop - 1 := by
    simp only [Site.closing, Site.of]
    omega
  obtain ⟨lay, closingIndent, hlay, hback, hreplacement⟩ : ∃ lay closingIndent, IsLayoutText lay ∧
      IsLayoutText closingIndent ∧
      (memberInsertion source (.of t) texts options.indent.toList).replacement
        = lay ++ (join ['\n', '\n'] (texts.map (indentBlock (newIndent source options t)))
          ++ '\n' :: (closingIndent ++ ['\x7d'])) := by
    refine ⟨_, _, ?_, ?_, by
      simp only [memberInsertion, List.append_assoc, List.cons_append]
      rfl⟩
    · split <;> simp [IsLayoutText, isLayout, isLineEnd]
    · rw [hclose]
      split
      · rename_i hspace
        exact hclosing (List.all_eq_true.1 hspace)
      · exact fun ch hch => isLayout_of_isBlank (isBlank_lineIndent source _ ch hch)
  rw [hreplacement]
  have := spells_blocks hlay hback htexts limit levels rest
  simpa only [List.append_assoc, List.cons_append, List.nil_append] using this

/-- The rendered members of a type that can be read are declarations that fit where they are put. -/
theorem IsReadable.isStatic (h : IsReadable source options t a r)
    (hoptions : options.error? = none) (hread : readSource limits source = .ok ds)
    (ht : t ∈ types ds) (ha : annotation? t = some a)
    (hr : resultFor (.ofText source) options t a = .ok r) :
    ∀ text ∈ (r.rendered options).map String.toList,
      IsStatic text ∧ IndentFits (newIndent source options t) text := by
  intro text htext
  obtain ⟨text, hmem, rfl⟩ := List.mem_map.1 htext
  refine ⟨?_, h.indent text hmem⟩
  obtain ⟨member, hmember, rfl⟩ := List.mem_map.1 hmem
  have hwell := isWellFormed_of_resultFor hoptions hread ht ha hr h.keys member hmember
  exact hwell.isStatic options.mode (isBlank_indent hoptions)

/-- What is done to a type adds what it should. -/
theorem adds_addedTo (hoptions : options.error? = none) (hread : readSource limits source = .ok ds)
    (ht : t ∈ types ds)
    (hreadable : ∀ a r, annotation? t = some a → resultFor (.ofText source) options t a = .ok r →
      r.succeeded = true → IsReadable source options t a r) :
    Adds source options t (addedTo source options t) := by
  unfold addedTo
  cases ha : annotation? t with
  | none => exact .kept (by rw [editsOf, ha])
  | some a =>
    dsimp only
    cases hr : resultFor (.ofText source) options t a with
    | error e => exact .kept (by simp only [editsOf, ha, hr])
    | ok r =>
      dsimp only
      have hedits : editsOf source options t = editsFor source options t a r := by
        simp only [editsOf, ha, hr]
      rw [newMembers]
      by_cases hsucceeded : r.succeeded = true
      · have hfits := hreadable a r ha hr hsucceeded
        rw [if_pos hsucceeded]
        by_cases hnone : r.rendered options = []
        · rw [hnone]
          exact .removed ha (by simp [hedits, editsFor, hsucceeded, hnone])
        · have htexts := hfits.isStatic hoptions hread ht ha hr
          have hspells := spells_memberInsertion rfl htexts (hfits.closing hnone)
          rw [List.map_map] at hspells
          exact .inserted ha (by simp [hedits, editsFor, hsucceeded, hnone]) hfits.last hspells
      · rw [if_neg hsucceeded]
        exact .kept (by simp [hedits, editsFor, hsucceeded])

/-! ## The whole source -/

/-- The expanded source is the source with its edits at their places. -/
theorem expanded_eq (hoptions : options.error? = none) (hread : readSource limits source = .ok ds)
    (hreport : expandSource options limits source = .ok report) :
    report.expanded = editedFrom source (editsInPlace (editsOf source options) ds) 0 := by
  obtain ⟨edits, hall, happly⟩ := (expandSource_iff hread).1 hreport
  obtain ⟨-, -, hperm, -⟩ := applyEdits_edits hoptions hread hall
  have hordered := (ordered_editsInPlace hoptions (placed_of_readSource hread) (.inl rfl)
    (Nat.le_refl _)).mono_hi (Nat.sub_le _ _)
  rw [applyEdits, hordered.mergeSort_eq hperm] at happly
  exact Except.ok.inj (happly.symm.trans (applyFrom_eq hordered))

theorem exists_mem_zip {ts : List (TypeDecl × Attribute)} {results : List TypeResult}
    {table : LineTable} (h : Results table options ts results) {p : TypeDecl × Attribute}
    (hp : p ∈ ts) (hr : resultFor table options p.1 p.2 = .ok r) : (p, r) ∈ ts.zip results := by
  induction h with
  | nil => simp at hp
  | cons hq _ ih =>
    rw [List.zip_cons_cons, List.mem_cons]
    rcases List.mem_cons.1 hp with rfl | hp
    · exact .inl (by rw [Except.ok.inj (hq.symm.trans hr)])
    · exact .inr (ih hp)

/-- What is added to the annotated types is what their results say. -/
theorem forall₂_addedTo (hread : readSource limits source = .ok ds)
    (hreport : expandSource options limits source = .ok report) :
    List.Forall₂ (fun p r => addedTo source options p.1 = newMembers source options p.1 r)
      (annotated ds) report.results := by
  obtain ⟨edits, hall, -⟩ := (expandSource_iff hread).1 hreport
  have hannotated : ∀ p ∈ annotated ds, annotation? p.1 = some p.2 :=
    fun p hp => (mem_annotated.1 hp).2
  refine ((List.forall₂_and_left _ _).2 ⟨hannotated, (expandAll_iff.1 hall).1⟩).imp ?_
  rintro p r ⟨ha, hr⟩
  simp only [addedTo, ha, hr]

/-- **An expanded source is read again.** Its tree is that of the source, except that each type that
was expanded has lost its annotation and has its new members behind the old ones, each of them one
declaration. -/
theorem readSource_expanded (hoptions : options.error? = none)
    (hread : readSource limits source = .ok ds)
    (hreport : expandSource options limits source = .ok report)
    (hreadable : ∀ p ∈ (annotated ds).zip report.results, p.2.succeeded = true →
      IsReadable source options p.1.1 p.1.2 p.2) :
    ∃ ds', readSource ⟨0, limits.maxNestingDepth⟩ report.expanded = .ok ds' ∧
      outlines ds' = outlinesWith (addedTo source options) ds ∧
      List.Forall₂ (fun p r => addedTo source options p.1 = newMembers source options p.1 r)
        (annotated ds) report.results := by
  obtain ⟨edits, hall, -⟩ := (expandSource_iff hread).1 hreport
  obtain ⟨c', hreads⟩ := reads_of_readSource hread
  have hend : c'.rest = [] := List.head?_eq_none_iff.1 hreads.next?
  have hc' := hreads.reaches.at_of (Cursor.start_at source)
  have hlength := hc'.pos_add_length
  have hfollows : Follows source [] c'.pos :=
    ⟨.nil (Nat.le_trans (Nat.sub_le _ _) hc'.1), by simp⟩
  have hadds : ∀ t ∈ types ds, Adds source options t (addedTo source options t) := by
    intro t ht
    refine adds_addedTo hoptions hread ht fun a r ha hr hsucceeded => ?_
    have hmem : (t, a) ∈ annotated ds := mem_annotated.2 ⟨ht, ha⟩
    exact hreadable _ (exists_mem_zip (expandAll_iff.1 hall).1 hmem hr) hsucceeded
  have hrest : Spells limits.maxNestingDepth limits.maxNestingDepth.toNat none
      (editedFrom source [] c'.pos) [] [] := by
    rw [hend, List.length_nil] at hlength
    rw [editedFrom_of_le (Nat.le_of_eq hlength.symm : source.length ≤ c'.pos)]
    exact .done .nil trivial rfl
  have hspells := spells_edited hoptions hreads (Cursor.start_at source) hadds (.inl rfl) hfollows
    (by simp [Entered]) hrest
  rw [List.append_nil, List.append_nil] at hspells
  obtain ⟨ds', c'', hreads', houtlines, -⟩ := hspells 0
  refine ⟨ds', ?_, houtlines, forall₂_addedTo hread hreport⟩
  rw [expanded_eq hoptions hread hreport]
  exact readSource_eq_ok.2 ⟨by simp, c'', hreads'⟩

/-- A type inside another one, both annotated, and a member with parameters. -/
def twofoldSource : List Char :=
  "@A @LocalizedStrings(prefix: \"p\")\nenum L \x7b\n  enum Strings \x7b case a, b = \"%@\" \x7d\n\n  @LocalizedStrings() enum M \x7b enum Strings \x7b case c \x7d /* , */ \x7d\n\x7d\n".toList

theorem readSource_expanded_twofoldSource :
    ∃ ds report, readSource {} twofoldSource = .ok ds ∧
      expandSource {} {} twofoldSource = .ok report ∧
      report.results.map (fun r => (r.rendered {}).length) = [2, 1] ∧
      ∃ ds', readSource ⟨0, 100⟩ report.expanded = .ok ds' ∧
        outlines ds' = outlinesWith (addedTo twofoldSource {}) ds ∧
        List.Forall₂ (fun p r => addedTo twofoldSource {} p.1 = newMembers twofoldSource {} p.1 r)
          (annotated ds) report.results := by
  have hoptions : ({} : Options).error? = none := by decide +kernel
  obtain ⟨ds, report, hread, hreport, hrendered⟩ :=
    @exists_report_map twofoldSource {} {} _ (fun r => (r.rendered {}).length) [2, 1] hoptions
      (by decide +kernel)
  have hchecked : (readSource {} twofoldSource).toOption.all (fun ds => (annotated ds).all fun p =>
      (p.2.arguments.all fun arguments =>
        (Request.lastLabelled? arguments "prefix").all isSimpleLiteral) &&
      p.1.members.getLast?.all (!·.isBare twofoldSource) &&
      (newIndent twofoldSource {} p.1).all isBlank &&
      (linePrefixText twofoldSource (p.1.body.stop - 1)).all fun ch => isLayout ch || !isSpace ch)
      = true := by
    decide +kernel
  rw [hread] at hchecked
  refine ⟨ds, report, hread, hreport, hrendered, readSource_expanded hoptions hread hreport ?_⟩
  rintro ⟨p, r⟩ hp -
  have hall := List.all_eq_true.1 hchecked p (List.of_mem_zip hp).1
  simp only [Bool.and_eq_true] at hall
  obtain ⟨⟨⟨hkeys, hlast⟩, hindent⟩, hclosing⟩ := hall
  refine ⟨fun arguments harguments expression hlabel => ?_, fun d hd => ?_, fun text _ => ?_,
    fun _ hspace ch hch => ?_⟩
  · rw [Option.mem_def.1 harguments, Option.all_some, lastLabelled?_eq_some_iff.2 hlabel,
      Option.all_some] at hkeys
    exact hkeys
  · rw [Option.mem_def.1 hd, Option.all_some] at hlast
    simpa using hlast
  · exact .inl (List.all_eq_true.1 hindent)
  · simpa [hspace ch hch] using List.all_eq_true.1 hclosing ch hch

end LocalizedKeys.Expansion
