import LocalizedKeys.Proofs.ExpressionTexts
import LocalizedKeys.Proofs.Keys

/-!
# Lookups are read back

The call of a lookup is put together from texts that were cut out of a source, where raw values and
arguments end in different ways. Each of them is read again as one argument of the call, with its
label and nothing of its neighbours (`readsBack_of_expandSource`). Only comments that a text begins
with are lost, since they stand where trivia is skipped.

What is needed for this is that everything in a lookup is the text of an expression
(`Lookup.IsWellFormed`). This is an invariant of reading: it holds of every raw value and every
argument in a tree that was read, and a lookup is made of these and of simple literals. The key is
one if the prefix is.
-/

namespace LocalizedKeys.Swift

open Text

/-! ## What is read -/

theorem isExpressionText_readArgument {c c' : Cursor} {a : Argument}
    (h : readArgument c = .ok (a, c')) : IsExpressionText a.expression.toList := by
  obtain ⟨c₁, -, hscan, hne, -⟩ := readArgument_spec h
  exact isExpressionText_of_scan (by decide) hscan hne

theorem isExpressionText_readRawValue {c c' : Cursor} {rawValue : Option String}
    (h : readRawValue c = .ok (rawValue, c')) :
    ∀ text ∈ rawValue, IsExpressionText text.toList := by
  unfold readRawValue at h
  split at h
  · split at h
    · simp at h
    · split at h
      · simp at h
      · rename_i hscan
        split at h
        · simp at h
        · rename_i hne
          split at h
          · simp at h
          · obtain ⟨rfl, -⟩ := Prod.mk.inj (Except.ok.inj h)
            intro text htext
            obtain rfl := Option.some.inj htext
            exact isExpressionText_of_scan (by decide) hscan (by simpa using hne)
  · obtain ⟨rfl, -⟩ := Prod.mk.inj (Except.ok.inj h)
    simp

theorem isExpressionText_readCaseElement {c c' : Cursor} {e : CaseElement}
    (h : readCaseElement c = .ok (e, c')) : ∀ text ∈ e.rawValue, IsExpressionText text.toList := by
  obtain ⟨_, _, _, _, _, _, _, _, _, _, hraw, rfl⟩ := readCaseElement_spec h
  exact isExpressionText_readRawValue hraw

end LocalizedKeys.Swift

namespace LocalizedKeys.Expansion

open Swift Text

/-! ## Calls -/

namespace Lookup

/-- Everything in a lookup is the text of an expression, and the key is a simple literal. -/
structure IsWellFormed (l : Lookup) : Prop where
  key : isSimpleLiteral l.key = true
  defaultValue : IsExpressionText l.defaultValue.toList
  table : IsExpressionText l.table.toList
  bundle : IsExpressionText l.bundle.toList
  comment : IsExpressionText l.comment.toList

/-- The arguments that are read from the call of a lookup. -/
def readBack (l : Lookup) : Mode → List ArgumentOutline
  | .current =>
    [⟨some "localized", l.key⟩, ⟨some "defaultValue", Swift.readBack l.defaultValue⟩]
      ++ (if l.table = "nil" then [] else [⟨some "table", Swift.readBack l.table⟩])
      ++ (if l.bundle = ".main" ∨ l.bundle = "Bundle.main" then []
          else [⟨some "bundle", Swift.readBack l.bundle⟩])
      ++ (if l.comment = "\"\"" then [] else [⟨some "comment", Swift.readBack l.comment⟩])
  | .legacy =>
    [⟨none, l.key⟩, ⟨some "tableName", Swift.readBack l.table⟩,
      ⟨some "bundle", Swift.readBack l.bundle⟩, ⟨some "value", Swift.readBack l.defaultValue⟩,
      ⟨some "comment", Swift.readBack l.comment⟩]

/-- The place in the call of a lookup where its argument list begins. -/
def argumentList (l : Lookup) (mode : Mode) : Cursor :=
  (Cursor.start (l.render mode).toList).skipWhile (· != '(')

/-- The argument list of the call is read up to the end of the call. -/
def ReadsBack (l : Lookup) : Prop :=
  ∀ mode, ∃ arguments, readArgumentList (l.argumentList mode)
      = .ok (arguments, ⟨(l.render mode).toList.length, []⟩) ∧
    arguments.map Argument.outline = l.readBack mode

variable {l : Lookup}

/-- An argument of the call as it is printed. -/
def printed (a : Option String × String) : List Char := printArgument ⟨a.1, a.2⟩

theorem toList_argumentText (a : Option String × String) :
    (argumentText a).toList = printed a := by
  obtain ⟨label, expression⟩ := a
  cases label <;> simp [argumentText, printed, printArgument]

theorem toList_render (l : Lookup) (mode : Mode) :
    (l.render mode).toList = (callee mode).toList
      ++ '(' :: (join commaSpace ((l.callArguments mode).map printed) ++ [')']) := by
  have hprinted : String.toList ∘ argumentText = printed := funext toList_argumentText
  simp only [render, String.toList_append, String.toList_intercalate, List.map_map,
    intercalate_eq_join, List.append_assoc, hprinted]
  rfl

theorem argumentList_eq (l : Lookup) (mode : Mode) :
    l.argumentList mode = ⟨(callee mode).toList.length,
      '(' :: (join commaSpace ((l.callArguments mode).map printed) ++ [')'])⟩ := by
  have hcallee : ∀ c ∈ (callee mode).toList, (c != '(') = true := by
    cases mode <;> decide
  rw [argumentList, Cursor.skipWhile, Cursor.start, toList_render,
    takeWhile_append_of_all hcallee (by simp), Cursor.advance_append, Nat.zero_add]

theorem readBack_of_isSimpleLiteral {text : String} (h : isSimpleLiteral text = true) :
    Swift.readBack text = text := by
  obtain ⟨body, heq, -⟩ := isSimple_iff.1 h
  rw [Swift.readBack, if_neg (by simp [beginsWithComment, heq])]

/-- An argument that can be left out of a call is left out of both lists or of none. -/
theorem readsArguments_unless {omitted : Bool} {p : Prop} [Decidable p]
    {argument : Option String × String} {a : ArgumentOutline} (hp : omitted = true ↔ p)
    (h : ReadsArgument (printed argument) a) :
    List.Forall₂ ReadsArgument ((if omitted then [] else [argument]).map printed)
      (if p then [] else [a]) := by
  by_cases hcase : p
  · rw [if_pos (hp.2 hcase), if_pos hcase]
    exact .nil
  · rw [if_neg (mt hp.1 hcase), if_neg hcase]
    exact .cons h .nil

/-- Every argument of the call is read for itself. -/
theorem IsWellFormed.readsArguments (h : l.IsWellFormed) (mode : Mode) :
    List.Forall₂ ReadsArgument ((l.callArguments mode).map printed) (l.readBack mode) := by
  have hname : ∀ label ∈ ["localized", "defaultValue", "table", "bundle", "comment", "tableName",
      "value"], IsName label.toList := by
    intro label hlabel
    refine .inl ?_
    revert label
    decide
  have hread : ∀ label ∈ ["localized", "defaultValue", "table", "bundle", "comment", "tableName",
      "value"], ∀ {text : String}, IsExpressionText text.toList →
      ReadsArgument (printed (some label, text)) ⟨some label, Swift.readBack text⟩ :=
    fun label hlabel _ htext => readsArgument_text (hname label hlabel) htext
  cases mode with
  | legacy =>
    have hfirst : ReadsArgument (printed (none, l.key)) ⟨none, l.key⟩ :=
      readsArgument_printed ⟨by simp, .inl h.key⟩
    exact .cons hfirst (.cons (hread _ (by decide) h.table) (.cons (hread _ (by decide) h.bundle)
      (.cons (hread _ (by decide) h.defaultValue) (.cons (hread _ (by decide) h.comment) .nil))))
  | current =>
    have hkey := hread "localized" (by decide) (isSimple_iff.1 h.key).isExpressionText
    rw [readBack_of_isSimpleLiteral h.key] at hkey
    have hfirst : List.Forall₂ ReadsArgument
        ([(some "localized", l.key), (some "defaultValue", l.defaultValue)].map printed)
        [⟨some "localized", l.key⟩, ⟨some "defaultValue", Swift.readBack l.defaultValue⟩] :=
      .cons hkey (.cons (hread _ (by decide) h.defaultValue) .nil)
    have htable : l.usesDefaultTable = true ↔ l.table = "nil" := by
      rw [usesDefaultTable, beq_iff_eq, defaultTable]
    have hbundle : l.usesDefaultBundle = true ↔ l.bundle = ".main" ∨ l.bundle = "Bundle.main" := by
      rw [usesDefaultBundle, Bool.or_eq_true, beq_iff_eq, beq_iff_eq]
    have hcomment : l.usesDefaultComment = true ↔ l.comment = "\"\"" := by
      rw [usesDefaultComment, beq_iff_eq]
    rw [callArguments, readBack, List.map_append, List.map_append, List.map_append]
    exact List.rel_append (List.rel_append (List.rel_append hfirst
      (readsArguments_unless htable (hread _ (by decide) h.table)))
      (readsArguments_unless hbundle (hread _ (by decide) h.bundle)))
      (readsArguments_unless hcomment (hread _ (by decide) h.comment))

/-- **A well-formed lookup is read back from its call.** -/
theorem IsWellFormed.readsBack (h : l.IsWellFormed) : l.ReadsBack := by
  intro mode
  obtain ⟨arguments, stop, hread, hmap⟩ :=
    readArgumentList_join (h.readsArguments mode) [] (callee mode).toList.length
  rw [← argumentList_eq] at hread
  -- nothing of the call is left, so the list ends where the call does
  have hat : (l.argumentList mode).At (l.render mode).toList :=
    Cursor.advance_at (Cursor.start_at _) _
  have hend := ((reaches_readArgumentList hread).at_of hat).pos_add_length
  rw [List.length_nil, Nat.add_zero] at hend
  exact ⟨arguments, hend ▸ hread, hmap⟩

end Lookup

/-! ## Lookups of a source -/

variable {options : Options}

theorem isExpressionText_defaultValue {e : CaseElement} (hname : IsName e.name.toList)
    (hraw : ∀ text ∈ e.rawValue, IsExpressionText text.toList) :
    IsExpressionText (defaultValue e).toList := by
  rw [defaultValue]
  cases hvalue : e.rawValue with
  | some text => exact hraw text hvalue
  | none =>
    obtain ⟨bare, hbare⟩ := exists_hasBareName hname
    rw [Option.getD_none, hbare.bareName_eq]
    have hsimple := isSimpleLiteral_quote_iff.2 (.of_verbatim hbare.verbatim)
    exact (isSimple_iff.1 hsimple).isExpressionText

/-- A text that the annotation names, or the default for it. -/
theorem isExpressionText_lastLabelled {arguments : List Argument} {label default : String}
    (harguments : ∀ argument ∈ arguments, IsExpressionText argument.expression.toList)
    (hdefault : IsExpressionText default.toList) :
    IsExpressionText ((Request.lastLabelled? arguments label).getD default).toList := by
  cases hlast : Request.lastLabelled? arguments label with
  | none => exact hdefault
  | some expression =>
    obtain ⟨before, argument, after, rfl, -, rfl, -⟩ := lastLabelled?_eq_some_iff.1 hlast
    exact harguments argument (List.mem_append_right _ (List.mem_cons_self ..))

/-- The lookups of a type are well formed if its arguments and cases were read from a source. -/
theorem Outcome.isWellFormed {t : TypeDecl} {a : Attribute} {members : List Member}
    (h : Outcome options t a (.ok members))
    (harguments : ∀ arguments ∈ a.arguments, ∀ argument ∈ arguments,
      IsExpressionText argument.expression.toList)
    (hcases : ∀ header inside, .type header inside ∈ t.members →
      ∀ e ∈ (⟨header, inside⟩ : TypeDecl).caseElements,
        IsName e.name.toList ∧ ∀ text ∈ e.rawValue, IsExpressionText text.toList)
    {member : Member} (hmember : member ∈ members)
    (hkey : isSimpleLiteral member.lookup.key = true) : member.lookup.IsWellFormed := by
  obtain ⟨request, ⟨-, arguments, hlist, hrequest, -⟩, hmembers⟩ := h.exists_element
  obtain ⟨header, inside, hinside, e, he, hbecomes⟩ := hmembers member hmember
  obtain ⟨hname, hraw⟩ := hcases header inside hinside e he
  have hdefault : ∀ text ∈ [defaultTable, defaultBundle], IsExpressionText text.toList := by
    intro text htext
    refine isExpressionText_of_plain ?_ ?_ <;> revert text <;> decide
  have hcomment : IsSimple "\"\"".toList := ⟨['"'], by decide, by decide⟩
  rw [hbecomes.lookup_eq] at hkey ⊢
  rw [ofArguments_eq hrequest] at hkey ⊢
  exact {
    key := hkey
    defaultValue := isExpressionText_defaultValue hname hraw
    table := isExpressionText_lastLabelled (harguments arguments hlist) (hdefault _ (by decide))
    bundle := isExpressionText_lastLabelled (harguments arguments hlist) (hdefault _ (by decide))
    comment := hcomment.isExpressionText }

/-- **The lookups of a source are read back.** -/
theorem readsBack_of_expandSource {limits : Limits} {source : List Char} {ds : List Declaration}
    {report : Report} (hoptions : options.error? = none) (hread : readSource limits source = .ok ds)
    (hreport : expandSource options limits source = .ok report) :
    List.Forall₂ (fun t r => ∃ a, AnnotatedBy t a ∧ ∀ members, r.outcome = .ok members →
        ∃ arguments, a.arguments = some arguments ∧
          ((∀ expression, LastLabelled arguments "prefix" expression →
              isSimpleLiteral expression = true) →
            ∀ member ∈ members, member.lookup.ReadsBack))
      ((types ds).filter fun t => t.attributes.any requestsExpansion) report.results := by
  obtain ⟨c', hreads⟩ := reads_of_readSource hread
  have htypes : ∀ t ∈ (types ds).filter fun t => t.attributes.any requestsExpansion,
      t ∈ types ds := fun t ht => (List.mem_filter.1 ht).1
  refine ((List.forall₂_and_left _ _).2 ⟨htypes, decided_of_expandSource hread hreport⟩).imp ?_
  rintro t r ⟨ht, a, ha, hdecided⟩
  refine ⟨a, ha, fun members hmembers => ?_⟩
  have houtcome := (hdecided.outcome _).2 hmembers
  obtain ⟨arguments, hlist, hkeys⟩ := houtcome.keysFit hoptions (names_of_readSource hread ht)
  refine ⟨arguments, hlist, fun hsimple member hmember => ?_⟩
  have hattribute : a ∈ t.attributes := by
    obtain ⟨before, after, hsplit, -⟩ := ha
    exact hsplit ▸ List.mem_append_right _ (List.mem_cons_self ..)
  refine (houtcome.isWellFormed ?_ ?_ hmember (hkeys.simple hsimple member hmember)).readsBack
  · exact hreads.forall_arguments isExpressionText_readArgument t ht a hattribute
  · intro header inside hinside e he
    exact ⟨names_of_readSource hread ht header inside hinside e he,
      (hreads.forall_cases isExpressionText_readCaseElement).2 _ (mem_types_of_member ht hinside)
        e he⟩

/-- The lookups of a result. -/
def lookups (r : TypeResult) : Option (List Lookup) :=
  r.outcome.toOption.map fun members => members.map Member.lookup

/-- A bundle with a comma in a literal, and a raw value with a comment in it. -/
def splicedSource : List Char :=
  "@LocalizedStrings(prefix: \"p\", bundle: on ? .a : f(\",\")) enum A \x7b\n  enum Strings \x7b case b = \"1\" /* , */ + \"2\"\n  \x7d\n\x7d\n".toList

/-- The lookup of the case in there. -/
def splicedLookup : Lookup :=
  { key := "\"p_b\"", defaultValue := "\"1\" /* , */ + \"2\"", bundle := "on ? .a : f(\",\")" }

theorem readsBack_of_expandSource_splicedSource :
    ∃ ds report, readSource {} splicedSource = .ok ds ∧
      expandSource {} {} splicedSource = .ok report ∧
      report.results.map lookups = [some [splicedLookup]] ∧
      List.Forall₂ (fun t r => ∃ a, AnnotatedBy t a ∧ ∀ members, r.outcome = .ok members →
          ∃ arguments, a.arguments = some arguments ∧
            ((∀ expression, LastLabelled arguments "prefix" expression →
                isSimpleLiteral expression = true) →
              ∀ member ∈ members, member.lookup.ReadsBack))
        ((types ds).filter fun t => t.attributes.any requestsExpansion) report.results := by
  have hoptions : ({} : Options).error? = none := by decide +kernel
  obtain ⟨ds, report, hread, hreport, hlookups⟩ :=
    @exists_report_map splicedSource {} {} _ lookups [some [splicedLookup]] hoptions
      (by decide +kernel)
  exact ⟨ds, report, hread, hreport, hlookups, readsBack_of_expandSource hoptions hread hreport⟩

/-- A bundle with a comment at its front. The no-break space before the comment is no trivia, but it
is white space, and dropped from the text. -/
def commentedSource : List Char :=
  "@LocalizedStrings(bundle:\u00a0// note\n b)\nenum L \x7b\n    enum Strings \x7b\n        case x\n    \x7d\n\x7d\n".toList

/-- The lookup of the case in there. -/
def commentedLookup : Lookup :=
  { key := "\"x\"", defaultValue := "\"x\"", bundle := "// note\n b" }

theorem comment_lost_commentedSource :
    ∃ ds report, readSource {} commentedSource = .ok ds ∧
      (∀ t ∈ types ds, ∀ a ∈ t.attributes, ∀ arguments ∈ a.arguments,
        Unlabelled arguments "prefix") ∧
      expandSource {} {} commentedSource = .ok report ∧
      report.results.map lookups = [some [commentedLookup]] ∧
      ∃ arguments stop,
        readArgumentList (commentedLookup.argumentList .current) = .ok (arguments, stop) ∧
        arguments.map Argument.outline =
          [⟨some "localized", "\"x\""⟩, ⟨some "defaultValue", "\"x\""⟩, ⟨some "bundle", "b"⟩] ∧
        ⟨some "bundle", commentedLookup.bundle⟩ ∉ arguments.map Argument.outline := by
  have hoptions : ({} : Options).error? = none := by decide +kernel
  obtain ⟨ds, report, hread, hreport, hlookups⟩ :=
    @exists_report_map commentedSource {} {} _ lookups [some [commentedLookup]] hoptions
      (by decide +kernel)
  have hprefix : (readSource {} commentedSource).toOption.all (fun ds => (types ds).all fun t =>
      t.attributes.all fun a => a.arguments.all fun arguments =>
        arguments.all fun x => x.label != some "prefix") = true := by
    decide +kernel
  rw [hread] at hprefix
  have hargs : (readArgumentList (commentedLookup.argumentList .current)).toOption.map
      (fun r => r.1.map Argument.outline) = some
        [⟨some "localized", "\"x\""⟩, ⟨some "defaultValue", "\"x\""⟩, ⟨some "bundle", "b"⟩] := by
    decide +kernel
  obtain ⟨⟨arguments, stop⟩, hlist, hmap⟩ := Option.map_eq_some_iff.1 hargs
  refine ⟨ds, report, hread, ?_, hreport, hlookups, arguments, stop, ?_, hmap, ?_⟩
  · intro t ht a ha arguments harguments argument hargument
    have hall := List.all_eq_true.1 (List.all_eq_true.1 hprefix t ht) a ha
    rw [Option.mem_def.1 harguments] at hall
    simpa using List.all_eq_true.1 hall argument hargument
  · cases h : readArgumentList (commentedLookup.argumentList .current) with
    | error e => simp [h, Except.toOption] at hlist
    | ok r =>
      rw [h] at hlist
      exact congrArg Except.ok (Option.some.inj hlist)
  · rw [hmap]
    decide +kernel

end LocalizedKeys.Expansion
