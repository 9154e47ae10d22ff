import LocalizedKeys.Proofs.Outcome
import LocalizedKeys.Proofs.Specifiers

/-!
# What one default value can do to a source

The default value of a case is read for its format specifiers. If these cannot be used, the type
around the case fails, and the other types of the source are expanded as if nothing had happened.
There is one exception: an index with more digits than are converted to a number ends the expansion
of the whole source. `LongIndexFirst` says of a text that this happens to it: such an index is the
first thing wrong in there.

`ReportOf` says what comes of a source with several annotated types. Either one of them reaches such
an index, or each has the outcome that is its own, and the source is changed in the ranges of those
that could be expanded.
-/

namespace LocalizedKeys.Format

open Swift

/-! ## Long indices -/

/-- The first specifier of a text that has a fault has an index with too many digits. -/
def LongIndexFirst (text : String) (digits : Nat) : Prop :=
  ∃ before m after, specifiersAmong (instances text) = before ++ m :: after ∧
    (∀ other ∈ before, ∀ failure,
      ¬Fault (firstExplicit (specifiersAmong (instances text))) other failure) ∧
    Fault (firstExplicit (specifiersAmong (instances text))) m (.indexTooLong digits)

/-- All indices that are written in a text have few enough digits. -/
def IndicesFit (text : String) : Prop :=
  ∀ m ∈ specifiersAmong (instances text), ∀ digits ∈ m.2.index, digits.length ≤ maxIndexDigits

instance (text : String) : Decidable (IndicesFit text) :=
  inferInstanceAs (Decidable (∀ m ∈ specifiersAmong (instances text),
    ∀ digits ∈ m.2.index, digits.length ≤ maxIndexDigits))

/-- Once a text has been scanned, its specifiers are accepted or rejected. -/
theorem argumentTypes_of_scan {text : String} {specifiers : List Specifier}
    (h : scanSpecifiers text = .ok specifiers) :
    (∃ parameters, argumentTypes text = .ok parameters) ∨
      ∃ e, argumentTypes text = .error (.rejected e) := by
  rw [argumentTypes, parseSpecifiers, h]
  dsimp only
  cases denseArguments specifiers with
  | error e => exact .inr ⟨e, rfl⟩
  | ok resolved =>
    rw [mapError_ok]
    dsimp only
    cases resolved.mapM Specifier.type with
    | error e => exact .inr ⟨e, rfl⟩
    | ok parameters => exact .inl ⟨parameters, rfl⟩

/-- The types of the arguments are not found out exactly where an index is too long. -/
theorem argumentTypes_eq_indexTooLong_iff {text : String} {digits : Nat} :
    argumentTypes text = .error (.indexTooLong digits) ↔ LongIndexFirst text digits := by
  constructor
  · intro h
    cases hscan : scanSpecifiers text with
    | ok specifiers =>
      -- behind the scan nothing is converted any more
      rcases argumentTypes_of_scan hscan with ⟨_, hok⟩ | ⟨_, hrejected⟩
      · simp [h] at hok
      · simp [h] at hrejected
    | error failure =>
      rw [argumentTypes, parseSpecifiers, hscan] at h
      obtain rfl := Except.error.inj h
      cases scanSpecifiers_iff.1 hscan with
      | faulty hsplit hbefore hfault => exact ⟨_, _, _, hsplit, hbefore, hfault⟩
  · rintro ⟨before, m, after, hsplit, hbefore, hfault⟩
    have hscan := scanSpecifiers_iff.2 (.faulty hsplit hbefore hfault)
    rw [argumentTypes, parseSpecifiers, hscan]

theorem IndicesFit.not_longIndexFirst {text : String} (h : IndicesFit text) (digits : Nat) :
    ¬LongIndexFirst text digits := by
  rintro ⟨before, m, after, hsplit, -, hfault⟩
  have hm : m ∈ specifiersAmong (instances text) :=
    hsplit ▸ List.mem_append_right _ List.mem_cons_self
  cases hfault with
  | tooLong _ _ hindex hlong => exact Nat.not_lt.2 (h _ hm _ hindex) hlong

/-- Where no index is too long, the types of the arguments are found out or rejected. -/
theorem IndicesFit.argumentTypes {text : String} (h : IndicesFit text) :
    (∃ parameters, argumentTypes text = .ok parameters) ∨
      ∃ e, argumentTypes text = .error (.rejected e) := by
  cases hresult : Format.argumentTypes text with
  | ok parameters => exact .inl ⟨parameters, rfl⟩
  | error failure =>
    cases failure with
    | rejected e => exact .inr ⟨e, rfl⟩
    | indexTooLong digits =>
      exact (h.not_longIndexFirst digits (argumentTypes_eq_indexTooLong_iff.1 hresult)).elim

end LocalizedKeys.Format

namespace LocalizedKeys.Expansion

open Swift Format

variable {source : List Char} {options : Options} {limits : Limits} {ds : List Declaration}
  {t : TypeDecl} {a : Attribute}

/-! ## The whole source -/

/-- No type is expanded behind one that ends everything. -/
theorem expandAll_of_error {table : LineTable} {before after : List (TypeDecl × Attribute)}
    {e : IndexTooLong}
    (hbefore : ∀ p ∈ before, ∃ r, resultFor table options p.1 p.2 = .ok r)
    (h : resultFor table options t a = .error e) :
    expandAll source table options (before ++ (t, a) :: after) = .error e := by
  induction before with
  | nil => rw [List.nil_append, expandAll, h]
  | cons p before ih =>
    obtain ⟨r, hr⟩ := hbefore p List.mem_cons_self
    rw [List.cons_append, expandAll, hr, ih fun q hq => hbefore q (List.mem_cons_of_mem _ hq)]

/-- What comes of a source with the given annotated types. -/
inductive ReportOf (source : List Char) (options : Options) (ts : List (TypeDecl × Attribute)) :
    Except ReportError Report → Prop
  /-- The first type that reaches an index with too many digits ends everything. -/
  | broken {before after : List (TypeDecl × Attribute)} {t : TypeDecl} {a : Attribute}
      {digits : Nat} :
      ts = before ++ (t, a) :: after →
      (∀ p ∈ before, ∀ digits, ¬ReachesLongIndex p.1 p.2 digits) →
      ReachesLongIndex t a digits →
      ReportOf source options ts (.error (.indexTooLong digits))
  /-- Each type has its own outcome, and those that were expanded are changed in the source. -/
  | whole {report : Report} {replacements : List Replacement}
      {touched : List (TypeResult × List Replacement)} :
      (∀ p ∈ ts, ∀ digits, ¬ReachesLongIndex p.1 p.2 digits) →
      List.Forall₂ (fun p r => Outcome options p.1 p.2 r.outcome) ts report.results →
      touched.map Prod.fst = report.results →
      List.Forall₂ (Touches source options) ts touched →
      replacements.Perm (touched.flatMap Prod.snd) →
      Replaces 0 source replacements report.expanded →
      ReportOf source options ts (.ok report)

theorem outcome_of_resultFor {r : TypeResult}
    (h : resultFor (.ofText source) options t a = .ok r) : Outcome options t a r.outcome := by
  rcases outcome_or_reachesLongIndex options t a with ⟨outcome, houtcome⟩ | ⟨digits, hlong⟩
  · obtain ⟨advice, -, hrun⟩ :=
      houtcome.expandType_eq (some ((LineTable.ofText source).location a.span))
    rw [resultFor, hrun] at h
    obtain rfl := Except.ok.inj h
    exact houtcome
  · exact (resultFor_iff.1 ⟨r, h⟩ digits hlong).elim

/-- If all types have results, these are their outcomes, and their edits are made. -/
theorem reportOf_results (hoptions : options.error? = none)
    (hread : readSource limits source = .ok ds)
    (hshort : ∀ p ∈ annotated ds, ∀ digits, ¬ReachesLongIndex p.1 p.2 digits) :
    ∃ report, expandSource options limits source = .ok report ∧
      ReportOf source options (annotated ds) (.ok report) := by
  obtain ⟨results, edits, hall⟩ := expandAll_isOk_iff.2 fun t a hmem =>
    (@resultFor_iff options t a source).2 (hshort (t, a) hmem)
  obtain ⟨hforall, hedits⟩ := expandAll_iff.1 hall
  obtain ⟨out, hout, hperm, hreplaces⟩ := applyEdits_edits hoptions hread hall
  have hreport : expandSource options limits source = .ok ⟨out, results⟩ :=
    (expandSource_iff hread).2 ⟨edits, hall, hout⟩
  have htouches := touches_of_results hoptions (placed_of_readSource hread)
    (fun p hp => mem_annotated.1 hp) hforall
  have houtcomes := hforall.imp fun p r hr => outcome_of_resultFor hr
  refine ⟨⟨out, results⟩, hreport, .whole hshort houtcomes ?_ htouches ?_ hreplaces⟩
  · rw [List.map_map]
    exact List.map_snd_zip (Nat.le_of_eq hforall.length_eq.symm)
  · rw [List.flatMap_map, ← List.map_flatMap, ← hedits]
    exact (hperm.map _).symm

/-- A source that was read ends in one of the two ways. -/
theorem reportOf_expandSource (hoptions : options.error? = none)
    (hread : readSource limits source = .ok ds) :
    ReportOf source options (annotated ds) (expandSource options limits source) := by
  classical
  -- the first type that reaches a long index, if there is one, decides
  cases hfirst : (annotated ds).find? fun p => ∃ digits, ReachesLongIndex p.1 p.2 digits with
  | none =>
    have hshort : ∀ p ∈ annotated ds, ∀ digits, ¬ReachesLongIndex p.1 p.2 digits := by
      intro p hp digits hlong
      exact List.find?_eq_none.1 hfirst p hp (decide_eq_true ⟨digits, hlong⟩)
    obtain ⟨report, hreport, hof⟩ := reportOf_results hoptions hread hshort
    rw [hreport]
    exact hof
  | some p =>
    obtain ⟨t, a⟩ := p
    obtain ⟨hlong, before, after, hsplit, hbefore⟩ := List.find?_eq_some_iff_append.1 hfirst
    obtain ⟨digits, hlong⟩ := of_decide_eq_true hlong
    have hshort : ∀ p ∈ before, ∀ digits, ¬ReachesLongIndex p.1 p.2 digits := by
      intro p hp digits hlong
      have hnot := hbefore p hp
      simp only [Bool.not_eq_true', decide_eq_false_iff_not] at hnot
      exact hnot ⟨digits, hlong⟩
    have hresult : resultFor (.ofText source) options t a = .error ⟨digits⟩ := by
      rw [resultFor, hlong.expandType_eq]
    have hall : expandAll source (.ofText source) options (annotated ds) = .error ⟨digits⟩ := by
      rw [hsplit]
      exact expandAll_of_error (fun p hp => resultFor_iff.2 (hshort p hp)) hresult
    have hrun : expandSource options limits source = .error (.indexTooLong digits) := by
      rw [expandSource, hread]
      simp only [hall]
    rw [hrun]
    exact .broken hsplit hshort hlong

/-- A type whose default values fit reaches no index with too many digits. -/
theorem not_reachesLongIndex (ht : t ∈ types ds)
    (hfit : ∀ t ∈ types ds, ∀ element ∈ t.caseElements, IndicesFit (defaultValue element))
    (digits : Nat) : ¬ReachesLongIndex t a digits := by
  rintro ⟨request, keys, before, element, after, -, hkeys, hsplit, -, hlong⟩
  obtain ⟨beforeKeys, afterKeys, hmembers, -⟩ := hkeys
  have hmem : .type keys.toTypeHeader keys.members ∈ t.members :=
    hmembers ▸ List.mem_append_right _ List.mem_cons_self
  have hfits := hfit _ (mem_types_of_member ht hmem) element
    (hsplit ▸ List.mem_append_right _ List.mem_cons_self)
  exact hfits.not_longIndexFirst digits (argumentTypes_eq_indexTooLong_iff.1 hlong)

/-- **A default value fails its own type only**, unless it has an index with too many digits: what
comes of a text, of a source, and of a source all of whose indices have few enough digits. -/
theorem expandSource_isolates (hoptions : options.error? = none)
    (hread : readSource limits source = .ok ds) :
    (∀ text digits, argumentTypes text = .error (.indexTooLong digits) ↔
        LongIndexFirst text digits) ∧
      (∀ text, IndicesFit text → (∃ parameters, argumentTypes text = .ok parameters) ∨
        ∃ e, argumentTypes text = .error (.rejected e)) ∧
      ReportOf source options (annotated ds) (expandSource options limits source) ∧
      ((∀ t ∈ types ds, ∀ element ∈ t.caseElements, IndicesFit (defaultValue element)) →
        ∃ report, expandSource options limits source = .ok report) := by
  refine ⟨fun text digits => argumentTypes_eq_indexTooLong_iff, fun text h => h.argumentTypes,
    reportOf_expandSource hoptions hread, fun hfit => ?_⟩
  obtain ⟨report, hreport, -⟩ := reportOf_results hoptions hread fun p hp digits =>
    not_reachesLongIndex (mem_annotated.1 hp).1 hfit digits
  exact ⟨report, hreport⟩

/-- A type with a bad default value between two that can be expanded. -/
def badCaseSource : List Char :=
  "@LocalizedStrings() enum A \x7b\n  enum Strings \x7b case a \x7d\n\x7d\n@LocalizedStrings() enum B \x7b\n  enum Strings \x7b case b = \"%1$@ %@\" \x7d\n\x7d\n@LocalizedStrings() enum C \x7b\n  enum Strings \x7b case c = \"%007$@\", d \x7d\n\x7d\n".toList

theorem expandSource_isolates_badCaseSource :
    ∃ ds report, readSource {} badCaseSource = .ok ds ∧
      expandSource {} {} badCaseSource = .ok report ∧
      ReportOf badCaseSource {} (annotated ds) (.ok report) ∧ (annotated ds).length = 3 := by
  have hchecked : (readSource {} badCaseSource).toOption.any (fun ds =>
      (annotated ds).length == 3 && (types ds).all fun t => t.caseElements.all fun element =>
        decide (IndicesFit (defaultValue element))) = true := by decide +kernel
  cases hread : readSource {} badCaseSource with
  | error f => simp [hread, Except.toOption] at hchecked
  | ok ds =>
    simp only [hread, Except.toOption, Option.any_some, Bool.and_eq_true, beq_iff_eq,
      List.all_eq_true, decide_eq_true_eq] at hchecked
    have hoptions : ({} : Options).error? = none := by decide +kernel
    obtain ⟨-, -, hof, hfits⟩ := expandSource_isolates hoptions hread
    obtain ⟨report, hreport⟩ := hfits hchecked.2
    exact ⟨ds, report, rfl, hreport, hreport ▸ hof, hchecked.1⟩

end LocalizedKeys.Expansion
