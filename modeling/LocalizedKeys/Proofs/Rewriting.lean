import LocalizedKeys.Proofs.Ranges
import LocalizedKeys.Proofs.Results

/-!
# What an expansion touches

The edits of an expansion are listed type by type, the removal of an attribute next to the
insertion before a brace that may be far behind it. In the order of their places the edits of
the members stand between these two. `editsInPlace` lists them so, and they are `Ordered` because
a tree is `Placed` in its source: every range begins at or behind a boundary and ends at the next
one. So the edits can be applied, and what is not in one of their ranges is kept.
-/

namespace LocalizedKeys

namespace Swift

/-- The type has its braces at two offsets of the source, and its attributes before them. -/
structure TypeDecl.BracesAt (source : List Char) (t : TypeDecl) (lo brace close : Nat) : Prop where
  body : t.body = ⟨brace, close + 1⟩
  opening : source[brace]? = some '\x7b'
  closing : source[close]? = some '\x7d'
  attributes : ∀ a ∈ t.attributes, a.PlacedIn source lo brace
  lt : brace < close

theorem Placed.le {source : List Char} {lo hi : Nat} {ds : List Declaration}
    (h : Placed source lo ds hi) : lo ≤ hi := by
  induction h with
  | nil hle => exact hle
  | cases _ ih => exact ih
  | other _ ih => exact ih
  | type _ hle _ _ _ _ _ ihMembers ih => omega

theorem Placed.bracesAt {source : List Char} {lo hi : Nat} {ds : List Declaration} {t : TypeDecl}
    (h : Placed source lo ds hi) (ht : t ∈ types ds) :
    ∃ lo' brace close, t.BracesAt source lo' brace close := by
  induction h with
  | nil _ => simp [types] at ht
  | cases _ ih => exact ih (by simpa [types, Declaration.types] using ht)
  | other _ ih => exact ih (by simpa [types, Declaration.types] using ht)
  | type hbody _ hattributes hopen hclose hmembers _ ihMembers ih =>
    rw [types, Declaration.types, List.cons_append, List.mem_cons, List.mem_append] at ht
    rcases ht with rfl | ht | ht
    · exact ⟨_, _, _, hbody, hopen, hclose, hattributes, hmembers.le⟩
    · exact ihMembers ht
    · exact ih ht

end Swift

namespace Expansion

open Swift

/-! ## The edits in the order of their places -/

mutual

/-- The edits for a type, the first of them before those for its members, the others behind. -/
def typeEditsInPlace (edits : TypeDecl → List Edit) : Declaration → List Edit
  | .type header members =>
    (edits ⟨header, members⟩).take 1
      ++ (editsInPlace edits members ++ (edits ⟨header, members⟩).drop 1)
  | .cases .. => []
  | .other .. => []

/-- The edits for the types of a forest, each at its place. -/
def editsInPlace (edits : TypeDecl → List Edit) : List Declaration → List Edit
  | [] => []
  | d :: rest => typeEditsInPlace edits d ++ editsInPlace edits rest

end

/-- Between the edits of a type those of its members are put in, and nothing else changes. -/
theorem editsInPlace_perm (edits : TypeDecl → List Edit) (ds : List Declaration) :
    ((types ds).flatMap edits).Perm (editsInPlace edits ds) := by
  induction ds using walk.induct with
  | case1 => exact .nil
  | case2 header members rest ih =>
    rw [types_append, List.flatMap_append] at ih
    have happend : ∀ ds es, editsInPlace edits (ds ++ es)
        = editsInPlace edits ds ++ editsInPlace edits es := by
      intro ds es
      induction ds with
      | nil => rfl
      | cons d ds ih => simp only [List.cons_append, editsInPlace, ih, List.append_assoc]
    rw [happend] at ih
    rw [types, Declaration.types, editsInPlace, typeEditsInPlace, List.cons_append,
      List.flatMap_cons, List.flatMap_append]
    calc edits ⟨header, members⟩ ++ ((types members).flatMap edits ++ (types rest).flatMap edits)
      _ = (edits ⟨header, members⟩).take 1 ++ ((edits ⟨header, members⟩).drop 1
          ++ ((types members).flatMap edits ++ (types rest).flatMap edits)) := by
        conv => rhs; rw [← List.append_assoc, List.take_append_drop]
      _ |>.Perm ((edits ⟨header, members⟩).take 1 ++ ((edits ⟨header, members⟩).drop 1
          ++ (editsInPlace edits members ++ editsInPlace edits rest))) :=
        (ih.append_left _).append_left _
      _ |>.Perm ((edits ⟨header, members⟩).take 1 ++ (editsInPlace edits members
          ++ (edits ⟨header, members⟩).drop 1) ++ editsInPlace edits rest) := by
        rw [List.append_assoc, List.append_assoc]
        refine List.Perm.append_left _ ?_
        rw [← List.append_assoc, ← List.append_assoc]
        exact List.perm_append_comm.append_right _
  | case3 elements span rest ih => exact ih
  | case4 text attributes modifiers span rest ih => exact ih

/-- The edits for a type, if it has an annotation and there is a result for it. -/
def editsOf (source : List Char) (options : Options) (t : TypeDecl) : List Edit :=
  match annotation? t with
  | none => []
  | some a =>
    match resultFor (.ofText source) options t a with
    | .error _ => []
    | .ok result => editsFor source options t a result

variable {source : List Char} {options : Options} {limits : Limits} {ds : List Declaration}

theorem edits_eq_flatMap {results : List TypeResult} (ts : List TypeDecl)
    (h : List.Forall₂ (fun p r => resultFor (.ofText source) options p.1 p.2 = .ok r)
      (ts.filterMap fun t => (annotation? t).map fun a => (t, a)) results) :
    (((ts.filterMap fun t => (annotation? t).map fun a => (t, a)).zip results).flatMap
      fun p => editsFor source options p.1.1 p.1.2 p.2) = ts.flatMap (editsOf source options) := by
  induction ts generalizing results with
  | nil => rfl
  | cons t ts ih =>
    rw [List.flatMap_cons, editsOf]
    cases ha : annotation? t with
    | none =>
      rw [List.filterMap_cons_none (by rw [ha, Option.map_none])] at h ⊢
      exact ih h
    | some a =>
      rw [List.filterMap_cons_some (by rw [ha, Option.map_some])] at h ⊢
      cases h with
      | cons hr hrest =>
        rename_i r others
        have hr : resultFor (.ofText source) options t a = .ok r := hr
        rw [List.zip_cons_cons, List.flatMap_cons, ih hrest]
        simp only [hr]

theorem editsOf_cases (source : List Char) (options : Options) (t : TypeDecl) :
    editsOf source options t = [] ∨ ∃ a ∈ t.attributes,
      editsOf source options t = [attributeRemoval source a.span] ∨
        ∃ members, editsOf source options t = [attributeRemoval source a.span,
          memberInsertion source (.of t) members options.indent.toList] := by
  unfold editsOf
  split
  · exact .inl rfl
  · rename_i a ha
    split
    · exact .inl rfl
    · rename_i r _
      unfold editsFor
      dsimp only
      split
      · refine .inr ⟨a, List.mem_of_find?_eq_some ha, ?_⟩
        split
        · exact .inl rfl
        · exact .inr ⟨_, rfl⟩
      · exact .inl rfl

theorem isBlank_indent (h : options.error? = none) :
    ∀ ch ∈ options.indent.toList, Text.isBlank ch = true := by
  unfold Options.error? at h
  split at h
  · simp at h
  · rename_i hindent
    simp only [Options.isIndent, Bool.not_eq_true', Bool.and_eq_true, Bool.not_eq_false] at hindent
    exact List.all_eq_true.1 hindent.2

/-- The edits for a tree lie behind one another at their places. -/
theorem ordered_editsInPlace {lo hi : Nat} (hoptions : options.error? = none)
    (h : Placed source lo ds hi) (hlo : Boundary source lo) (hhi : hi ≤ source.length) :
    Ordered lo (editsInPlace (editsOf source options) ds) (lastBoundary source hi) := by
  induction h with
  | nil hle => exact .nil (hlo.le_lastBoundary hle hhi)
  | cases _ ih => exact ih hlo hhi
  | other _ ih => exact ih hlo hhi
  | @type lo hi brace close header members ds hbody hle hattributes hopen hclose hmembers hds
      ihMembers ih =>
    have hlt := hmembers.le
    have hcloseLength : close < source.length := (List.getElem?_eq_some_iff.1 hclose).1
    have ihMembers := ihMembers (.after hopen (by decide)) (Nat.le_of_lt hcloseLength)
    have ih := ih (.after hclose (by decide)) hhi
    have hbefore : lastBoundary source close ≤ close := Nat.sub_le _ _
    have hremoval : ∀ a ∈ header.attributes,
        Ordered lo [attributeRemoval source a.span] (brace + 1) := by
      intro a ha
      obtain ⟨stop, hstart, hstop, hltStop, hleStop, -⟩ :=
        attributeRemoval_spec (hattributes a ha) hopen (by decide)
      have hstartLe : a.span.start ≤ source.length := by
        have := (List.getElem?_eq_some_iff.1 hopen).1
        omega
      have hgrown : lastBoundary source a.span.start ≤ a.span.start := Nat.sub_le _ _
      exact .single hstart hstop (hlo.le_lastBoundary (hattributes a ha).1 hstartLe)
        (by omega) (by omega)
    have hinsertion : ∀ texts, Ordered (lastBoundary source close)
        [memberInsertion source (.of ⟨header, members⟩) texts options.indent.toList]
        (close + 1) := by
      intro texts
      obtain ⟨hstart, hstop, -⟩ := memberInsertion_spec (t := ⟨header, members⟩)
        texts hbody hopen hclose hlt (isBlank_indent hoptions)
      exact .single hstart hstop (Nat.le_refl _) (by omega) (Nat.le_refl _)
    rw [editsInPlace, typeEditsInPlace, List.append_assoc, List.append_assoc]
    rcases editsOf_cases source options ⟨header, members⟩ with hedits | ⟨a, ha, hedits | ⟨texts,
      hedits⟩⟩
    · rw [hedits]
      exact (ihMembers.append (ih.mono (by omega))).mono (by omega)
    · rw [hedits]
      exact (hremoval a ha).append (ihMembers.append (ih.mono (by omega)))
    · rw [hedits]
      exact (hremoval a ha).append (ihMembers.append ((hinsertion texts).append ih))

/-! ## What is replaced -/

/-- What an annotated type with its result has replaced: nothing if it failed, else the
attribute, and, if it has members, the layout before the closing brace. -/
inductive Touches (source : List Char) (options : Options) :
    TypeDecl × Attribute → TypeResult × List Replacement → Prop
  | failed {p : TypeDecl × Attribute} {result : TypeResult} :
      result.succeeded = false → Touches source options p (result, [])
  | removed {t : TypeDecl} {a : Attribute} {result : TypeResult} {r : Replacement} :
      result.succeeded = true → result.rendered options = [] → RemovesAttribute source a r →
      Touches source options (t, a) (result, [r])
  | expanded {t : TypeDecl} {a : Attribute} {result : TypeResult} {r r' : Replacement} :
      result.succeeded = true → result.rendered options ≠ [] → RemovesAttribute source a r →
      InsertsMembers t ((result.rendered options).map String.toList) r' →
      Touches source options (t, a) (result, [r, r'])

theorem touches_editsFor {t : TypeDecl} {a : Attribute} {result : TypeResult}
    {lo brace close : Nat} (hoptions : options.error? = none)
    (ht : t.BracesAt source lo brace close) (ha : a ∈ t.attributes) :
    Touches source options (t, a)
      (result, (editsFor source options t a result).map (Edit.on source)) := by
  obtain ⟨-, -, -, -, -, hremoves⟩ :=
    attributeRemoval_spec (ht.attributes a ha) ht.opening (by decide)
  unfold editsFor
  dsimp only
  split
  · rename_i hsucceeded
    by_cases hrendered : result.rendered options = []
    · rw [hrendered]
      exact .removed hsucceeded hrendered hremoves
    · obtain ⟨-, -, hinserts⟩ := memberInsertion_spec
        ((result.rendered options).map String.toList) ht.body ht.opening ht.closing
        ht.lt (isBlank_indent hoptions)
      rw [if_neg (by simpa using hrendered)]
      exact .expanded hsucceeded hrendered hremoves hinserts
  · rename_i hfailed
    exact .failed (by simpa using hfailed)

theorem touches_of_results {lo hi : Nat} {ts : List (TypeDecl × Attribute)}
    {results : List TypeResult} (hoptions : options.error? = none)
    (h : Placed source lo ds hi)
    (hts : ∀ p ∈ ts, p.1 ∈ types ds ∧ annotation? p.1 = some p.2)
    (hresults : List.Forall₂ (fun p r => resultFor (.ofText source) options p.1 p.2 = .ok r)
      ts results) :
    List.Forall₂ (Touches source options) ts ((ts.zip results).map fun p =>
      (p.2, (editsFor source options p.1.1 p.1.2 p.2).map (Edit.on source))) := by
  induction hresults with
  | nil => exact .nil
  | @cons p r ts results _ _ ih =>
    obtain ⟨ht, ha⟩ := hts p (List.mem_cons_self ..)
    obtain ⟨lo', brace, close, hbraces⟩ := h.bracesAt ht
    exact .cons (touches_editsFor hoptions hbraces (List.mem_of_find?_eq_some ha))
      (ih fun p hp => hts p (List.mem_cons_of_mem _ hp))

/-- The edits for a tree that was read can be applied together. -/
theorem applyEdits_edits {results : List TypeResult} {edits : List Edit}
    (hoptions : options.error? = none) (hread : readSource limits source = .ok ds)
    (hall : expandAll source (.ofText source) options (annotated ds) = .ok (results, edits)) :
    ∃ out, applyEdits source edits = .ok out ∧
      edits.Perm (editsInPlace (editsOf source options) ds) ∧
      Replaces 0 source ((editsInPlace (editsOf source options) ds).map (Edit.on source)) out := by
  obtain ⟨hforall, hedits⟩ := expandAll_iff.1 hall
  have hperm : edits.Perm (editsInPlace (editsOf source options) ds) := by
    have hflat := edits_eq_flatMap (types ds) (annotated_eq ds ▸ hforall)
    rw [← annotated_eq, ← hedits] at hflat
    rw [hflat]
    exact editsInPlace_perm _ ds
  have hordered := ordered_editsInPlace hoptions (placed_of_readSource hread) (.inl rfl)
    (Nat.le_refl _)
  obtain ⟨out, hout, hreplaces⟩ := (hordered.mono_hi (Nat.sub_le _ _)).applyEdits hperm
  exact ⟨out, hout, hperm, hreplaces⟩

/-- Where each annotated type of a source has a result, there is a report with these results. What
`f` shows of them can be computed without the edits. -/
theorem exists_report_map {β : Type} (f : TypeResult → β) (shown : List β)
    (hoptions : options.error? = none)
    (hshown : (readSource limits source).toOption.map (fun ds => (annotated ds).map fun p =>
      (resultFor (.ofText source) options p.1 p.2).toOption.map f) = some (shown.map some)) :
    ∃ ds report, readSource limits source = .ok ds ∧
      expandSource options limits source = .ok report ∧ report.results.map f = shown := by
  obtain ⟨ds, hds, hshown⟩ := Option.map_eq_some_iff.1 hshown
  have hread : readSource limits source = .ok ds := by
    cases h : readSource limits source with
    | error f => simp [h, Except.toOption] at hds
    | ok ds' =>
      rw [h] at hds
      exact congrArg Except.ok (Option.some.inj hds)
  obtain ⟨results, edits, hall⟩ := expandAll_isOk_iff.2 fun t a hmem => by
    have hsome := List.mem_map_of_mem (f := fun p =>
      (resultFor (.ofText source) options p.1 p.2).toOption.map f) hmem
    rw [hshown] at hsome
    cases h : resultFor (.ofText source) options t a with
    | error e => simp [h, Except.toOption] at hsome
    | ok r => exact ⟨r, rfl⟩
  obtain ⟨out, hout, -⟩ := applyEdits_edits hoptions hread hall
  refine ⟨ds, ⟨out, results⟩, hread, (expandSource_iff hread).2 ⟨edits, hall, hout⟩, ?_⟩
  have hmap : (annotated ds).map (fun p =>
      (resultFor (.ofText source) options p.1 p.2).toOption.map f)
      = results.map (fun r => some (f r)) := by
    rw [← List.forall₂_eq_eq_eq, List.forall₂_map_left_iff, List.forall₂_map_right_iff]
    exact (expandAll_iff.1 hall).1.imp fun p r hr => by rw [hr]; rfl
  refine (List.map_inj_right fun _ _ => Option.some.inj).1 ?_
  rw [List.map_map]
  exact hmap.symm.trans hshown

/-- A source that was read, and in which each annotated type has a result, has a report, and what
is replaced in it are the ranges that the types touch. -/
theorem expandSource_replaces (hoptions : options.error? = none)
    (hread : readSource limits source = .ok ds)
    (hresults : ∀ t a, (t, a) ∈ annotated ds →
      ∃ r, resultFor (.ofText source) options t a = .ok r) :
    ∃ report replacements touched, expandSource options limits source = .ok report ∧
      Replaces 0 source replacements report.expanded ∧
      touched.map Prod.fst = report.results ∧
      List.Forall₂ (Touches source options) (annotated ds) touched ∧
      replacements.Perm (touched.flatMap Prod.snd) ∧
      (report.results.all (!·.succeeded) = true → report.expanded = source) := by
  obtain ⟨results, edits, hall⟩ := expandAll_isOk_iff.2 hresults
  obtain ⟨hforall, hedits⟩ := expandAll_iff.1 hall
  obtain ⟨out, hout, hperm, hreplaces⟩ := applyEdits_edits hoptions hread hall
  have htouches := touches_of_results hoptions (placed_of_readSource hread)
    (fun p hp => mem_annotated.1 hp) hforall
  refine ⟨⟨out, results⟩, _, _, (expandSource_iff hread).2 ⟨edits, hall, hout⟩, hreplaces, ?_,
    htouches, ?_, ?_⟩
  · rw [List.map_map]
    exact List.map_snd_zip (Nat.le_of_eq hforall.length_eq.symm)
  · rw [List.flatMap_map, ← List.map_flatMap, ← hedits]
    exact (hperm.map _).symm
  · intro hfailed
    have hnone : edits = [] := by
      rw [hedits, List.flatMap_eq_nil_iff]
      rintro ⟨⟨t, a⟩, r⟩ hmem
      have hr := List.all_eq_true.1 hfailed r (List.of_mem_zip hmem).2
      rw [editsFor, if_neg (by simpa using hr)]
    rw [hnone] at hperm
    rw [List.nil_perm.1 hperm] at hreplaces
    cases hreplaces
    rfl

/-- An annotated type inside another one, which is changed although the inner one fails. -/
def nestedSource : List Char :=
  "@LocalizedStrings() enum Outer \x7b\n  enum Strings \x7b case a \x7d\n\n  @LocalizedStrings() struct Inner \x7b \x7d\n\x7d\n".toList

theorem expandSource_replaces_nestedSource :
    ∃ ds report replacements touched, readSource {} nestedSource = .ok ds ∧
      expandSource {} {} nestedSource = .ok report ∧
      Replaces 0 nestedSource replacements report.expanded ∧
      touched.map Prod.fst = report.results ∧
      List.Forall₂ (Touches nestedSource {}) (annotated ds) touched ∧
      replacements.Perm (touched.flatMap Prod.snd) := by
  have hchecked : (readSource {} nestedSource).toOption.any (fun ds =>
      (annotated ds).length == 2 && (annotated ds).all fun p =>
        (resultFor (.ofText nestedSource) {} p.1 p.2).isOk) = true := by decide +kernel
  cases hread : readSource {} nestedSource with
  | error f => simp [hread, Except.toOption] at hchecked
  | ok ds =>
    simp only [hread, Except.toOption, Option.any_some, Bool.and_eq_true] at hchecked
    have hoptions : ({} : Options).error? = none := by decide +kernel
    obtain ⟨report, replacements, touched, hreport, hreplaces, hresults, htouches, hperm, -⟩ :=
      expandSource_replaces hoptions hread fun t a hmem => by
        have hok := List.all_eq_true.1 hchecked.2 (t, a) hmem
        cases h : resultFor (.ofText nestedSource) {} t a with
        | error e => simp [h, Except.isOk, Except.toBool] at hok
        | ok r => exact ⟨r, rfl⟩
    exact ⟨ds, report, replacements, touched, rfl, hreport, hreplaces, hresults, htouches, hperm⟩

end Expansion

end LocalizedKeys
