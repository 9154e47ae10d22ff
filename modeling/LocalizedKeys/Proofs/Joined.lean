import LocalizedKeys.Proofs.LineTables
import LocalizedKeys.Proofs.Moved
import LocalizedKeys.Proofs.Rewriting
import LocalizedKeys.Proofs.Spans

/-!
# Sources one after the other

Two sources that can be read give, with a line feed in between, a source that can be read. Its
declarations are those of the one and then those of the other, moved by what stands before them, and
so are the results of its expansion.

* `Reads.join` goes on behind a derivation that ends with its text; `readSource_append` says it of
  whole sources. The last declaration of the first one must not be bare (`Declaration.isBare`):
  attributes and modifiers alone would become those of what follows.
* Nothing that decides what becomes of a type depends on where it stands (`resultFor_moved`).
-/

namespace LocalizedKeys

namespace Swift

open Text Cursor

/-! ## Reading on -/

/-- The declaration consists of attributes and modifiers, and of trivia. -/
def Declaration.isBare (source : List Char) : Declaration → Bool
  | .other _ _ _ span => onlyLeads ⟨span.start, slice source span.start span.stop⟩
  | .type .. => false
  | .cases .. => false

variable {c c' d e : Cursor} {n : Nat} {t source : List Char} {limit : Int} {levels : Nat}
  {closing : Option Char} {ds es : List Declaration}

/-- Only what comes behind the trivia matters. -/
theorem Reads.of_skipTrivia_eq (heq : skipTrivia c = skipTrivia d)
    (h : Reads limit levels closing d ds e) : Reads limit levels closing c ds e := by
  cases h with
  | done htrivia hclosing => exact .done (heq.trans htrivia) hclosing
  | semicolon htrivia hclosing hsemicolon hrest =>
    exact .semicolon (heq.trans htrivia) hclosing hsemicolon hrest
  | leaf htrivia hat hleaf hshorter hrest =>
    exact .leaf (heq.trans htrivia) hat hleaf hshorter hrest
  | type htrivia hat hopening hshorter hmembers hrest =>
    exact .type (heq.trans htrivia) hat hopening hshorter hmembers hrest

/-- At the end of a text no declarations are left. -/
theorem Reads.eq_nil_of_end (h : Reads limit levels closing c ds e) (hend : c.rest = []) :
    ds = [] := by
  have hnil : ∀ {c₁ : Cursor}, skipTrivia c = .ok c₁ → c₁.rest = [] := by
    intro c₁ htrivia
    have := (reaches_skipTrivia htrivia).length_le
    rw [hend] at this
    exact List.eq_nil_of_length_eq_zero (Nat.le_zero.1 this)
  cases h with
  | done _ _ => rfl
  | semicolon htrivia _ hsemicolon _ =>
    exact absurd (hnil htrivia) (rest_ne_nil_of_next? hsemicolon)
  | leaf htrivia hat _ _ _ => exact absurd (hnil htrivia) hat.notEnd
  | type htrivia hat _ _ _ _ => exact absurd (hnil htrivia) hat.notEnd

/-- Whether a declaration at the end of its text is bare can be told from its span. -/
theorem ReadsLeaf.isBare_eq {d : Declaration} (h : ReadsLeaf c d c') (hat : c.At source)
    (hend : c'.rest = []) : d.isBare source = onlyLeads c := by
  have hpos := ((reaches_readsLeaf h).at_of hat).pos_add_length
  rw [hend, List.length_nil, Nat.add_zero] at hpos
  cases h with
  | other hattributes hmodifiers hlead hother =>
    unfold readOther at hother
    split at hother
    · simp at hother
    · split at hother
      · simp at hother
      · obtain ⟨rfl, rfl⟩ := Prod.mk.inj (Except.ok.inj hother)
        rw [Declaration.isBare]
        dsimp only
        rw [slice_natCast, hpos, List.take_length, ← hat.2]
  | cases hattributes hmodifiers hlead hcases =>
    rename_i c₁ c₂ after attributes modifiers
    have hne : c₂.rest ≠ [] := by
      intro hnil
      simp [lead, readName?, nameLength?, hnil] at hlead
    unfold readCases at hcases
    split at hcases
    · simp at hcases
    · obtain ⟨rfl, rfl⟩ := Prod.mk.inj (Except.ok.inj hcases)
      simp [Declaration.isBare, onlyLeads, hattributes, hmodifiers, Cursor.atEnd, hne]

theorem mem_getLast?_cons {α : Type} {x y : α} {xs : List α} (h : y ∈ xs.getLast?) :
    y ∈ (x :: xs).getLast? := by
  cases xs with
  | nil => simp at h
  | cons z zs => rwa [List.getLast?_cons_cons]

/-- What is read up to the end of a text is read when more text follows on a new line, and then what
follows is read. -/
theorem Reads.join (ht : AtLineEnd t) (h : Reads limit levels none c ds c') (hat : c.At source)
    (hbare : ∀ d ∈ ds.getLast?, d.isBare source = false)
    (hes : Reads limit levels none (c'.moved n t) es e) :
    Reads limit levels none (c.moved n t) (movedAll n ds ++ es) e := by
  simp only [← moving_carry n ht] at hes ⊢
  generalize hclosing : (none : Option Char) = closing at h
  induction h with
  | done htrivia _ =>
    subst hclosing
    exact hes.of_skipTrivia_eq ((moving n ht).trivia_eq htrivia (known_moving _))
  | semicolon htrivia hnotEnd hsemicolon _ ih =>
    subst hclosing
    exact .semicolon_carried (moving n ht) htrivia hnotEnd hsemicolon (known_moving _)
      (ih ((reaches_advance _ 1).at_of ((reaches_skipTrivia htrivia).at_of hat)) hbare hes rfl)
  | @leaf levels closing c c₁ c₂ c' d ds htrivia hd hleaf hshorter hrest ih =>
    subst hclosing
    have hat₁ := (reaches_skipTrivia htrivia).at_of hat
    have hleads : ∀ c₃, LeadsTo c₁ c₃ → (moving n ht).AtSeam c₃ → (moving n ht).Inside c₂ := by
      intro c₃ hleads hseam
      refine .of_not_atSeam (known_moving _) fun hend => ?_
      obtain rfl := hrest.eq_nil_of_end hend
      have := hbare d rfl
      rw [hleaf.isBare_eq hat₁ hend, hleads.onlyLeads hseam] at this
      simp at this
    exact .leaf_carried (moving n ht) htrivia hd hleaf hshorter (known_moving _) hleads
      (ih ((reaches_readsLeaf hleaf).at_of hat₁) (fun d hd => hbare d (mem_getLast?_cons hd)) hes
        rfl)
  | type htrivia hd hopening _ hmembers hrest _ ih =>
    subst hclosing
    have hat₁ := (reaches_skipTrivia htrivia).at_of hat
    have hatRest := ((reaches_readsOpening hopening).1.trans ((reaches_advance _ 1).trans
      (hmembers.reaches.trans (reaches_advance _ 1)))).at_of hat₁
    have hclose := hmembers.next?
    exact .type_carried (moving n ht) htrivia hd hopening hmembers (known_moving _)
      (hmembers.carried _ (.of_advance (known_moving _) hclose)
        (Carrier.next? (known_moving _)
          (Carrier.not_atSeam (known_moving _) (advance_shorter hclose))))
      (ih hatRest (fun d hd => hbare d (mem_getLast?_cons hd)) hes rfl)

/-- Two sources with a line feed in between are read as one after the other. -/
theorem readSource_append {limits : Limits} {s₁ s₂ : List Char} {ds₁ ds₂ : List Declaration}
    (hsize : limits.maxSourceSize ≤ 0) (h₁ : readSource limits s₁ = .ok ds₁)
    (h₂ : readSource limits s₂ = .ok ds₂) (hbare : ∀ d ∈ ds₁.getLast?, d.isBare s₁ = false) :
    readSource limits (s₁ ++ '\n' :: s₂) = .ok (ds₁ ++ movedAll (s₁.length + 1) ds₂) := by
  obtain ⟨c₁, hreads₁⟩ := reads_of_readSource h₁
  obtain ⟨c₂, hreads₂⟩ := reads_of_readSource h₂
  have hat₁ := hreads₁.reaches.at_of (start_at s₁)
  have hend₁ : c₁.rest = [] := by
    have := hreads₁.next?
    rwa [Cursor.next?, List.head?_eq_none_iff] at this
  have hpos₁ := hat₁.pos_add_length
  rw [hend₁, List.length_nil, Nat.add_zero] at hpos₁
  have hbreak : AtLineEnd ('\n' :: s₂) := by
    intro ch hch
    obtain rfl := Option.some.inj hch
    rfl
  -- the second source begins behind the line feed
  have hsecond := hreads₂.moved (s₁.length + 1) (t := []) atLineEnd_nil fun _ => rfl
  have hstart : skipTrivia (c₁.moved 0 ('\n' :: s₂))
      = skipTrivia ((Cursor.start s₂).moved (s₁.length + 1) []) := by
    rw [Cursor.moved, hend₁, hpos₁, List.nil_append, skipTrivia_layout (by decide)]
    simp [Cursor.moved, Cursor.start]
  have hboth := hreads₁.join hbreak (start_at s₁) hbare (hsecond.of_skipTrivia_eq hstart)
  rw [movedAll_zero] at hboth
  have hrun := hboth.run
  have hsize' : ¬(0 < limits.maxSourceSize ∧
      limits.maxSourceSize < (s₁ ++ '\n' :: s₂).length) := by omega
  rw [readSource, if_neg hsize']
  simp only [Cursor.moved, Cursor.start, Nat.zero_add] at hrun ⊢
  rw [hrun]

/-! ## Types at another place -/

/-- The type `n` characters further on. -/
def TypeDecl.moved (n : Nat) (t : TypeDecl) : TypeDecl :=
  ⟨t.toTypeHeader.moved n, movedAll n t.members⟩

theorem movedAll_append (n : Nat) (ds es : List Declaration) :
    movedAll n (ds ++ es) = movedAll n ds ++ movedAll n es := by
  simp only [movedAll_eq_map, List.map_append]

theorem types_moved (n : Nat) (ds : List Declaration) :
    types (movedAll n ds) = (types ds).map (TypeDecl.moved n) := by
  induction ds using walk.induct with
  | case1 => rfl
  | case2 header members rest ih =>
    rw [movedAll_append, types_append, types_append] at ih
    rw [movedAll, types, Declaration.moved, Declaration.types, List.cons_append, ih, types,
      Declaration.types, List.cons_append, List.map_cons]
    rfl
  | case3 elements span rest ih =>
    rw [movedAll, types, Declaration.moved, Declaration.types, List.nil_append, ih, types,
      Declaration.types, List.nil_append]
  | case4 text attributes modifiers span rest ih =>
    rw [movedAll, types, Declaration.moved, Declaration.types, List.nil_append, ih, types,
      Declaration.types, List.nil_append]

theorem nested_moved (n : Nat) (t : TypeDecl) :
    (t.moved n).nested = t.nested.map (TypeDecl.moved n) := by
  rw [TypeDecl.nested, TypeDecl.nested, TypeDecl.moved, movedAll_eq_map, List.filterMap_map,
    List.map_filterMap]
  refine List.filterMap_congr fun d _ => ?_
  cases d <;> rfl

theorem nestedEnum?_moved (n : Nat) (t : TypeDecl) (name : String) :
    (t.moved n).nestedEnum? name = (t.nestedEnum? name).map (TypeDecl.moved n) := by
  rw [TypeDecl.nestedEnum?, TypeDecl.nestedEnum?, nested_moved, List.find?_map]
  rfl

theorem caseElements_moved (n : Nat) (t : TypeDecl) :
    (t.moved n).caseElements = t.caseElements.map (CaseElement.moved n) := by
  rw [TypeDecl.caseElements, TypeDecl.caseElements, TypeDecl.moved, movedAll_eq_map,
    List.flatMap_map, List.map_flatMap]
  refine List.flatMap_congr fun d _ => ?_
  cases d <;> rfl

end Swift

/-- The location `n` characters and a number of lines further on. -/
def Location.moved (n lines : Nat) (l : Location) : Location :=
  ⟨l.start + n, l.stop + n, l.line + lines, l.column⟩

/-- The diagnostic `n` characters and a number of lines further on. -/
def Diagnostic.moved (n lines : Nat) (d : Diagnostic) : Diagnostic :=
  { d with location := d.location.map (Location.moved n lines) }

namespace Expansion

open Swift

variable {n lines : Nat} {options : Options}

/-! ## Results at another place -/

theorem annotation?_moved (n : Nat) (t : TypeDecl) :
    annotation? (t.moved n) = (annotation? t).map (Attribute.moved n) := by
  simp only [annotation?, TypeDecl.moved, TypeHeader.moved, List.find?_map]
  rfl

theorem annotated_moved (n : Nat) (ds : List Declaration) :
    annotated (movedAll n ds) = (annotated ds).map fun p => (p.1.moved n, p.2.moved n) := by
  rw [annotated_eq, annotated_eq, types_moved, List.filterMap_map, List.map_filterMap]
  refine List.filterMap_congr fun t _ => ?_
  rw [Function.comp, annotation?_moved, Option.map_map, Option.map_map]
  rfl

theorem annotated_append (ds es : List Declaration) :
    annotated (ds ++ es) = annotated ds ++ annotated es := by
  simp only [annotated_eq, types_append, List.filterMap_append]

theorem lastLabelled?_moved (n : Nat) (arguments : List Argument) (label : String) :
    Request.lastLabelled? (arguments.map (Argument.moved n)) label
      = Request.lastLabelled? arguments label := by
  rw [Request.lastLabelled?, Request.lastLabelled?, List.filter_map, List.getLast?_map,
    Option.map_map]
  rfl

theorem requestOf_moved (n : Nat) (a : Attribute) (t : TypeDecl) :
    requestOf (a.moved n) (t.moved n) = requestOf a t := by
  have harguments : ∀ arguments : List Argument,
      Request.ofArguments (arguments.map (Argument.moved n)) = Request.ofArguments arguments := by
    intro arguments
    simp only [Request.ofArguments, lastLabelled?_moved]
  cases a with
  | mk name arguments span =>
    cases arguments with
    | none => rfl
    | some arguments =>
      simp only [requestOf, Attribute.moved, Option.map_some, harguments]
      rfl

theorem synthesizeCases_moved (n : Nat) (request : Request) (options : Options)
    (elements : List CaseElement) :
    synthesizeCases request options (elements.map (CaseElement.moved n))
      = synthesizeCases request options elements := by
  induction elements with
  | nil => rfl
  | cons element rest ih =>
    rw [List.map_cons, synthesizeCases, synthesizeCases, ih]
    rfl

theorem synthesize_moved (n : Nat) (request : Request) (options : Options) (t : TypeDecl) :
    synthesize request options (t.moved n) = synthesize request options t := by
  rw [synthesize, synthesize, nestedEnum?_moved]
  cases t.nestedEnum? request.resolvedStringsEnum with
  | none => rfl
  | some keys =>
    simp only [Option.map_some, caseElements_moved, synthesizeCases_moved]
    rfl

/-- The result `n` characters and a number of lines further on. -/
def TypeResult.moved (n lines : Nat) (r : TypeResult) : TypeResult :=
  { r with
    location := r.location.moved n lines
    advice := r.advice.map (Diagnostic.moved n lines) }

theorem advise_moved (n lines : Nat) (options : Options) (location : Location) (request : Request) :
    advise options (some (location.moved n lines)) request
      = (advise options (some location) request).map (Diagnostic.moved n lines) := by
  unfold advise
  split <;> rfl

/-- What becomes of a type is the same at another place. -/
theorem resultFor_moved {table table' : LineTable} {t : TypeDecl} {a : Attribute}
    (hlocation : table'.location (a.moved n).span = (table.location a.span).moved n lines) :
    resultFor table' options (t.moved n) (a.moved n)
      = (resultFor table options t a).map (TypeResult.moved n lines) := by
  simp only [resultFor, expandType, hlocation, requestOf_moved, synthesize_moved, advise_moved]
  cases requestOf a t with
  | error e => rfl
  | ok request =>
    dsimp only
    cases synthesize request options t with
    | error i => cases i <;> rfl
    | ok members => rfl

theorem ExpansionError.diagnostic_location (e : ExpansionError) : e.diagnostic.location = none := by
  cases e with
  | badSpecifiers caseName error => cases error <;> rfl
  | _ => rfl

theorem TypeResult.diagnostics_moved (n lines : Nat) (r : TypeResult) :
    (r.moved n lines).diagnostics = r.diagnostics.map (Diagnostic.moved n lines) := by
  have herror : (r.moved n lines).error? = r.error? := rfl
  rw [TypeResult.diagnostics, TypeResult.diagnostics, herror]
  cases r.error? with
  | none => rfl
  | some e =>
    simp only [List.map_append, List.map_cons, List.map_nil, failureDiagnostic,
      Diagnostic.withContext, Diagnostic.moved, e.diagnostic_location, Option.none_or,
      Option.map_some]
    rfl

/-! ## The expansion of both -/

theorem location_append_left {s₁ : List Char} {span : Span} (h : span.start ≤ s₁.length)
    (s₂ : List Char) :
    (LineTable.ofText (s₁ ++ s₂)).location span = (LineTable.ofText s₁).location span := by
  have hmin : min span.start (s₁ ++ s₂).length = min span.start s₁.length := by
    rw [List.length_append]
    omega
  simp only [LineTable.location, LineTable.locate_ofText, Int.toNat_natCast, hmin,
    lineColumn_append_left (Nat.min_le_right _ _)]

theorem location_append_right (s₁ : List Char) {s₂ : List Char} {span : Span}
    (h : span.start ≤ s₂.length) :
    (LineTable.ofText (s₁ ++ '\n' :: s₂)).location (span.moved (s₁.length + 1))
      = ((LineTable.ofText s₂).location span).moved (s₁.length + 1) (s₁.count '\n' + 1) := by
  have hmin : min (span.start + (s₁.length + 1)) (s₁ ++ '\n' :: s₂).length
      = span.start + (s₁.length + 1) := by
    simp only [List.length_append, List.length_cons]
    omega
  simp only [LineTable.location, LineTable.locate_ofText, Span.moved, Int.toNat_natCast, hmin,
    Nat.min_eq_left h, lineColumn_append_right s₁ h, Location.moved]

/-- The annotation of a type begins inside the source. -/
theorem start_le_of_annotated {limits : Limits} {source : List Char} {ds : List Declaration}
    (h : readSource limits source = .ok ds) {t : TypeDecl} {a : Attribute}
    (hmem : (t, a) ∈ annotated ds) : a.span.start ≤ source.length := by
  obtain ⟨ht, ha⟩ := mem_annotated.1 hmem
  obtain ⟨hheader, -⟩ := (laid_of_readSource h).types t ht
  obtain ⟨-, -, hlt, hle⟩ := hheader.attributesPlaced a (List.mem_of_find?_eq_some ha)
  have h₁ := hheader.closesLater
  have h₂ := hheader.ends
  have h₃ := hheader.inside
  omega

/-- There is a result for each annotated type of a list. -/
def Results (table : LineTable) (options : Options) (ts : List (TypeDecl × Attribute))
    (results : List TypeResult) : Prop :=
  List.Forall₂ (fun p r => resultFor table options p.1 p.2 = .ok r) ts results

theorem results_congr {table table' : LineTable} {ts : List (TypeDecl × Attribute)}
    {results : List TypeResult}
    (hlocation : ∀ p ∈ ts, table'.location p.2.span = table.location p.2.span) :
    Results table' options ts results ↔ Results table options ts results := by
  have hp : ∀ p ∈ ts, resultFor table' options p.1 p.2 = resultFor table options p.1 p.2 := by
    intro p hmem
    simp only [resultFor, hlocation p hmem]
  simp only [Results, List.forall₂_iff_zip]
  refine and_congr_right fun _ => ⟨fun h p r hmem => ?_, fun h p r hmem => ?_⟩
  · rw [← hp p (List.of_mem_zip hmem).1]
    exact h hmem
  · rw [hp p (List.of_mem_zip hmem).1]
    exact h hmem

theorem results_append_iff {table : LineTable} {ts₁ ts₂ : List (TypeDecl × Attribute)}
    {results : List TypeResult} :
    Results table options (ts₁ ++ ts₂) results ↔
      ∃ results₁ results₂, Results table options ts₁ results₁ ∧
        Results table options ts₂ results₂ ∧ results = results₁ ++ results₂ := by
  constructor
  · intro h
    have hfirst := List.forall₂_take ts₁.length h
    have hsecond := List.forall₂_drop ts₁.length h
    rw [List.take_left] at hfirst
    rw [List.drop_left] at hsecond
    exact ⟨_, _, hfirst, hsecond, (List.take_append_drop _ _).symm⟩
  · rintro ⟨results₁, results₂, h₁, h₂, rfl⟩
    exact List.rel_append h₁ h₂

theorem results_moved_iff {table table' : LineTable} {ts : List (TypeDecl × Attribute)}
    {results : List TypeResult}
    (hlocation : ∀ p ∈ ts, table'.location (p.2.moved n).span
      = (table.location p.2.span).moved n lines) :
    Results table' options (ts.map fun p => (p.1.moved n, p.2.moved n)) results ↔
      ∃ results₀, Results table options ts results₀ ∧
        results = results₀.map (TypeResult.moved n lines) := by
  induction ts generalizing results with
  | nil => simp [Results]
  | cons p ts ih =>
    have hp : resultFor table' options (p.1.moved n) (p.2.moved n)
        = (resultFor table options p.1 p.2).map (TypeResult.moved n lines) :=
      resultFor_moved (hlocation p (List.mem_cons_self ..))
    have hts := fun rs => @ih rs fun p hp => hlocation p (List.mem_cons_of_mem _ hp)
    constructor
    · intro h
      cases h with
      | cons hr hrest =>
        obtain ⟨results₀, hresults₀, rfl⟩ := (hts _).1 hrest
        dsimp only at hr
        rw [hp] at hr
        cases hr₀ : resultFor table options p.1 p.2 with
        | error e => simp [hr₀, Except.map] at hr
        | ok r₀ =>
          rw [hr₀] at hr
          obtain rfl := Except.ok.inj hr
          exact ⟨r₀ :: results₀, .cons hr₀ hresults₀, rfl⟩
    · rintro ⟨results₀, h₀, rfl⟩
      cases h₀ with
      | cons hr hrest =>
        refine .cons ?_ ((hts _).2 ⟨_, hrest, rfl⟩)
        dsimp only at hr ⊢
        rw [hp, hr]
        rfl

/-- A report about a source is one with the results of its annotated types. -/
theorem expandSource_results_iff {limits : Limits} {source : List Char} {ds : List Declaration}
    (hoptions : options.error? = none) (hread : readSource limits source = .ok ds)
    {results : List TypeResult} :
    (∃ report, expandSource options limits source = .ok report ∧ report.results = results) ↔
      Results (.ofText source) options (annotated ds) results := by
  constructor
  · rintro ⟨report, hreport, rfl⟩
    obtain ⟨edits, hall, -⟩ := (expandSource_iff hread).1 hreport
    exact (expandAll_iff.1 hall).1
  · intro h
    have hall : expandAll source (.ofText source) options (annotated ds) = .ok (results, _) :=
      expandAll_iff.2 ⟨h, rfl⟩
    obtain ⟨out, hout, -⟩ := applyEdits_edits hoptions hread hall
    exact ⟨⟨out, results⟩, (expandSource_iff hread).2 ⟨_, hall, hout⟩, rfl⟩

theorem results_joined_iff {limits : Limits} {s₁ s₂ : List Char} {ds₁ ds₂ : List Declaration}
    (hoptions : options.error? = none) (hsize : limits.maxSourceSize ≤ 0)
    (h₁ : readSource limits s₁ = .ok ds₁) (h₂ : readSource limits s₂ = .ok ds₂)
    (hbare : ∀ d ∈ ds₁.getLast?, d.isBare s₁ = false) {results : List TypeResult} :
    (∃ report, expandSource options limits (s₁ ++ '\n' :: s₂) = .ok report ∧
        report.results = results) ↔
      ∃ results₁ results₂, Results (.ofText s₁) options (annotated ds₁) results₁ ∧
        Results (.ofText s₂) options (annotated ds₂) results₂ ∧
        results = results₁
          ++ results₂.map (TypeResult.moved (s₁.length + 1) (s₁.count '\n' + 1)) := by
  have hleft : ∀ rs, Results (.ofText (s₁ ++ '\n' :: s₂)) options (annotated ds₁) rs ↔
      Results (.ofText s₁) options (annotated ds₁) rs := fun _ =>
    results_congr fun p hp => location_append_left (start_le_of_annotated h₁ hp) ('\n' :: s₂)
  have hright : ∀ rs, Results (.ofText (s₁ ++ '\n' :: s₂)) options
        ((annotated ds₂).map fun p => (p.1.moved (s₁.length + 1), p.2.moved (s₁.length + 1))) rs ↔
      ∃ rs₀, Results (.ofText s₂) options (annotated ds₂) rs₀ ∧
        rs = rs₀.map (TypeResult.moved (s₁.length + 1) (s₁.count '\n' + 1)) := fun _ =>
    results_moved_iff fun p hp => location_append_right s₁ (start_le_of_annotated h₂ hp)
  rw [expandSource_results_iff hoptions (readSource_append hsize h₁ h₂ hbare), annotated_append,
    annotated_moved, results_append_iff]
  constructor
  · rintro ⟨results₁, results, hresults₁, hresults, rfl⟩
    obtain ⟨results₂, hresults₂, rfl⟩ := (hright _).1 hresults
    exact ⟨results₁, results₂, (hleft _).1 hresults₁, hresults₂, rfl⟩
  · rintro ⟨results₁, results₂, hresults₁, hresults₂, rfl⟩
    exact ⟨results₁, _, (hleft _).2 hresults₁, (hright _).2 ⟨results₂, hresults₂, rfl⟩, rfl⟩

/-- **Sources can be joined.** Two sources with a line feed in between are read and expanded as one
after the other, unless the first one ends in attributes and modifiers alone: the declarations are
those of both, and the results are those of both, with everything of the second one moved behind the
first. -/
theorem expandSource_append {limits : Limits} {s₁ s₂ : List Char} {ds₁ ds₂ : List Declaration}
    (hoptions : options.error? = none) (hsize : limits.maxSourceSize ≤ 0)
    (h₁ : readSource limits s₁ = .ok ds₁) (h₂ : readSource limits s₂ = .ok ds₂)
    (hbare : ∀ d ∈ ds₁.getLast?, d.isBare s₁ = false) :
    readSource limits (s₁ ++ '\n' :: s₂) = .ok (ds₁ ++ movedAll (s₁.length + 1) ds₂) ∧
      ((∃ report, expandSource options limits (s₁ ++ '\n' :: s₂) = .ok report) ↔
        (∃ report₁, expandSource options limits s₁ = .ok report₁) ∧
          ∃ report₂, expandSource options limits s₂ = .ok report₂) ∧
      ∀ report report₁ report₂, expandSource options limits (s₁ ++ '\n' :: s₂) = .ok report →
        expandSource options limits s₁ = .ok report₁ →
        expandSource options limits s₂ = .ok report₂ →
        report.results = report₁.results
            ++ report₂.results.map (TypeResult.moved (s₁.length + 1) (s₁.count '\n' + 1)) ∧
          report.diagnostics = report₁.diagnostics
            ++ report₂.diagnostics.map (Diagnostic.moved (s₁.length + 1) (s₁.count '\n' + 1)) ∧
          report.members = report₁.members ++ report₂.members := by
  have hread := readSource_append hsize h₁ h₂ hbare
  have hresults := fun results =>
    @results_joined_iff options limits s₁ s₂ ds₁ ds₂ hoptions hsize h₁ h₂ hbare results
  refine ⟨hread, ⟨?_, ?_⟩, ?_⟩
  · rintro ⟨report, hreport⟩
    obtain ⟨results₁, results₂, hresults₁, hresults₂, -⟩ := (hresults _).1 ⟨report, hreport, rfl⟩
    obtain ⟨report₁, hreport₁, -⟩ := (expandSource_results_iff hoptions h₁).2 hresults₁
    obtain ⟨report₂, hreport₂, -⟩ := (expandSource_results_iff hoptions h₂).2 hresults₂
    exact ⟨⟨report₁, hreport₁⟩, ⟨report₂, hreport₂⟩⟩
  · rintro ⟨⟨report₁, hreport₁⟩, ⟨report₂, hreport₂⟩⟩
    have hresults₁ := (expandSource_results_iff hoptions h₁).1 ⟨report₁, hreport₁, rfl⟩
    have hresults₂ := (expandSource_results_iff hoptions h₂).1 ⟨report₂, hreport₂, rfl⟩
    obtain ⟨report, hreport, -⟩ := (hresults _).2 ⟨_, _, hresults₁, hresults₂, rfl⟩
    exact ⟨report, hreport⟩
  · intro report report₁ report₂ hreport hreport₁ hreport₂
    have hresults₁ := (expandSource_results_iff hoptions h₁).1 ⟨report₁, hreport₁, rfl⟩
    have hresults₂ := (expandSource_results_iff hoptions h₂).1 ⟨report₂, hreport₂, rfl⟩
    obtain ⟨report', hreport', heq⟩ := (hresults _).2 ⟨_, _, hresults₁, hresults₂, rfl⟩
    obtain rfl := Except.ok.inj (hreport.symm.trans hreport')
    refine ⟨heq, ?_, ?_⟩
    · simp only [Report.diagnostics, heq, List.flatMap_append, List.flatMap_map,
        TypeResult.diagnostics_moved, List.map_flatMap]
    · simp only [Report.members, heq, List.flatMap_append, List.flatMap_map]
      rfl

/-- A source with a type that is expanded. -/
def firstSource : List Char :=
  "@LocalizedStrings(prefix: \"p\") enum A \x7b\n  enum Strings \x7b case a \x7d\n\x7d".toList

/-- A source with a type that is not. -/
def secondSource : List Char := "// more\n@LocalizedStrings() struct B \x7b \x7d".toList

theorem expandSource_append_twoTypes :
    ∃ ds₁ ds₂, readSource ⟨0, 100⟩ firstSource = .ok ds₁ ∧ readSource ⟨0, 100⟩ secondSource = .ok ds₂ ∧
      readSource ⟨0, 100⟩ (firstSource ++ '\n' :: secondSource)
        = .ok (ds₁ ++ movedAll (firstSource.length + 1) ds₂) ∧
      ((∃ report, expandSource {} ⟨0, 100⟩ (firstSource ++ '\n' :: secondSource) = .ok report) ↔
        (∃ report₁, expandSource {} ⟨0, 100⟩ firstSource = .ok report₁) ∧
          ∃ report₂, expandSource {} ⟨0, 100⟩ secondSource = .ok report₂) := by
  have hfirst : (readSource ⟨0, 100⟩ firstSource).toOption.any
      (·.getLast?.all (!·.isBare firstSource)) = true := by decide +kernel
  have hsecond : (readSource ⟨0, 100⟩ secondSource).toOption.isSome = true := by decide +kernel
  have hoptions : ({} : Options).error? = none := by decide +kernel
  cases h₁ : readSource ⟨0, 100⟩ firstSource with
  | error f => simp [h₁, Except.toOption] at hfirst
  | ok ds₁ =>
    cases h₂ : readSource ⟨0, 100⟩ secondSource with
    | error f => simp [h₂, Except.toOption] at hsecond
    | ok ds₂ =>
      simp only [h₁, Except.toOption, Option.any_some] at hfirst
      have hbare : ∀ d ∈ ds₁.getLast?, d.isBare firstSource = false := by
        intro d hd
        rw [Option.mem_def.1 hd] at hfirst
        simpa using hfirst
      obtain ⟨hread, hreports, -⟩ := expandSource_append hoptions (Int.le_refl 0) h₁ h₂ hbare
      exact ⟨ds₁, ds₂, rfl, rfl, hread, hreports⟩

end Expansion

end LocalizedKeys
