import LocalizedKeys.Proofs.Rewriting

/-!
# What comes of an annotated type

An annotated type is expanded in stages: it has to be an enumeration, its annotation needs an
argument list with a usable separator, there has to be an enumeration of keys, and the default
value of every case has to be read. `Outcome` says, without a look at how the stages are run, which
one decides, and `ReachesLongIndex` what ends the expansion of the whole source instead. The two
exclude each other and leave nothing out, so a source has a report exactly if none of its
annotated types reaches such an index, and then the report holds the outcome of each.
-/

namespace LocalizedKeys.Expansion

open Swift Format

/-! ## The stages -/

/-- The attribute names the annotation, with or without a module. -/
def requestsExpansion (a : Attribute) : Bool := lastComponent a.name == annotationName

/-- The attribute is the first of a type that names the annotation. -/
def AnnotatedBy (t : TypeDecl) (a : Attribute) : Prop :=
  ∃ before after, t.attributes = before ++ a :: after ∧ requestsExpansion a = true ∧
    ∀ b ∈ before, requestsExpansion b = false

/-- The last argument with the label is the expression. -/
def LastLabelled (arguments : List Argument) (label expression : String) : Prop :=
  ∃ before argument after, arguments = before ++ argument :: after ∧
    argument.label = some label ∧ argument.expression = expression ∧
    ∀ other ∈ after, other.label ≠ some label

/-- There is no argument with the label. -/
def Unlabelled (arguments : List Argument) (label : String) : Prop :=
  ∀ argument ∈ arguments, argument.label ≠ some label

/-- The annotation of a type asks for an expansion: the type is an enumeration, there is an
argument list, and its separator, if there is one, is a simple literal. -/
structure Asks (t : TypeDecl) (a : Attribute) (request : Request) : Prop where
  kind : t.kind = .enumType
  arguments : ∃ arguments, a.arguments = some arguments ∧
    Request.ofArguments arguments = .ok request ∧
    ∀ separator, LastLabelled arguments "separator" separator → isSimpleLiteral separator = true

/-- The first enumeration with a name directly inside a type. -/
def KeysOf (t : TypeDecl) (name : String) (keys : TypeDecl) : Prop :=
  ∃ before after, t.members = before ++ .type keys.toTypeHeader keys.members :: after ∧
    keys.kind = .enumType ∧ keys.name = name ∧
    ∀ header members, .type header members ∈ before → ¬(header.kind = .enumType ∧ header.name = name)

/-- There is no enumeration with a name directly inside a type. -/
def WithoutKeys (t : TypeDecl) (name : String) : Prop :=
  ∀ header members, .type header members ∈ t.members →
    ¬(header.kind = .enumType ∧ header.name = name)

/-- The default value of a case asks for parameters. -/
def Takes (element : CaseElement) (parameters : List ParamType) : Prop :=
  argumentTypes (defaultValue element) = .ok parameters

/-- The member for a case: a constant exactly if nothing is formatted. -/
inductive Becomes (options : Options) (request : Request) (element : CaseElement) : Member → Prop
  | constant : Takes element [] →
      Becomes options request element
        (.constant element.name (lookupFor request options element))
  | function {parameters : List ParamType} : Takes element parameters → parameters ≠ [] →
      Becomes options request element
        (.function element.name (lookupFor request options element) parameters)

/-- What comes of an annotated type. -/
inductive Outcome (options : Options) (t : TypeDecl) (a : Attribute) :
    Except ExpansionError (List Member) → Prop
  | otherKind : t.kind ≠ .enumType →
      Outcome options t a (.error (.appliesOnlyToEnumerations t.kind))
  | noList : t.kind = .enumType → a.arguments = none →
      Outcome options t a (.error .argumentListMissing)
  | badSeparator {arguments : List Argument} {separator : String} :
      t.kind = .enumType → a.arguments = some arguments →
      LastLabelled arguments "separator" separator → isSimpleLiteral separator = false →
      Outcome options t a (.error (.invalidSeparator separator))
  | noKeys {request : Request} :
      Asks t a request → WithoutKeys t request.resolvedStringsEnum →
      Outcome options t a (.error (.noStringsEnumFound request.resolvedStringsEnum))
  | badCase {request : Request} {keys : TypeDecl} {before after : List CaseElement}
      {element : CaseElement} {e : SpecifierError} :
      Asks t a request → KeysOf t request.resolvedStringsEnum keys →
      keys.caseElements = before ++ element :: after →
      (∀ other ∈ before, ∃ parameters, Takes other parameters) →
      argumentTypes (defaultValue element) = .error (.rejected e) →
      Outcome options t a (.error (.badSpecifiers (bareName element.name) e))
  | expanded {request : Request} {keys : TypeDecl} {members : List Member} :
      Asks t a request → KeysOf t request.resolvedStringsEnum keys →
      List.Forall₂ (Becomes options request) keys.caseElements members →
      Outcome options t a (.ok members)

/-- All stages before the default values are passed, and the first of these that cannot be read
has an index with too many digits. -/
def ReachesLongIndex (t : TypeDecl) (a : Attribute) (digits : Nat) : Prop :=
  ∃ request keys before element after, Asks t a request ∧
    KeysOf t request.resolvedStringsEnum keys ∧
    keys.caseElements = before ++ element :: after ∧
    (∀ other ∈ before, ∃ parameters, Takes other parameters) ∧
    argumentTypes (defaultValue element) = .error (.indexTooLong digits)

/-- A prefix is asked for without a separator, and this is to be warned about. -/
def Advised (options : Options) (t : TypeDecl) (a : Attribute) : Prop :=
  options.warnImplicitSeparator = true ∧ t.kind = .enumType ∧
    ∃ arguments expression, a.arguments = some arguments ∧
      LastLabelled arguments "prefix" expression ∧ Unlabelled arguments "separator"

/-! ## The stages as they are run -/

theorem annotation?_eq_some_iff {t : TypeDecl} {a : Attribute} :
    annotation? t = some a ↔ AnnotatedBy t a := by
  rw [annotation?, List.find?_eq_some_iff_append]
  constructor
  · rintro ⟨ha, before, after, hsplit, hbefore⟩
    exact ⟨before, after, hsplit, ha, fun b hb => by simpa [requestsExpansion] using hbefore b hb⟩
  · rintro ⟨before, after, hsplit, ha, hbefore⟩
    exact ⟨ha, before, after, hsplit, fun b hb => by simpa [requestsExpansion] using hbefore b hb⟩

theorem lastLabelled?_eq_some_iff {arguments : List Argument} {label expression : String} :
    Request.lastLabelled? arguments label = some expression ↔
      LastLabelled arguments label expression := by
  rw [Request.lastLabelled?, List.getLast?_filter, Option.map_eq_some_iff]
  constructor
  · rintro ⟨argument, hfind, rfl⟩
    obtain ⟨hlabel, after, before, hsplit, hafter⟩ := List.find?_eq_some_iff_append.1 hfind
    refine ⟨before.reverse, argument, after.reverse, ?_, by simpa using hlabel, rfl,
      fun other hother => by simpa using hafter other (List.mem_reverse.1 hother)⟩
    rw [← List.reverse_reverse arguments, hsplit, List.reverse_append, List.reverse_cons,
      List.append_assoc, List.singleton_append]
  · rintro ⟨before, argument, after, rfl, hlabel, rfl, hafter⟩
    refine ⟨argument, List.find?_eq_some_iff_append.2 ⟨by simpa using hlabel, after.reverse,
      before.reverse, ?_, fun other hother => ?_⟩, rfl⟩
    · rw [List.reverse_append, List.reverse_cons, List.append_assoc, List.singleton_append]
    · simpa using hafter other (List.mem_reverse.1 hother)

theorem lastLabelled?_eq_none_iff {arguments : List Argument} {label : String} :
    Request.lastLabelled? arguments label = none ↔ Unlabelled arguments label := by
  rw [Request.lastLabelled?, Option.map_eq_none_iff, List.getLast?_filter, List.find?_eq_none]
  constructor
  · intro h argument hargument
    simpa using h argument (List.mem_reverse.2 hargument)
  · intro h argument hargument
    simpa using h argument (List.mem_reverse.1 hargument)

/-- The type that a declaration is. -/
theorem nested_eq (t : TypeDecl) (p : TypeDecl → Bool) :
    t.nested.find? p = (t.members.find? fun d =>
      match d with
      | .type header members => p ⟨header, members⟩
      | _ => false).bind fun d =>
        match d with
        | .type header members => some ⟨header, members⟩
        | _ => none := by
  rw [TypeDecl.nested, List.find?_filterMap]
  congr 2
  funext d
  cases d <;> rfl

theorem nestedEnum?_eq_some_iff {t keys : TypeDecl} {name : String} :
    t.nestedEnum? name = some keys ↔ KeysOf t name keys := by
  rw [TypeDecl.nestedEnum?, nested_eq, Option.bind_eq_some_iff]
  constructor
  · rintro ⟨d, hfind, hd⟩
    obtain ⟨hp, before, after, hsplit, hbefore⟩ := List.find?_eq_some_iff_append.1 hfind
    cases d with
    | cases elements span => simp at hd
    | other text attributes modifiers span => simp at hd
    | type header members =>
      obtain rfl := Option.some.inj hd
      simp only [TypeDecl.isEnum, Bool.and_eq_true, beq_iff_eq] at hp
      refine ⟨before, after, hsplit, hp.1, hp.2, fun h ms hmem => ?_⟩
      simpa [TypeDecl.isEnum, imp_iff_not_or] using hbefore _ hmem
  · rintro ⟨before, after, hsplit, hkind, hname, hbefore⟩
    refine ⟨_, List.find?_eq_some_iff_append.2 ⟨?_, before, after, hsplit, fun d hd => ?_⟩, rfl⟩
    · simp [TypeDecl.isEnum, hkind, hname]
    · cases d with
      | cases elements span => rfl
      | other text attributes modifiers span => rfl
      | type header members => simpa [TypeDecl.isEnum, imp_iff_not_or] using hbefore header members hd

theorem nestedEnum?_eq_none_iff {t : TypeDecl} {name : String} :
    t.nestedEnum? name = none ↔ WithoutKeys t name := by
  rw [TypeDecl.nestedEnum?, nested_eq, Option.bind_eq_none_iff]
  constructor
  · intro h header members hmem hmatch
    cases hfind : t.members.find? fun d =>
        match d with
        | .type header members => (⟨header, members⟩ : TypeDecl).isEnum && header.name == name
        | _ => false with
    | none =>
      have := List.find?_eq_none.1 hfind _ hmem
      simp [TypeDecl.isEnum, hmatch] at this
    | some d =>
      have hd := h d hfind
      have hp := List.find?_some hfind
      cases d <;> simp at hd hp
  · intro h d hfind
    have hp := List.find?_some hfind
    have hmem := List.mem_of_find?_eq_some hfind
    cases d with
    | cases elements span => rfl
    | other text attributes modifiers span => rfl
    | type header members =>
      simp only [TypeDecl.isEnum, Bool.and_eq_true, beq_iff_eq] at hp
      exact (h header members hmem hp).elim

/-! ### The cases -/

variable {options : Options} {request : Request}

theorem synthesizeCase_of_becomes {element : CaseElement} {member : Member}
    (h : Becomes options request element member) :
    synthesizeCase request options element = .ok member := by
  cases h with
  | constant htakes => rw [synthesizeCase, show argumentTypes _ = _ from htakes]
  | @function parameters htakes hne =>
    rw [synthesizeCase, show argumentTypes _ = _ from htakes]
    cases parameters with
    | nil => exact (hne rfl).elim
    | cons => rfl

theorem becomes_of_takes (options : Options) (request : Request) {element : CaseElement} {parameters : List ParamType}
    (h : Takes element parameters) : ∃ member, Becomes options request element member := by
  cases parameters with
  | nil => exact ⟨_, .constant h⟩
  | cons p ps => exact ⟨_, .function h (List.cons_ne_nil p ps)⟩

theorem becomes_of_synthesizeCase {element : CaseElement} {member : Member}
    (h : synthesizeCase request options element = .ok member) :
    Becomes options request element member := by
  unfold synthesizeCase at h
  split at h
  · simp at h
  · simp at h
  · rename_i htakes
    exact Except.ok.inj h ▸ .constant htakes
  · rename_i parameters hne htakes
    exact Except.ok.inj h ▸ .function htakes hne

theorem Becomes.name_eq {element : CaseElement} {member : Member}
    (h : Becomes options request element member) : member.name = element.name := by
  cases h <;> rfl

theorem Becomes.lookup_eq {element : CaseElement} {member : Member}
    (h : Becomes options request element member) :
    member.lookup = lookupFor request options element := by
  cases h <;> rfl

theorem synthesizeCases_of_becomes {elements : List CaseElement} {members : List Member}
    (h : List.Forall₂ (Becomes options request) elements members) :
    synthesizeCases request options elements = .ok members := by
  induction h with
  | nil => rfl
  | cons hmember _ ih => rw [synthesizeCases, synthesizeCase_of_becomes hmember, ih]

/-- The first case that has no member decides. -/
theorem synthesizeCases_of_error {before after : List CaseElement} {element : CaseElement}
    {interruption : Interruption} (hbefore : ∀ other ∈ before, ∃ parameters, Takes other parameters)
    (h : synthesizeCase request options element = .error interruption) :
    synthesizeCases request options (before ++ element :: after) = .error interruption := by
  induction before with
  | nil => rw [List.nil_append, synthesizeCases, h]
  | cons other before ih =>
    obtain ⟨parameters, htakes⟩ := hbefore other (List.mem_cons_self ..)
    obtain ⟨member, hmember⟩ := becomes_of_takes options request htakes
    rw [List.cons_append, synthesizeCases, synthesizeCase_of_becomes hmember,
      ih fun x hx => hbefore x (List.mem_cons_of_mem _ hx)]

/-- Either all cases have members, or there is a first default value that cannot be read. -/
theorem cases_decided (options : Options) (request : Request) (elements : List CaseElement) :
    (∃ members, List.Forall₂ (Becomes options request) elements members) ∨
      ∃ before element after failure, elements = before ++ element :: after ∧
        (∀ other ∈ before, ∃ parameters, Takes other parameters) ∧
        argumentTypes (defaultValue element) = .error failure := by
  induction elements with
  | nil => exact .inl ⟨[], .nil⟩
  | cons element rest ih =>
    cases htypes : argumentTypes (defaultValue element) with
    | error failure => exact .inr ⟨[], element, rest, failure, rfl, by simp, htypes⟩
    | ok parameters =>
      rcases ih with ⟨members, hmembers⟩ | ⟨before, other, after, failure, rfl, hbefore, hother⟩
      · obtain ⟨member, hmember⟩ := becomes_of_takes options request
          (show Takes element parameters from htypes)
        exact .inl ⟨member :: members, .cons hmember hmembers⟩
      · refine .inr ⟨element :: before, other, after, failure, rfl, fun x hx => ?_, hother⟩
        rcases List.mem_cons.1 hx with rfl | hx
        · exact ⟨parameters, htypes⟩
        · exact hbefore x hx

/-! ### One type -/

variable {t : TypeDecl} {a : Attribute} {location : Option Location}

/-- The advice about an annotated type: one warning or none. -/
def AdviceOn (options : Options) (t : TypeDecl) (a : Attribute) (location : Option Location)
    (advice : List Diagnostic) : Prop :=
  (Advised options t a ∧
      advice = [{ Diagnostic.separatorDefaultChanging with location := location }]) ∨
    (¬Advised options t a ∧ advice = [])

theorem ofArguments_eq {arguments : List Argument} {request : Request}
    (h : Request.ofArguments arguments = .ok request) :
    request =
      { keyPrefix := (Request.lastLabelled? arguments "prefix").map unquote
        separator := (Request.lastLabelled? arguments "separator").map unquote
        table := Request.lastLabelled? arguments "table"
        bundle := Request.lastLabelled? arguments "bundle"
        stringsEnum := (Request.lastLabelled? arguments "stringsEnum").map unquote } := by
  unfold Request.ofArguments at h
  dsimp only at h
  split at h
  · split at h
    · exact (Except.ok.inj h).symm
    · simp at h
  · exact (Except.ok.inj h).symm

theorem ofArguments_ok {arguments : List Argument} {request : Request}
    (h : Request.ofArguments arguments = .ok request) :
    request.keyPrefix = (Request.lastLabelled? arguments "prefix").map unquote ∧
      request.separator = (Request.lastLabelled? arguments "separator").map unquote := by
  rw [ofArguments_eq h]
  exact ⟨rfl, rfl⟩

theorem exists_request {arguments : List Argument}
    (hsimple : ∀ separator, LastLabelled arguments "separator" separator →
      isSimpleLiteral separator = true) :
    ∃ request, Request.ofArguments arguments = .ok request := by
  unfold Request.ofArguments
  dsimp only
  split
  · rename_i separator hlast
    rw [if_pos (hsimple separator (lastLabelled?_eq_some_iff.1 hlast))]
    exact ⟨_, rfl⟩
  · exact ⟨_, rfl⟩

theorem Asks.requestOf_eq (h : Asks t a request) : requestOf a t = .ok request := by
  obtain ⟨hkind, arguments, harguments, hrequest, -⟩ := h
  rw [requestOf, TypeDecl.isEnum, hkind, harguments]
  exact hrequest

/-- Advice is given about a request exactly if it is due. -/
theorem Asks.adviceOn (h : Asks t a request) :
    AdviceOn options t a location (advise options location request) := by
  obtain ⟨hkind, arguments, harguments, hrequest, -⟩ := h
  obtain ⟨hleading, hseparator⟩ := ofArguments_ok hrequest
  rw [advise, Request.lacksSeparator, hleading, hseparator, Option.isSome_map, Option.isNone_map]
  by_cases hdue : options.warnImplicitSeparator = true ∧
      (Request.lastLabelled? arguments "prefix").isSome = true ∧
      Request.lastLabelled? arguments "separator" = none
  · obtain ⟨hwarn, hsome, hnone⟩ := hdue
    obtain ⟨expression, hexpression⟩ := Option.isSome_iff_exists.1 hsome
    refine .inl ⟨⟨hwarn, hkind, arguments, expression, harguments,
      lastLabelled?_eq_some_iff.1 hexpression, lastLabelled?_eq_none_iff.1 hnone⟩, ?_⟩
    rw [hwarn, hsome, hnone]
    rfl
  · refine .inr ⟨?_, if_neg ?_⟩
    · rintro ⟨hwarn, -, arguments', expression, harguments', hexpression, hnone⟩
      obtain rfl := Option.some.inj (harguments.symm.trans harguments')
      refine hdue ⟨hwarn, ?_, lastLabelled?_eq_none_iff.2 hnone⟩
      rw [lastLabelled?_eq_some_iff.2 hexpression]
      rfl
    · simpa only [Bool.and_eq_true, Option.isNone_iff_eq_none] using hdue

theorem Asks.synthesize_eq {keys : TypeDecl} (h : Asks t a request)
    (hkeys : KeysOf t request.resolvedStringsEnum keys) :
    synthesize request options t = synthesizeCases request options keys.caseElements := by
  rw [synthesize, TypeDecl.isEnum, h.kind, nestedEnum?_eq_some_iff.2 hkeys]
  rfl

theorem Asks.expandType_eq (h : Asks t a request) :
    expandType options location a t =
      match synthesize request options t with
      | .error (.rejected e) => .ok ⟨advise options location request, .error e⟩
      | .error (.indexTooLong digits) => .error ⟨digits⟩
      | .ok members => .ok ⟨advise options location request, .ok members⟩ := by
  rcases hs : synthesize request options t with (e | digits) | members <;>
    simp only [expandType, h.requestOf_eq, hs]

/-- Without a request nothing is advised, and its error is what comes of the type. -/
theorem expandType_of_error {e : ExpansionError} (h : requestOf a t = .error e)
    (hadvice : ¬Advised options t a) :
    ∃ advice, AdviceOn options t a location advice ∧
      expandType options location a t = .ok ⟨advice, .error e⟩ :=
  ⟨[], .inr ⟨hadvice, rfl⟩, by rw [expandType, h]⟩

/-- An outcome is what an expansion gives. -/
theorem Outcome.expandType_eq {outcome : Except ExpansionError (List Member)}
    (h : Outcome options t a outcome) (location : Option Location) :
    ∃ advice, AdviceOn options t a location advice ∧
      expandType options location a t = .ok ⟨advice, outcome⟩ := by
  cases h with
  | otherKind hkind =>
    refine expandType_of_error ?_ fun hadvised => hkind hadvised.2.1
    rw [requestOf, if_pos (by simpa [TypeDecl.isEnum] using hkind)]
  | noList hkind hnone =>
    refine expandType_of_error ?_ ?_
    · rw [requestOf, TypeDecl.isEnum, hkind, hnone]
      rfl
    · rintro ⟨-, -, arguments, expression, hsome, -⟩
      simp [hnone] at hsome
  | @badSeparator arguments separator hkind hsome hlast hsimple =>
    have hlast' := lastLabelled?_eq_some_iff.2 hlast
    refine expandType_of_error ?_ ?_
    · rw [requestOf, TypeDecl.isEnum, hkind, hsome]
      simp [Request.ofArguments, hlast', hsimple]
    · rintro ⟨-, -, arguments', expression, hsome', -, hnone⟩
      obtain rfl := Option.some.inj (hsome.symm.trans hsome')
      rw [lastLabelled?_eq_none_iff.2 hnone] at hlast'
      simp at hlast'
  | noKeys hasks hwithout =>
    refine ⟨_, hasks.adviceOn, ?_⟩
    rw [hasks.expandType_eq, synthesize, TypeDecl.isEnum, hasks.kind,
      nestedEnum?_eq_none_iff.2 hwithout]
    rfl
  | @badCase request keys before after element e hasks hkeys hsplit hbefore herror =>
    refine ⟨_, hasks.adviceOn, ?_⟩
    have hcase : synthesizeCase request options element
        = .error (.rejected (.badSpecifiers (bareName element.name) e)) := by
      rw [synthesizeCase, herror]
    rw [hasks.expandType_eq, hasks.synthesize_eq hkeys, hsplit,
      synthesizeCases_of_error hbefore hcase]
  | expanded hasks hkeys hmembers =>
    refine ⟨_, hasks.adviceOn, ?_⟩
    rw [hasks.expandType_eq, hasks.synthesize_eq hkeys, synthesizeCases_of_becomes hmembers]

/-- An index with too many digits ends everything. -/
theorem ReachesLongIndex.expandType_eq {digits : Nat} (h : ReachesLongIndex t a digits)
    (options : Options) (location : Option Location) :
    expandType options location a t = .error ⟨digits⟩ := by
  obtain ⟨request, keys, before, element, after, hasks, hkeys, hsplit, hbefore, herror⟩ := h
  have hcase : synthesizeCase request options element = .error (.indexTooLong digits) := by
    rw [synthesizeCase, herror]
  rw [hasks.expandType_eq, hasks.synthesize_eq hkeys, hsplit,
    synthesizeCases_of_error hbefore hcase]

/-- The stages leave nothing out. -/
theorem outcome_or_reachesLongIndex (options : Options) (t : TypeDecl) (a : Attribute) :
    (∃ outcome, Outcome options t a outcome) ∨ ∃ digits, ReachesLongIndex t a digits := by
  by_cases hkind : t.kind = .enumType
  case neg => exact .inl ⟨_, .otherKind hkind⟩
  cases harguments : a.arguments with
  | none => exact .inl ⟨_, .noList hkind harguments⟩
  | some arguments =>
    by_cases hbad : ∃ separator, LastLabelled arguments "separator" separator ∧
        isSimpleLiteral separator = false
    · obtain ⟨separator, hlast, hsimple⟩ := hbad
      exact .inl ⟨_, .badSeparator hkind harguments hlast hsimple⟩
    · have hsimple : ∀ separator, LastLabelled arguments "separator" separator →
          isSimpleLiteral separator = true := fun separator hlast => by
        cases h : isSimpleLiteral separator with
        | true => rfl
        | false => exact (hbad ⟨separator, hlast, h⟩).elim
      obtain ⟨request, hrequest⟩ := exists_request hsimple
      have hasks : Asks t a request := ⟨hkind, arguments, harguments, hrequest, hsimple⟩
      cases henum : t.nestedEnum? request.resolvedStringsEnum with
      | none => exact .inl ⟨_, .noKeys hasks (nestedEnum?_eq_none_iff.1 henum)⟩
      | some keys =>
        have hkeys := nestedEnum?_eq_some_iff.1 henum
        rcases cases_decided options request keys.caseElements with ⟨members, hmembers⟩ |
          ⟨before, element, after, failure, hsplit, hbefore, herror⟩
        · exact .inl ⟨_, .expanded hasks hkeys hmembers⟩
        · cases failure with
          | rejected e => exact .inl ⟨_, .badCase hasks hkeys hsplit hbefore herror⟩
          | indexTooLong digits =>
            exact .inr ⟨digits, request, keys, before, element, after, hasks, hkeys, hsplit,
              hbefore, herror⟩

/-- At most one outcome is that of a type. -/
theorem Outcome.unique {outcome outcome' : Except ExpansionError (List Member)}
    (h : Outcome options t a outcome) (h' : Outcome options t a outcome') : outcome = outcome' := by
  obtain ⟨advice, -, hrun⟩ := h.expandType_eq none
  obtain ⟨advice', -, hrun'⟩ := h'.expandType_eq none
  exact congrArg Expanded.outcome (Except.ok.inj (hrun.symm.trans hrun'))

/-! ## The whole source -/

/-- The result of an annotated type: its outcome, advice if that is due, and, if it failed, exactly
one error more that is placed at the annotation and names the type. -/
structure Decided (source : List Char) (options : Options) (t : TypeDecl) (a : Attribute)
    (r : TypeResult) : Prop where
  declaration : r.declaration = t.name
  location : r.location = (LineTable.ofText source).location a.span
  outcome : ∀ outcome, Outcome options t a outcome ↔ r.outcome = outcome
  advice : AdviceOn options t a (some r.location) r.advice
  failed : ∀ e, r.outcome = .error e → r.members = [] ∧ r.rendered options = [] ∧
    ∃ d, r.diagnostics = r.advice ++ [d] ∧ d.isWarning = false ∧
      d = { e.diagnostic with location := some r.location, declaration := some r.declaration }
  expanded : ∀ members, r.outcome = .ok members → r.members = members ∧
    r.rendered options = members.map (·.render options.mode options.indent) ∧
    r.diagnostics = r.advice

theorem bareName_ne_empty {name : String} (h : IsName name.toList) : bareName name ≠ "" := by
  unfold bareName
  dsimp only
  split
  · rename_i hticks
    intro hempty
    have hlength := congrArg (·.toList.length) hempty
    simp only [String.toList_ofList, List.length_dropLast, List.length_tail] at hlength
    have : "".toList.length = 0 := rfl
    omega
  · intro hempty
    exact h.ne_nil (by rw [hempty]; rfl)

/-- The error of a failed type is placed at the annotation and names the type. -/
theorem failureDiagnostic_eq {e : ExpansionError} (location : Location) (name : String)
    (hname : ∀ caseName error, e = .badSpecifiers caseName error → caseName ≠ "") :
    (failureDiagnostic e (some location) name).isWarning = false ∧
      failureDiagnostic e (some location) name
        = { e.diagnostic with location := some location, declaration := some name } := by
  cases e with
  | badSpecifiers caseName error =>
    have hne := hname caseName error rfl
    cases error <;>
      simp [failureDiagnostic, ExpansionError.diagnostic, SpecifierError.diagnostic,
        Diagnostic.withContext, Diagnostic.knownOr, Diagnostic.isWarning,
        Diagnostic.missingIndexConsistency, Diagnostic.indexGap,
        Diagnostic.unknownSpecifier, hne]
  | _ => exact ⟨rfl, rfl⟩

/-- A type has a result unless it reaches an index that is too long. -/
theorem resultFor_iff {source : List Char} :
    (∃ r, resultFor (.ofText source) options t a = .ok r) ↔
      ∀ digits, ¬ReachesLongIndex t a digits := by
  constructor
  · rintro ⟨r, hr⟩ digits hlong
    rw [resultFor, hlong.expandType_eq] at hr
    simp at hr
  · intro hshort
    rcases outcome_or_reachesLongIndex options t a with ⟨outcome, houtcome⟩ | ⟨digits, hlong⟩
    · obtain ⟨advice, -, hrun⟩ :=
        houtcome.expandType_eq (some ((LineTable.ofText source).location a.span))
      exact ⟨⟨t.name, _, advice, outcome⟩, by rw [resultFor, hrun]⟩
    · exact (hshort digits hlong).elim

/-- The result for a type is decided by its stages. -/
theorem decided_resultFor {source : List Char} {r : TypeResult}
    (hnames : ∀ header members, .type header members ∈ t.members →
      ∀ e ∈ (⟨header, members⟩ : TypeDecl).caseElements, IsName e.name.toList)
    (h : resultFor (.ofText source) options t a = .ok r) : Decided source options t a r := by
  rcases outcome_or_reachesLongIndex options t a with ⟨outcome, houtcome⟩ | ⟨digits, hlong⟩
  · obtain ⟨advice, hadvice, hrun⟩ :=
      houtcome.expandType_eq (some ((LineTable.ofText source).location a.span))
    rw [resultFor, hrun] at h
    obtain rfl := Except.ok.inj h
    have hcase : ∀ caseName error, outcome = .error (.badSpecifiers caseName error) →
        caseName ≠ "" := by
      rintro caseName error rfl
      cases houtcome with
      | @badCase _ keys _ _ element _ _ hkeys hsplit _ _ =>
        obtain ⟨before, after, hmembers, -⟩ := hkeys
        refine bareName_ne_empty (hnames keys.toTypeHeader keys.members ?_ element ?_)
        · rw [hmembers]
          exact List.mem_append_right _ (List.mem_cons_self ..)
        · exact hsplit ▸ List.mem_append_right _ (List.mem_cons_self ..)
    refine ⟨rfl, rfl, fun o => ⟨houtcome.unique, fun ho => ho ▸ houtcome⟩, hadvice, ?_, ?_⟩
    · rintro e rfl
      obtain ⟨hwarning, heq⟩ := failureDiagnostic_eq
        ((LineTable.ofText source).location a.span) t.name
        fun caseName error he => hcase caseName error (congrArg Except.error he)
      exact ⟨rfl, rfl, _, rfl, hwarning, heq⟩
    · rintro members rfl
      exact ⟨rfl, rfl, rfl⟩
  · rw [resultFor, hlong.expandType_eq] at h
    simp at h

theorem names_of_readSource {limits : Limits} {source : List Char} {ds : List Declaration}
    (h : readSource limits source = .ok ds) (ht : t ∈ types ds) (header : TypeHeader)
    (members : List Declaration) (hmem : .type header members ∈ t.members) :
    ∀ e ∈ (⟨header, members⟩ : TypeDecl).caseElements, IsName e.name.toList := by
  obtain ⟨c', hreads⟩ := reads_of_readSource h
  exact (hreads.forall_cases isName_readCaseElement).2 _ (mem_types_of_member ht hmem)

/-- The types with an annotation, one for each result. -/
theorem forall₂_annotated {P : TypeDecl → TypeResult → Prop} (ts : List TypeDecl)
    {results : List TypeResult}
    (h : List.Forall₂ (fun p r => P p.1 r)
      (ts.filterMap fun t => (annotation? t).map fun a => (t, a)) results) :
    List.Forall₂ P (ts.filter fun t => t.attributes.any requestsExpansion) results := by
  induction ts generalizing results with
  | nil => exact List.forall₂_nil_left_iff.2 (List.forall₂_nil_left_iff.1 h)
  | cons t ts ih =>
    cases ha : annotation? t with
    | none =>
      rw [List.filterMap_cons_none (by rw [ha, Option.map_none])] at h
      have hno : t.attributes.any requestsExpansion = false := by
        rw [List.any_eq_false]
        exact List.find?_eq_none.1 ha
      rw [List.filter_cons_of_neg (by rw [hno]; exact Bool.false_ne_true)]
      exact ih h
    | some a =>
      rw [List.filterMap_cons_some (by rw [ha, Option.map_some])] at h
      have hyes : t.attributes.any requestsExpansion = true :=
        List.any_eq_true.2 ⟨a, List.mem_of_find?_eq_some ha, List.find?_some ha⟩
      rw [List.filter_cons_of_pos (by exact hyes)]
      cases h with
      | cons hr hrest => exact .cons hr (ih hrest)

/-- A report holds what comes of each annotated type, in their order. -/
theorem decided_of_expandSource {limits : Limits} {source : List Char} {ds : List Declaration}
    {report : Report} (hread : readSource limits source = .ok ds)
    (hreport : expandSource options limits source = .ok report) :
    List.Forall₂ (fun t r => ∃ a, AnnotatedBy t a ∧ Decided source options t a r)
      ((types ds).filter fun t => t.attributes.any requestsExpansion) report.results := by
  obtain ⟨edits, hall, -⟩ := (expandSource_iff hread).1 hreport
  have hresults := (expandAll_iff.1 hall).1
  refine forall₂_annotated (types ds) (annotated_eq ds ▸ ?_)
  have hmem : ∀ p ∈ annotated ds, p.1 ∈ types ds ∧ annotation? p.1 = some p.2 :=
    fun p hp => mem_annotated.1 hp
  generalize annotated ds = ts at hresults hmem
  generalize report.results = results at hresults
  induction hresults with
  | nil => exact .nil
  | @cons p r ts results hr _ ih =>
    obtain ⟨ht, ha⟩ := hmem p (List.mem_cons_self ..)
    exact .cons ⟨p.2, annotation?_eq_some_iff.1 ha,
      decided_resultFor (names_of_readSource hread ht) hr⟩
      (ih fun p hp => hmem p (List.mem_cons_of_mem _ hp))

/-- A source that was read has a report exactly if none of its annotated types reaches an index
with too many digits, and then the report holds what comes of each of them, in their order. -/
theorem expandSource_decides {limits : Limits} {source : List Char} {ds : List Declaration}
    (hoptions : options.error? = none) (hread : readSource limits source = .ok ds) :
    ((∃ report, expandSource options limits source = .ok report) ↔
        ∀ t ∈ types ds, ∀ a, AnnotatedBy t a → ∀ digits, ¬ReachesLongIndex t a digits) ∧
      ∀ report, expandSource options limits source = .ok report →
        List.Forall₂ (fun t r => ∃ a, AnnotatedBy t a ∧ Decided source options t a r)
          ((types ds).filter fun t => t.attributes.any requestsExpansion) report.results := by
  refine ⟨⟨?_, fun hshort => ?_⟩, fun report hreport => ?_⟩
  · rintro ⟨report, hreport⟩ t ht a ha
    obtain ⟨edits, hall, -⟩ := (expandSource_iff hread).1 hreport
    exact resultFor_iff.1 (expandAll_isOk_iff.1 ⟨_, _, hall⟩ t a
      (mem_annotated.2 ⟨ht, annotation?_eq_some_iff.2 ha⟩))
  · obtain ⟨results, edits, hall⟩ := expandAll_isOk_iff.2 fun t a hmem =>
      have ⟨ht, ha⟩ := mem_annotated.1 hmem
      resultFor_iff.2 (hshort t ht a (annotation?_eq_some_iff.1 ha))
    obtain ⟨out, hout, -⟩ := applyEdits_edits hoptions hread hall
    exact ⟨⟨out, results⟩, (expandSource_iff hread).2 ⟨edits, hall, hout⟩⟩
  · exact decided_of_expandSource hread hreport

/-- A type with a constant and a function, one without keys inside it, and one of another kind. -/
def mixedSource : List Char :=
  "@L10n.LocalizedStrings(prefix: \"p\") enum Outer \x7b\n  enum Strings \x7b case a, b = \"%@\" \x7d\n\n  @LocalizedStrings() enum Inner \x7b \x7d\n\x7d\n@LocalizedStrings struct Other \x7b \x7d\n".toList

theorem expandSource_decides_mixedSource :
    ∃ ds report, readSource {} mixedSource = .ok ds ∧
      expandSource {} {} mixedSource = .ok report ∧ report.results.length = 3 ∧
      List.Forall₂ (fun t r => ∃ a, AnnotatedBy t a ∧ Decided mixedSource {} t a r)
        ((types ds).filter fun t => t.attributes.any requestsExpansion) report.results := by
  have hchecked : (readSource {} mixedSource).toOption.any (fun ds =>
      ((types ds).filter fun t => t.attributes.any requestsExpansion).length == 3 &&
        (annotated ds).all fun p => (resultFor (.ofText mixedSource) {} p.1 p.2).isOk) = true := by
    decide +kernel
  cases hread : readSource {} mixedSource with
  | error f => simp [hread, Except.toOption] at hchecked
  | ok ds =>
    simp only [hread, Except.toOption, Option.any_some, Bool.and_eq_true, beq_iff_eq] at hchecked
    have hoptions : ({} : Options).error? = none := by decide +kernel
    obtain ⟨hcondition, hdecided⟩ := expandSource_decides hoptions hread
    obtain ⟨report, hreport⟩ := hcondition.2 fun t ht a ha => by
        refine (@resultFor_iff {} t a mixedSource).1 ?_
        have hok := List.all_eq_true.1 hchecked.2 (t, a)
          (mem_annotated.2 ⟨ht, annotation?_eq_some_iff.2 ha⟩)
        cases h : resultFor (.ofText mixedSource) {} t a with
        | error e => simp [h, Except.isOk, Except.toBool] at hok
        | ok r => exact ⟨r, rfl⟩
    have hresults := hdecided report hreport
    exact ⟨ds, report, rfl, hreport, hresults.length_eq ▸ hchecked.1, hresults⟩

end LocalizedKeys.Expansion
