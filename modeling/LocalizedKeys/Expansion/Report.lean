import LocalizedKeys.Expansion.Placement
import LocalizedKeys.Expansion.Synthesis
import LocalizedKeys.Swift.Declaration

/-!
# Expanding a source

Each annotated type of a source is expanded on its own: one that cannot be expanded stays as it
is and says why, without an effect on the others. The report has one result for each annotated
type, in the order of the source.
-/

namespace LocalizedKeys.Expansion

open Swift

/-! ## One type -/

/-- The last part of a qualified name. -/
def lastComponent (name : String) : String :=
  String.ofList (name.toList.reverse.takeWhile (· != '.')).reverse

/-- The annotation of a type, with or without the name of its module. -/
def annotation? (t : TypeDecl) : Option Attribute :=
  t.attributes.find? fun a => lastComponent a.name == annotationName

/-- What the annotation of a type asks for. -/
def requestOf (a : Attribute) (t : TypeDecl) : Except ExpansionError Request :=
  if !t.isEnum then .error (.appliesOnlyToEnumerations t.kind)
  else
    match a.arguments with
    | none => .error .argumentListMissing
    | some arguments => Request.ofArguments arguments

/-- What comes of one annotated type: advice, and members or the reason why there are none. -/
structure Expanded where
  advice : List Diagnostic
  outcome : Except ExpansionError (List Member)

/-- The advice about a request whose annotation is at a location. -/
def advise (options : Options) (location : Option Location) (request : Request) :
    List Diagnostic :=
  if options.warnImplicitSeparator && request.lacksSeparator then
    [Diagnostic.separatorDefaultChanging.withContext location none none]
  else []

/-- An index that has too many digits to be read. -/
structure IndexTooLong where
  digits : Nat
deriving DecidableEq, Repr

/-- Expands a type whose annotation is at a location. -/
def expandType (options : Options) (location : Option Location) (a : Attribute) (t : TypeDecl) :
    Except IndexTooLong Expanded :=
  match requestOf a t with
  | .error e => .ok ⟨[], .error e⟩
  | .ok request =>
    let advice := advise options location request
    match synthesize request options t with
    | .error (.rejected e) => .ok ⟨advice, .error e⟩
    | .error (.indexTooLong digits) => .error ⟨digits⟩
    | .ok members => .ok ⟨advice, .ok members⟩

/-- What is reported about an annotated type that cannot be expanded. -/
def failureDiagnostic (e : ExpansionError) (location : Option Location) (t : String) : Diagnostic :=
  e.diagnostic.withContext location (some t) none

/-! ## The whole source -/

/-- What came of one annotated type of a source. -/
structure TypeResult where
  /-- The name of the type. -/
  declaration : String
  /-- Where its annotation is. -/
  location : Location
  advice : List Diagnostic
  outcome : Except ExpansionError (List Member)

namespace TypeResult

/-- The members that were made. -/
def members (r : TypeResult) : List Member :=
  match r.outcome with
  | .ok members => members
  | .error _ => []

/-- Why there are none. -/
def error? (r : TypeResult) : Option ExpansionError :=
  match r.outcome with
  | .ok _ => none
  | .error e => some e

/-- Whether the type was expanded. -/
def succeeded (r : TypeResult) : Bool := r.error?.isNone

/-- The members as text. -/
def rendered (options : Options) (r : TypeResult) : List String :=
  r.members.map fun m => m.render options.mode options.indent

/-- All that is reported about the type. -/
def diagnostics (r : TypeResult) : List Diagnostic :=
  match r.error? with
  | none => r.advice
  | some e => r.advice ++ [failureDiagnostic e (some r.location) r.declaration]

end TypeResult

/-- What came of a source. -/
structure Report where
  /-- The source with all types changed that could be expanded. -/
  expanded : List Char
  results : List TypeResult

namespace Report

/-- All that is reported, in the order of the types. -/
def diagnostics (r : Report) : List Diagnostic := r.results.flatMap TypeResult.diagnostics

/-- The diagnostics that are errors. -/
def errors (r : Report) : List Diagnostic := r.diagnostics.filter fun d => !d.isWarning

/-- The diagnostics that are warnings. -/
def warnings (r : Report) : List Diagnostic := r.diagnostics.filter Diagnostic.isWarning

/-- Whether all annotated types were expanded. -/
def succeeded (r : Report) : Bool := r.results.all TypeResult.succeeded

/-- The members of all types. -/
def members (r : Report) : List Member := r.results.flatMap TypeResult.members

end Report

/-- The types of a source that have an annotation, with it. -/
def annotated (declarations : List Declaration) : List (TypeDecl × Attribute) :=
  (walk declarations).filterMap fun t => (annotation? t).map fun a => (t, a)

/-- The edits that an expansion of a type needs: none if it failed, and none for members if there
are none. -/
def editsFor (source : List Char) (options : Options) (t : TypeDecl) (a : Attribute)
    (result : TypeResult) : List Edit :=
  if result.succeeded then
    let members := (result.rendered options).map String.toList
    let insertion := if members.isEmpty then []
      else [memberInsertion source (.of t) members options.indent.toList]
    attributeRemoval source a.span :: insertion
  else []

/-- The result for an annotated type. -/
def resultFor (table : LineTable) (options : Options) (t : TypeDecl) (a : Attribute) :
    Except IndexTooLong TypeResult :=
  let location := table.location a.span
  match expandType options (some location) a t with
  | .error e => .error e
  | .ok expanded => .ok ⟨t.name, location, expanded.advice, expanded.outcome⟩

/-- The results for annotated types, with the edits that they need. -/
def expandAll (source : List Char) (table : LineTable) (options : Options) :
    List (TypeDecl × Attribute) → Except IndexTooLong (List TypeResult × List Edit)
  | [] => .ok ([], [])
  | (t, a) :: rest =>
    match resultFor table options t a with
    | .error e => .error e
    | .ok result =>
      match expandAll source table options rest with
      | .error e => .error e
      | .ok (results, edits) =>
        .ok (result :: results, editsFor source options t a result ++ edits)

/-- Why there is no report about a source. -/
inductive ReportError where
  | unreadable (failure : Failure)
  | indexTooLong (digits : Nat)
  | overlap (o : Overlap)
deriving Repr

/-- Expands the annotated types of a source. -/
def expandSource (options : Options) (limits : Limits) (source : List Char) :
    Except ReportError Report :=
  match readSource limits source with
  | .error f => .error (.unreadable f)
  | .ok declarations =>
    match expandAll source (.ofText source) options (annotated declarations) with
    | .error e => .error (.indexTooLong e.digits)
    | .ok (results, edits) =>
      match applyEdits source edits with
      | .error o => .error (.overlap o)
      | .ok expanded => .ok ⟨expanded, results⟩

end LocalizedKeys.Expansion
