import LocalizedKeys.Expansion.Member

/-!
# From cases to members

Every case of the key enumeration gives one member. Its default value is the raw value as
written, or its bare name between quotes, and the format specifiers in there decide whether
the member takes arguments.
-/

namespace LocalizedKeys.Expansion

open Swift

/-- The default value of a case, as an expression. -/
def defaultValue (element : CaseElement) : String :=
  element.rawValue.getD (quote (bareName element.name))

/-- The lookup for a case. -/
def lookupFor (request : Request) (options : Options) (element : CaseElement) : Lookup :=
  { key := quote (request.key options.defaultSeparator element.name)
    defaultValue := defaultValue element
    table := request.resolvedTable
    bundle := request.resolvedBundle }

/-- The member for a case. -/
def synthesizeCase (request : Request) (options : Options) (element : CaseElement) :
    Except Interruption Member :=
  match Format.argumentTypes (defaultValue element) with
  | .error (.rejected e) => .error (.rejected (.badSpecifiers (bareName element.name) e))
  | .error (.indexTooLong digits) => .error (.indexTooLong digits)
  | .ok [] => .ok (.constant element.name (lookupFor request options element))
  | .ok parameters => .ok (.function element.name (lookupFor request options element) parameters)

/-- The members for cases, in their order. -/
def synthesizeCases (request : Request) (options : Options) :
    List CaseElement → Except Interruption (List Member)
  | [] => .ok []
  | element :: rest =>
    match synthesizeCase request options element with
    | .error e => .error e
    | .ok member =>
      match synthesizeCases request options rest with
      | .error e => .error e
      | .ok others => .ok (member :: others)

/-- The members for an annotated type. -/
def synthesize (request : Request) (options : Options) (t : TypeDecl) :
    Except Interruption (List Member) :=
  if t.isEnum then
    match t.nestedEnum? request.resolvedStringsEnum with
    | none => .error (.rejected (.noStringsEnumFound request.resolvedStringsEnum))
    | some keys => synthesizeCases request options keys.caseElements
  else .error (.rejected (.appliesOnlyToEnumerations t.kind))

end LocalizedKeys.Expansion
