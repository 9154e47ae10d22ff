import LocalizedKeys.Diagnostic.Template

/-!
# From specifiers to parameters

Every argument is described by the first specifier with its index. The indices have to be
1, 2, … without a gap; then the arguments' types, in the order of the indices, are the
parameters of a formatting function.

Indices that do not run so are an error, which names one of them. The indices of a text can always
be named. Those of other specifiers may have too many digits, and then the error cannot be reported.
-/

namespace LocalizedKeys.Format

/-- The parameter type of a length modifier and a conversion. A pair without one is reported by
the text of its specifier, or spelled out where that is missing or empty. -/
def resolveType (lengthModifier conversion : String) (text? : Option String) :
    Except SpecifierError ParamType :=
  match ParamType.of? lengthModifier conversion with
  | some type => .ok type
  | none =>
    match text? with
    | some text =>
      .error (.unknown (if text.isEmpty then "%" ++ lengthModifier ++ conversion else text))
    | none => .error (.unknown ("%" ++ lengthModifier ++ conversion))

/-- The parameter type of a specifier. -/
def Specifier.type (s : Specifier) : Except SpecifierError ParamType :=
  resolveType s.lengthModifier (String.singleton s.conversion) (some s.text)

/-- One specifier for each index, from specifiers sorted by index, after those for the indices
up to `count`. -/
def denseFrom (count : Nat) : List Specifier → Except SpecifierError (List Specifier)
  | [] => .ok []
  | s :: rest =>
    if 0 < count ∧ s.index = count then denseFrom count rest
    else if s.index = count + 1 then
      match denseFrom (count + 1) rest with
      | .error e => .error e
      | .ok others => .ok (s :: others)
    else .error (.indexOutOfRange s.index (count + 1))

/-- One specifier for each argument in the order of the indices: the earliest one with that
index. -/
def denseArguments (specifiers : List Specifier) : Except SpecifierError (List Specifier) :=
  denseFrom 0 (specifiers.mergeSort fun a b => decide (a.index ≤ b.index))

/-- How finding the arguments of specifiers can end without them. -/
inductive ResolutionFailure where
  | rejected (error : SpecifierError)
  /-- The error that there is cannot be reported. -/
  | unreportable (e : Text.NumberError)
deriving DecidableEq, Repr

/-- An answer whose error is reported, if it can be. -/
def reported {α : Type} (answer : Except SpecifierError α) : Except ResolutionFailure α :=
  answer.mapError fun e =>
    match e.report with
    | .ok _ => .rejected e
    | .error failure => .unreportable failure

/-- The specifiers for the arguments. -/
def resolveArguments (specifiers : List Specifier) :
    Except ResolutionFailure (List Specifier) :=
  reported (denseArguments specifiers)

/-- The specifiers of a text, one for each argument. Their indices have few enough digits for every
error to be reported. -/
def parseSpecifiers (text : String) : Except FormatFailure (List Specifier) :=
  match scanSpecifiers text with
  | .error e => .error e
  | .ok specifiers => (denseArguments specifiers).mapError .rejected

/-- The types of the arguments that a text formats, in the order of their indices. -/
def argumentTypes (text : String) : Except FormatFailure (List ParamType) :=
  match parseSpecifiers text with
  | .error e => .error e
  | .ok resolved => (resolved.mapM Specifier.type).mapError .rejected

end LocalizedKeys.Format
