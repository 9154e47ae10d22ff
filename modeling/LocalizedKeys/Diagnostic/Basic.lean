import LocalizedKeys.Source.Location

/-!
# Diagnostics

What is reported about a source: a code, a message, and what is known of the place, the
annotated type, the case and the format specifier concerned. Context is filled in from the
inside out, so what is already known stays (`withContext`).
-/

namespace LocalizedKeys

/-- The kind of a problem. The thousands of its number tell what it concerns: expansion, format
specifiers, syntax, or advice. -/
inductive DiagnosticCode where
  | appliesOnlyToEnumerations
  | noStringsEnumFound
  | argumentListMissing
  | invalidSeparator
  | missingIndexConsistency
  | indexOutOfRange
  | unknownSpecifier
  | unexpectedEnd
  | unexpectedToken
  | unterminatedLiteral
  | nestingDepthExceeded
  | sourceTooLarge
  | separatorDefaultChanging
deriving DecidableEq, Repr

namespace DiagnosticCode

/-- All codes in the order of their numbers. -/
def all : List DiagnosticCode :=
  [appliesOnlyToEnumerations, noStringsEnumFound, argumentListMissing, invalidSeparator,
    missingIndexConsistency, indexOutOfRange, unknownSpecifier, unexpectedEnd, unexpectedToken,
    unterminatedLiteral, nestingDepthExceeded, sourceTooLarge, separatorDefaultChanging]

/-- The name by which a code is reported. -/
def name : DiagnosticCode → String
  | appliesOnlyToEnumerations => "APPLIES_ONLY_TO_ENUMERATIONS"
  | noStringsEnumFound => "NO_STRINGS_ENUM_FOUND"
  | argumentListMissing => "PARSER_ERROR"
  | invalidSeparator => "INVALID_SEPARATOR"
  | missingIndexConsistency => "MISSING_INDEX_CONSISTENCY"
  | indexOutOfRange => "INDEX_OUT_OF_RANGE"
  | unknownSpecifier => "UNKNOWN_SPECIFIER"
  | unexpectedEnd => "UNEXPECTED_EOF"
  | unexpectedToken => "UNEXPECTED_TOKEN"
  | unterminatedLiteral => "UNTERMINATED_LITERAL"
  | nestingDepthExceeded => "NESTING_DEPTH_EXCEEDED"
  | sourceTooLarge => "SOURCE_TOO_LARGE"
  | separatorDefaultChanging => "SEPARATOR_DEFAULT_CHANGING"

/-- The number of a code. -/
def number : DiagnosticCode → Nat
  | appliesOnlyToEnumerations => 1001
  | noStringsEnumFound => 1002
  | argumentListMissing => 1003
  | invalidSeparator => 1004
  | missingIndexConsistency => 2001
  | indexOutOfRange => 2002
  | unknownSpecifier => 2003
  | unexpectedEnd => 3001
  | unexpectedToken => 3002
  | unterminatedLiteral => 3003
  | nestingDepthExceeded => 3004
  | sourceTooLarge => 3005
  | separatorDefaultChanging => 4001

/-- The code with a name. -/
def ofName? (name : String) : Option DiagnosticCode := all.find? fun code => code.name == name

end DiagnosticCode

/-- How grave a problem is; a warning blocks nothing. -/
inductive Severity where
  | error
  | warning
deriving DecidableEq, Repr

/-- The word for a severity. -/
def Severity.name : Severity → String
  | .error => "error"
  | .warning => "warning"

/-- A problem that is reported. -/
structure Diagnostic where
  code : DiagnosticCode
  message : String
  location : Option Location := none
  hint : Option String := none
  /-- The name of the annotated type. -/
  declaration : Option String := none
  /-- The name of the case whose default value is at fault. -/
  caseName : Option String := none
  /-- The format specifier at fault. -/
  specifier : Option String := none
  severity : Severity := .error
deriving DecidableEq, Repr

namespace Diagnostic

/-- Whether a diagnostic blocks nothing. -/
def isWarning (d : Diagnostic) : Bool := d.severity == .warning

/-- The known text, or else the other one; an empty text is not known. -/
def knownOr (known other : Option String) : Option String :=
  match known with
  | some text => if text.isEmpty then other else some text
  | none => other

/-- Fills in what is not known yet. -/
def withContext (d : Diagnostic) (location : Option Location)
    (declaration caseName : Option String) : Diagnostic :=
  { d with
    location := d.location.or location
    declaration := knownOr d.declaration declaration
    caseName := knownOr d.caseName caseName }

end Diagnostic

end LocalizedKeys
