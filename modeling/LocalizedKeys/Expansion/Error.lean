import LocalizedKeys.Diagnostic.Template
import LocalizedKeys.Format.Arguments
import LocalizedKeys.Swift.Tree

/-!
# Why a type cannot be expanded

Each cause has a diagnostic. An index that has too many digits is kept apart: it is no fault of
one type that could be reported while the others are expanded.
-/

namespace LocalizedKeys

namespace Expansion

/-- Why an annotated type cannot be expanded. -/
inductive ExpansionError where
  | appliesOnlyToEnumerations (kind : Swift.TypeKind)
  | argumentListMissing
  | invalidSeparator (expression : String)
  | noStringsEnumFound (name : String)
  /-- The default value of a case has specifiers that cannot be used. -/
  | badSpecifiers (caseName : String) (error : Format.SpecifierError)
deriving DecidableEq, Repr

/-- What is reported about a type that cannot be expanded. -/
def ExpansionError.diagnostic : ExpansionError → Diagnostic
  | appliesOnlyToEnumerations kind => .appliesOnlyToEnumerations (some kind.keyword)
  | argumentListMissing => .argumentListMissing
  | invalidSeparator expression => .invalidSeparator expression
  | noStringsEnumFound name => .noStringsEnumFound name
  | badSpecifiers caseName error => error.diagnostic.withContext none none (some caseName)

/-- How making members can end without them. -/
inductive Interruption where
  | rejected (error : ExpansionError)
  /-- The index of a format specifier has too many digits. -/
  | indexTooLong (digits : Nat)
deriving DecidableEq, Repr

end Expansion

end LocalizedKeys
