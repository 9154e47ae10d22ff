import LocalizedKeys.Diagnostic.Basic
import LocalizedKeys.Format.Specifier
import LocalizedKeys.Swift.SyntaxError
import LocalizedKeys.Text.Quoted

/-!
# The wording of diagnostics

One function for each kind of problem. Other tools know expansion errors by their messages, so the
wording is fixed.

Two kinds name a number that a caller may choose freely: an index, and the limit on nesting. Such a
number can have too many digits to be written, and then the problem cannot be reported.
-/

namespace LocalizedKeys

/-- The attribute that asks for expansion. -/
def annotationName : String := "LocalizedStrings"

namespace Diagnostic

/-! ## Expansion -/

/-- The annotated type is no enumeration. -/
def appliesOnlyToEnumerations (kind : Option String) : Diagnostic where
  code := .appliesOnlyToEnumerations
  message := "@" ++ annotationName ++ " only applies only to enumerations"
  hint :=
    match kind with
    | some keyword =>
      if keyword.isEmpty then some "Attach the macro to an enum declaration"
      else some s!"Attach the macro to an enum declaration, not a {keyword}"
    | none => some "Attach the macro to an enum declaration"

/-- There is no enumeration of keys inside the annotated one. -/
def noStringsEnumFound (name : String) : Diagnostic where
  code := .noStringsEnumFound
  message := "@" ++ annotationName ++ " requires your enum contain an embedded Strings enum"
  hint := some s!"Add a nested `enum {name}: String` or pass stringsEnum:"

/-- The attribute is written without parentheses. -/
def argumentListMissing : Diagnostic where
  code := .argumentListMissing
  message := "Parser error"
  hint := some s!"Write the macro with parentheses, e.g. @{annotationName}()"

/-- The separator is no simple literal. -/
def invalidSeparator (expression : String) : Diagnostic where
  code := .invalidSeparator
  message := "@LocalizedString requires its parameters to be a simple String value"
  hint := some s!"Replace `{expression}` with a quoted literal such as \".\""

/-! ## Format specifiers -/

/-- Some specifiers have an index and others do not. -/
def missingIndexConsistency (specifier : String) : Diagnostic where
  code := .missingIndexConsistency
  message := "Format specifiers must either all use positional indices (%1$@) or none"
  hint := some "Number every specifier (%1$@, %2$d, ...) or none of them"
  specifier := some specifier

/-- The indices leave a gap or do not begin with one. They are given by their digits. -/
def indexGap (index expected : String) : Diagnostic where
  code := .indexOutOfRange
  message := "Positional format indices must run from 1 to N without gaps"
  hint := some s!"Found index {index} where index {expected} was expected"
  specifier := some s!"%{index}$"

/-- The indices leave a gap or do not begin with one. -/
def indexOutOfRange (index expected : Int) : Except Text.NumberError Diagnostic := do
  return indexGap (← Text.decimalText index) (← Text.decimalText expected)

/-- A specifier has no parameter type. -/
def unknownSpecifier (specifier : String) : Diagnostic where
  code := .unknownSpecifier
  message := s!"Unknown format specifier: {specifier}"
  hint := some "Supported: %@, %c, %i/%x/%o, %hu, %ld/%li/%lx/%lo, %lu, %f/%e/%g/%a"
  specifier := some specifier

/-! ## Syntax -/

/-- The source ends too early. -/
def unexpectedEnd (position : Int) : Diagnostic where
  code := .unexpectedEnd
  message := s!"Unexpected EOF at position {position}"

/-- The source goes on in another way than it has to. -/
def unexpectedToken (found expected : String) (location : Option Location) : Diagnostic where
  code := .unexpectedToken
  message := "Expected " ++ expected ++ " but found " ++ Text.quoted found
  location := location

/-- A literal or comment is never closed. -/
def unterminatedLiteral (kind : String) (location : Option Location) : Diagnostic where
  code := .unterminatedLiteral
  message := s!"Unterminated {kind}"
  location := location

/-- Types are nested too deeply. The limit is given by its digits. -/
def nestedTooDeep (limit : String) (location : Option Location) : Diagnostic where
  code := .nestingDepthExceeded
  message := s!"Maximum declaration nesting depth ({limit}) exceeded"
  location := location

/-- Types are nested too deeply. -/
def nestingDepthExceeded (limit : Int) (location : Option Location) :
    Except Text.NumberError Diagnostic := do
  return nestedTooDeep (← Text.decimalText limit) location

/-- The source is too large. -/
def sourceTooLarge (size limit : Int) : Diagnostic where
  code := .sourceTooLarge
  message := s!"Source size ({size} characters) exceeds limit ({limit})"

/-! ## Advice -/

/-- A prefix is given without a separator. -/
def separatorDefaultChanging : Diagnostic where
  code := .separatorDefaultChanging
  message :=
    "The default separator is changing from '_' to '.' as of version 1.0.0.\n"
      ++ "If you wish to keep using the underscore as a separator, it is suggested\n"
      ++ s!"that you add an explicit separator argument to the @{annotationName} macro."
  hint := some "Add separator: \"_\" (or \".\") to the macro arguments"
  severity := .warning

end Diagnostic

/-- The text that stands for a character, or for the end of the source, in a message. -/
def foundText (found : Option Char) : String :=
  match found with
  | some c => String.singleton c
  | none => "EOF"

/-- What there is to report about a source that cannot be read, be its numbers as long as they
may. -/
def Swift.SyntaxError.diagnostic (source : List Char) : Swift.SyntaxError → Diagnostic
  | .unexpectedEnd pos => .unexpectedEnd pos
  | .unexpected found expected pos =>
    .unexpectedToken (foundText found) expected.text (some (.of source pos (pos + 1)))
  | .unterminated kind start =>
    .unterminatedLiteral kind.text (some (.of source start (start + kind.markLength)))
  | .nestingTooDeep limit start stop =>
    .nestedTooDeep (toString limit) (some (.of source start stop))
  | .sourceTooLarge size limit => .sourceTooLarge size limit

/-- What is reported about a source that cannot be read, if it can be. -/
def Swift.SyntaxError.report (source : List Char) (e : Swift.SyntaxError) :
    Except Text.NumberError Diagnostic :=
  match e with
  | .nestingTooDeep limit start stop =>
    Diagnostic.nestingDepthExceeded limit (some (.of source start stop))
  | e => .ok (e.diagnostic source)

/-- What there is to report about format specifiers that cannot be used, be their indices as long as
they may. -/
def Format.SpecifierError.diagnostic : Format.SpecifierError → Diagnostic
  | .mixedIndexing specifier => .missingIndexConsistency specifier
  | .indexOutOfRange found expected => .indexGap (toString found) (toString expected)
  | .unknown specifier => .unknownSpecifier specifier

/-- What is reported about format specifiers that cannot be used, if it can be. -/
def Format.SpecifierError.report : Format.SpecifierError → Except Text.NumberError Diagnostic
  | .indexOutOfRange found expected => Diagnostic.indexOutOfRange found expected
  | e => .ok e.diagnostic

/-! ## What can be reported -/

section

variable {source : List Char} {limit found expected : Int} {start stop : Nat}

open Text

/-- An error is reported if the limit can be written. -/
theorem Swift.SyntaxError.report_nestingTooDeep :
    (Swift.SyntaxError.nestingTooDeep limit start stop).report source =
      if IsWritable limit then
        .ok ((Swift.SyntaxError.nestingTooDeep limit start stop).diagnostic source)
      else .error .tooLong := by
  rw [report, Diagnostic.nestingDepthExceeded]
  by_cases h : IsWritable limit
  · rw [if_pos h, decimalText_of_isWritable h]
    rfl
  · rw [if_neg h, decimalText_of_not_isWritable h]
    rfl

/-- An error is reported if the index that was found can be written. -/
theorem Format.SpecifierError.report_indexOutOfRange (h : IsWritable found → IsWritable expected) :
    (Format.SpecifierError.indexOutOfRange found expected).report =
      if IsWritable found then
        .ok (Format.SpecifierError.indexOutOfRange found expected).diagnostic
      else .error .tooLong := by
  rw [report, Diagnostic.indexOutOfRange]
  by_cases hfound : IsWritable found
  · rw [if_pos hfound, decimalText_of_isWritable hfound, decimalText_of_isWritable (h hfound)]
    rfl
  · rw [if_neg hfound, decimalText_of_not_isWritable hfound]
    rfl

end

end LocalizedKeys
