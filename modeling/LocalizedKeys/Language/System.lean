import LocalizedKeys.Language.Tag

/-!
# The language of the system

What the system says about its locale comes first, then the variables `LC_ALL`, `LC_MESSAGES`
and `LANG`. Values that stand for no language in particular are passed over, and a character
set is cut off.
-/

namespace LocalizedKeys.Language

/-- What the surroundings say about the language. -/
structure Surroundings where
  /-- The locale of the system; `none` if it is not set or cannot be told. -/
  systemLocale : Option String
  /-- The environment variables. -/
  environment : List (String × String)
deriving Repr

/-- A locale without its character set, with underscores for hyphens. -/
def withoutCharset (locale : String) : String :=
  normalize (String.ofList (locale.toList.takeWhile (· != '.')))

/-- The language of the first variable that names one. -/
def languageOfEnvironment? (environment : List (String × String)) : Option String :=
  let values := ["LC_ALL", "LC_MESSAGES", "LANG"].filterMap fun name => environment.lookup name
  (values.find? fun value => !(["", "C", "POSIX", "C.UTF-8"].contains value)).map withoutCharset

/-- The language of the system, if it can be told. -/
def systemLanguage? (s : Surroundings) : Option String :=
  match s.systemLocale.filter fun locale => !(["", "C", "POSIX"].contains locale) with
  | some locale => some (withoutCharset locale)
  | none => languageOfEnvironment? s.environment

/-- The language of the system, or English. -/
def systemLanguage (s : Surroundings) : String := (systemLanguage? s).getD "en"

/-- What is reported when the language of the system cannot be told. -/
def undeterminedMessage : String :=
  "Could not determine system locale. Set LC_ALL, LC_MESSAGES, or LANG environment variable."

end LocalizedKeys.Language
