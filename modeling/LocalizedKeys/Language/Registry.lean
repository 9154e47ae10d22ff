/-!
# Registries of locales

Which languages there are, and which names of them mean the same, is not for this library to say: a
registry knows. It is asked for an identifier, whose parts are separated by underscores, and answers
with the identifier of the locale that is meant. All that is relied on is that it always answers, and
that an answer is either an identifier or one of two kinds of errors.
-/

namespace LocalizedKeys.Language

/-- Why a registry has no locale for an identifier, with what it reports. -/
inductive LocaleError where
  /-- There is no locale with the identifier. -/
  | unknown (message : String)
  /-- The text is no identifier. -/
  | malformed (message : String)
deriving DecidableEq, Repr

/-- What is reported about an identifier without a locale. -/
def LocaleError.message : LocaleError → String
  | unknown message => message
  | malformed message => message

/-- A registry of locales. -/
structure Registry where
  /-- The identifier of the locale that is meant by an identifier. -/
  parse : String → Except LocaleError String

/-- Why a language is not accepted. -/
inductive LanguageError where
  /-- The registry has no locale for it. -/
  | refused (e : LocaleError)
  /-- There is no registry, which `feature` needs. -/
  | registryMissing (feature : String)
deriving DecidableEq, Repr

/-- What is reported about a language that is not accepted. -/
def LanguageError.message : LanguageError → String
  | refused e => e.message
  | registryMissing feature =>
    feature ++ " requires Babel for CLDR locale data. "
      ++ "Install with: pip install localizing[babel]"

end LocalizedKeys.Language
