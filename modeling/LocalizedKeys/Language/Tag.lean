import LocalizedKeys.Language.Registry

/-!
# Language tags

Catalogs name their language by a tag: the identifier of its locale with hyphens. A registry
`Accepts` a language that it has a locale for, under the tag of that locale, and `Rejects` all
others.
-/

namespace LocalizedKeys.Language

/-- A language with underscores for hyphens. -/
def normalize (code : String) : String :=
  String.ofList (code.toList.map fun c => if c = '-' then '_' else c)

/-- A locale identifier with hyphens for underscores. -/
def hyphenate (identifier : String) : String :=
  String.ofList (identifier.toList.map fun c => if c = '_' then '-' else c)

/-- The tag for a language, when there is a registry of locales. -/
def canonicalTag (registry : Option Registry) (code : String) : Except LanguageError String :=
  match registry with
  | none => .error (.registryMissing "get_babel_locale")
  | some registry =>
    match registry.parse (normalize code) with
    | .error e => .error (.refused e)
    | .ok identifier => .ok (hyphenate identifier)

/-- The registry has a locale for the language, whose identifier with hyphens is the tag. -/
def Registry.Accepts (registry : Registry) (language tag : String) : Prop :=
  ∃ identifier, registry.parse (normalize language) = .ok identifier ∧ tag = hyphenate identifier

variable {registry : Registry} {language tag : String}

theorem canonicalTag_eq_ok_iff :
    canonicalTag (some registry) language = .ok tag ↔ registry.Accepts language tag := by
  unfold canonicalTag Registry.Accepts
  cases hparse : registry.parse (normalize language) with
  | error e => simp [hparse]
  | ok identifier => simp [hparse, eq_comm]

end LocalizedKeys.Language
