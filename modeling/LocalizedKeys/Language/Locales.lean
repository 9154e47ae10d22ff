import LocalizedKeys.Language.Identifier
import LocalizedKeys.Language.Registry

/-!
# Common locales

A registry of some common locales, with the names of languages and territories that stand for others
and the parts that are likely where they are not given. The program runs with it where no other
registry is at hand. It is one registry of many: no statement about languages relies on what is in
it.
-/

namespace LocalizedKeys.Language

/-- The identifiers of the known locales. -/
def knownLocales : List String :=
  ["ar", "ar_EG", "az_Cyrl_AZ", "ca_ES_VALENCIA", "de", "de_AT", "de_DE", "en", "en_001", "en_GB",
    "en_US", "en_US_POSIX", "es_419", "fil_PH", "fr", "fr_CA", "fr_FR", "he", "he_IL", "hi_Latn",
    "id", "id_ID", "it", "it_IT", "ja", "ja_JP", "ko", "nb_NO", "nn", "no", "pt_BR", "ro_RO",
    "root", "ru_RU", "sr_Cyrl", "sr_Cyrl_RS", "sr_Latn", "sr_Latn_RS", "sv", "uz", "yi", "yi_UA",
    "yue_Hans_CN", "zh", "zh_Hans", "zh_Hans_CN", "zh_Hant", "zh_Hant_HK", "zh_Hant_TW"]

/-- Names of languages that stand for others. -/
def languageAliases : List (String × String) :=
  [("iw", "he"), ("mo", "ro"), ("ji", "yi"), ("sh", "sr_Latn"), ("tl", "fil"), ("in", "id")]

/-- Names of territories that stand for others. -/
def territoryAliases : List (String × String) := [("UK", "GB"), ("BU", "MM")]

/-- The full identifiers that are meant by shorter ones. -/
def likelyIdentifiers : List (String × LocaleId) :=
  [("en", ⟨"en", some "Latn", some "US", none, none⟩),
    ("de", ⟨"de", some "Latn", some "DE", none, none⟩),
    ("und", ⟨"en", some "Latn", some "US", none, none⟩),
    ("und_AT", ⟨"de", some "Latn", some "AT", none, none⟩),
    ("zh", ⟨"zh", some "Hans", some "CN", none, none⟩),
    ("zh_TW", ⟨"zh", some "Hant", some "TW", none, none⟩),
    ("zh_HK", ⟨"zh", some "Hant", some "HK", none, none⟩),
    ("sr", ⟨"sr", some "Cyrl", some "RS", none, none⟩),
    ("he", ⟨"he", some "Hebr", some "IL", none, none⟩),
    ("ro", ⟨"ro", some "Latn", some "RO", none, none⟩),
    ("yi", ⟨"yi", some "Hebr", some "UA", none, none⟩),
    ("yue_CN", ⟨"yue", some "Hans", some "CN", none, none⟩),
    ("fil", ⟨"fil", some "Latn", some "PH", none, none⟩),
    ("id", ⟨"id", some "Latn", some "ID", none, none⟩)]

/-- Whether an identifier, with or without its modifier, is that of a known locale. -/
def LocaleId.isKnown (id : LocaleId) : Bool :=
  knownLocales.contains id.text || knownLocales.contains id.withoutModifier.text

namespace LocaleId

/-- The language and territory alone. -/
def reduced (id : LocaleId) : LocaleId := ⟨id.language, none, id.territory, none, none⟩

/-- The identifier, or else the reduced one, if it is known. -/
def knownOrReduced? (id : LocaleId) : Option LocaleId :=
  if id.isKnown then some id else if id.reduced.isKnown then some id.reduced else none

/-- The identifier with the names that are meant, and without parts that say nothing. -/
def resolveAliases (id : LocaleId) : LocaleId :=
  { id with
    language := (languageAliases.lookup id.language).getD id.language
    territory :=
      (id.territory.map fun t => (territoryAliases.lookup t).getD t).filter (· != "ZZ")
    script := id.script.filter (· != "Zzzz") }

/-- The known locale that is meant by an identifier which is not known itself: the likely one for
all of it, or else the likely one for its language with its own territory. -/
def likely? (id : LocaleId) : Option LocaleId :=
  match (likelyIdentifiers.lookup id.text).bind knownOrReduced? with
  | some locale => some locale
  | none =>
    (likelyIdentifiers.lookup id.language).bind fun likely =>
      knownOrReduced? { likely with territory := id.territory }

/-- The known locale that an identifier means. -/
def resolve? (id : LocaleId) : Option LocaleId :=
  if id.isKnown then some id else id.resolveAliases.likely?

end LocaleId

/-- The registry of the common locales. -/
def commonLocales : Registry where
  parse text :=
    if text.isEmpty then .error (.malformed IdentifierError.empty.message)
    else
      match LocaleId.ofText text with
      | .error e => .error (.malformed e.message)
      | .ok id =>
        match id.resolve? with
        | some locale => .ok locale.text
        | none => .error (.unknown ("unknown locale " ++ Text.quoted id.text))

end LocalizedKeys.Language
