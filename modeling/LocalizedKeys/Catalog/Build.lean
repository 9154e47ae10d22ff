import LocalizedKeys.Catalog.Sorted
import LocalizedKeys.Catalog.Table
import LocalizedKeys.Language.Tag
import LocalizedKeys.Text.Json

/-!
# Building string catalogs

Every member puts its decoded default value under its decoded key into the catalog of its
table. A member whose table names no catalog is skipped, and a later value takes the place of
an earlier one; both are warned about, in the order of the members.
-/

namespace LocalizedKeys.Catalog

open Expansion Swift

/-- What a catalog holds under a key. -/
structure Entry where
  value : String
  /-- The note for translators; empty if there is none. -/
  comment : String
deriving DecidableEq, Repr

/-- Why a member is warned about. -/
inductive Warning where
  | skipped (name table : String)
  | redefined (key catalog value old : String)
deriving DecidableEq, Repr

/-- The wording of a warning. -/
def Warning.message : Warning → String
  | skipped name table =>
    s!"Skipping {name}: table {table} is not a string literal naming a catalog file"
  | redefined key catalog value old =>
    "Key " ++ Text.quoted key ++ " in " ++ catalog ++ " redefined: " ++ Text.quoted value
      ++ " replaces " ++ Text.quoted old

/-- Catalogs by their names. -/
abbrev Catalogs := Sorted (Sorted Entry)

/-- The entry of a member. -/
def entryOf (m : Member) : Entry :=
  ⟨decodeLiteral m.lookup.defaultValue, decodeLiteral m.lookup.comment⟩

/-- The warning about putting an entry under a key, where another value may be already. -/
def redefinition? (catalogs : Catalogs) (catalog key : String) (entry : Entry) : Option Warning :=
  match (catalogs.get? catalog).bind (Sorted.get? key) with
  | some old =>
    if old.value = entry.value then none
    else some (.redefined key catalog entry.value old.value)
  | none => none

/-- Adds a member to catalogs. -/
def addMember (catalogs : Catalogs) (m : Member) : Catalogs × Option Warning :=
  match tableName? m.lookup.table with
  | none => (catalogs, some (.skipped m.name m.lookup.table))
  | some catalog =>
    let key := decodeLiteral m.lookup.key
    let entries := (catalogs.get? catalog).getD []
    (catalogs.put catalog (entries.put key (entryOf m)),
      redefinition? catalogs catalog key (entryOf m))

/-- Adds members to catalogs one after the other, and lists the warnings. -/
def addMembers (catalogs : Catalogs) : List Member → Catalogs × List Warning
  | [] => (catalogs, [])
  | m :: rest =>
    let (catalogs, warning) := addMember catalogs m
    let (catalogs, warnings) := addMembers catalogs rest
    (catalogs, warning.toList ++ warnings)

/-- Catalogs in a language. -/
structure Built where
  /-- The tag of the language. -/
  language : String
  catalogs : Catalogs
  warnings : List Warning
deriving Repr

/-- The catalogs for members, in the given source language, when there is a registry of locales. -/
def build (registry : Option Language.Registry) (sourceLanguage : String) (members : List Member) :
    Except Language.LanguageError Built :=
  match registry with
  | none => .error (.registryMissing "build_string_catalog")
  | some registry =>
    match Language.canonicalTag (some registry) sourceLanguage with
    | .error e => .error e
    | .ok language =>
      let (catalogs, warnings) := addMembers [] members
      .ok ⟨language, catalogs, warnings⟩

/-! ## Documents -/

/-- An entry as it is written. -/
def Entry.json (language : String) (entry : Entry) : Text.Json :=
  let unit := Text.Json.object [("state", .text "translated"), ("value", .text entry.value)]
  let localizations := Text.Json.object [(language, .object [("stringUnit", unit)])]
  let comment := if entry.comment.isEmpty then [] else [("comment", Text.Json.text entry.comment)]
  .object (comment
    ++ [("extractionState", .text "manual"), ("localizations", localizations)])

/-- The document of a catalog; all its fields are in the order of their names. -/
def document (language : String) (entries : Sorted Entry) : String :=
  (Text.Json.object
    [("sourceLanguage", .text language),
      ("strings", .object (entries.map fun (key, entry) => (key, entry.json language))),
      ("version", .text "1.0")]).indented 0

/-- The name of the file that holds a catalog. -/
def fileName (catalog : String) : String := catalog ++ ".xcstrings"

/-- The files for catalogs in a directory, with their contents. -/
def files (directory : Files.Path) (built : Built) : List (Files.Path × String) :=
  built.catalogs.map fun (name, entries) =>
    (directory.child (fileName name).toList, document built.language entries ++ "\n")

end LocalizedKeys.Catalog
