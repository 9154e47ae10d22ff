import LocalizedKeys.Source.Location
import LocalizedKeys.Swift.Name

/-!
# The declaration tree

Types with their members, enum cases, and everything else as text. Attributes keep their
arguments as expression text; an attribute without parentheses has no argument list, which is
not the same as an empty one.

All types of a forest, each before the types inside it, can be listed in two ways: `types`
follows the tree, and `walk` works off a stack of declarations that are still to be visited.
-/

namespace LocalizedKeys.Swift

/-- One argument of an attribute. -/
structure Argument where
  label : Option String
  expression : String
  span : Span
deriving DecidableEq, Repr

/-- An attribute such as `@objc` or `@Macro(label: value)`. -/
structure Attribute where
  name : String
  arguments : Option (List Argument)
  span : Span
deriving DecidableEq, Repr

/-- The first argument with a label. -/
def Attribute.argument? (a : Attribute) (label : String) : Option Argument :=
  (a.arguments.getD []).find? fun argument => argument.label == some label

/-- One element of a case declaration. -/
structure CaseElement where
  /-- The name as written, possibly between backticks. -/
  name : String
  /-- The text of the raw value. -/
  rawValue : Option String
  span : Span
deriving DecidableEq, Repr

/-- The keyword that introduces a type. -/
inductive TypeKind where
  | enumType
  | structType
  | classType
  | actorType
  | protocolType
  | extensionType
deriving DecidableEq, Repr

namespace TypeKind

/-- The keyword itself. -/
def keyword : TypeKind → String
  | enumType => "enum"
  | structType => "struct"
  | classType => "class"
  | actorType => "actor"
  | protocolType => "protocol"
  | extensionType => "extension"

/-- The kind that a word introduces. -/
def ofKeyword? (word : String) : Option TypeKind :=
  [enumType, structType, classType, actorType, protocolType, extensionType].find?
    fun kind => kind.keyword == word

end TypeKind

/-- What is known of a type besides its members. -/
structure TypeHeader where
  kind : TypeKind
  name : String
  attributes : List Attribute
  modifiers : List String
  inheritance : List String
  /-- The whole declaration with its attributes. -/
  span : Span
  /-- From the opening to the closing brace. -/
  body : Span
deriving DecidableEq, Repr

/-- A declaration. -/
inductive Declaration where
  | type (header : TypeHeader) (members : List Declaration)
  | cases (elements : List CaseElement) (span : Span)
  | other (text : String) (attributes : List Attribute) (modifiers : List String) (span : Span)
deriving Repr

/-- The range of a declaration. -/
def Declaration.span : Declaration → Span
  | .type header _ => header.span
  | .cases _ span => span
  | .other _ _ _ span => span

/-- A type with its members. -/
structure TypeDecl extends TypeHeader where
  members : List Declaration
deriving Repr

namespace TypeDecl

/-- Whether the type is an enumeration. -/
def isEnum (t : TypeDecl) : Bool := t.kind == .enumType

/-- The first attribute with exactly the given name. -/
def attribute? (t : TypeDecl) (name : String) : Option Attribute :=
  t.attributes.find? fun a => a.name == name

/-- The types directly inside. -/
def nested (t : TypeDecl) : List TypeDecl :=
  t.members.filterMap fun
    | .type header members => some ⟨header, members⟩
    | _ => none

/-- The first enumeration directly inside that has a name. -/
def nestedEnum? (t : TypeDecl) (name : String) : Option TypeDecl :=
  t.nested.find? fun inner => inner.isEnum && inner.name == name

/-- The elements of all case declarations directly inside. -/
def caseElements (t : TypeDecl) : List CaseElement :=
  t.members.flatMap fun
    | .cases elements _ => elements
    | _ => []

end TypeDecl

/-! ## All types of a forest -/

mutual

/-- The type a declaration is and the types inside it. -/
def Declaration.types : Declaration → List TypeDecl
  | .type header members => ⟨header, members⟩ :: types members
  | .cases .. => []
  | .other .. => []

/-- The types of a forest, outer ones first. -/
def types : List Declaration → List TypeDecl
  | [] => []
  | d :: rest => d.types ++ types rest

end

mutual

/-- The number of declarations in a tree. -/
def Declaration.count : Declaration → Nat
  | .type _ members => count members + 1
  | .cases .. => 1
  | .other .. => 1

/-- The number of declarations in a forest. -/
def count : List Declaration → Nat
  | [] => 0
  | d :: rest => d.count + count rest

end

theorem count_append (ds es : List Declaration) : count (ds ++ es) = count ds + count es := by
  induction ds with
  | nil => simp [count]
  | cons d rest ih => simp only [List.cons_append, count, ih]; omega

/-- The types found while the declarations of a stack are visited, its top first; the members of
a type are put on top in its place. -/
def walk : List Declaration → List TypeDecl
  | [] => []
  | .type header members :: rest => ⟨header, members⟩ :: walk (members ++ rest)
  | .cases .. :: rest => walk rest
  | .other .. :: rest => walk rest
termination_by stack => count stack
decreasing_by
  all_goals simp only [count, Declaration.count, count_append]; omega

end LocalizedKeys.Swift
