import LocalizedKeys.Swift.Tree

/-!
# Outlines

The outline of a declaration is all that is known of it besides the places it was read from. Two
sources have the same meaning to the expansion when they have the same outlines, so statements
that compare a source with another text — one that was printed, or one that was changed — speak
of outlines rather than of declarations.
-/

namespace LocalizedKeys.Swift

/-- An argument without its place. -/
structure ArgumentOutline where
  label : Option String
  expression : String
deriving DecidableEq, Repr

/-- An attribute without its place. -/
structure AttributeOutline where
  name : String
  arguments : Option (List ArgumentOutline)
deriving DecidableEq, Repr

/-- A case element without its place. -/
structure ElementOutline where
  name : String
  rawValue : Option String
deriving DecidableEq, Repr

/-- A declaration without places. -/
inductive Outline where
  | type (kind : TypeKind) (name : String) (attributes : List AttributeOutline)
      (modifiers inheritance : List String) (members : List Outline)
  | cases (elements : List ElementOutline)
  | other (text : String) (attributes : List AttributeOutline) (modifiers : List String)
deriving Repr

def Argument.outline (a : Argument) : ArgumentOutline := ⟨a.label, a.expression⟩

def Attribute.outline (a : Attribute) : AttributeOutline :=
  ⟨a.name, a.arguments.map (·.map Argument.outline)⟩

def CaseElement.outline (e : CaseElement) : ElementOutline := ⟨e.name, e.rawValue⟩

mutual

/-- The outline of a declaration. -/
def Declaration.outline : Declaration → Outline
  | .type header members =>
    .type header.kind header.name (header.attributes.map Attribute.outline) header.modifiers
      header.inheritance (outlines members)
  | .cases elements _ => .cases (elements.map CaseElement.outline)
  | .other text attributes modifiers _ =>
    .other text (attributes.map Attribute.outline) modifiers

/-- The outlines of a forest. -/
def outlines : List Declaration → List Outline
  | [] => []
  | d :: rest => d.outline :: outlines rest

end

mutual

/-- How many types are nested in one another in a declaration, itself included. -/
def Outline.depth : Outline → Nat
  | .type _ _ _ _ _ members => depths members + 1
  | .cases _ => 0
  | .other .. => 0

/-- How many types are nested in one another in a forest. -/
def depths : List Outline → Nat
  | [] => 0
  | o :: rest => max o.depth (depths rest)

end

end LocalizedKeys.Swift
