import LocalizedKeys.Swift.Literal
import LocalizedKeys.Text.Lines
import LocalizedKeys.Proofs.Names
import LocalizedKeys.Proofs.Reads

/-!
# Printing

The layout in which sources of key enumerations are written: one declaration a line, with the
attributes on lines of their own before it and four blanks of indentation for each type around
it. `Outline.Printable` says which outlines have such a text from which they can be read back.
-/

namespace LocalizedKeys.Swift

open Text

/-! ## The texts -/

/-- What stands between elements of one line. -/
def commaSpace : List Char := [',', ' ']

/-- The indentation inside `depth` types. -/
def indentation (depth : Nat) : List Char := List.replicate (4 * depth) ' '

def printArgument : ArgumentOutline → List Char
  | ⟨some label, expression⟩ => label.toList ++ ':' :: ' ' :: expression.toList
  | ⟨none, expression⟩ => expression.toList

def printAttribute (a : AttributeOutline) : List Char :=
  '@' :: (a.name.toList ++
    match a.arguments with
    | none => []
    | some arguments => '(' :: (join commaSpace (arguments.map printArgument) ++ [')']))

def printElement (e : ElementOutline) : List Char :=
  e.name.toList ++
    match e.rawValue with
    | none => []
    | some rawValue => ' ' :: '=' :: ' ' :: rawValue.toList

/-- Attributes, each on a line. -/
def printAttributes (depth : Nat) (as : List AttributeOutline) : List Char :=
  as.flatMap fun a => indentation depth ++ printAttribute a ++ ['\n']

/-- Modifiers in front of a keyword. -/
def printModifiers (ms : List String) : List Char := ms.flatMap fun m => m.toList ++ [' ']

/-- An inheritance clause, if there is anything to inherit. -/
def printInheritance (inheritance : List String) : List Char :=
  if inheritance.isEmpty then []
  else ':' :: ' ' :: join commaSpace (inheritance.map String.toList)

mutual

/-- The lines of a declaration inside `depth` types. -/
def Outline.print (depth : Nat) : Outline → List Char
  | .type kind name attributes modifiers inheritance members =>
    printAttributes depth attributes ++ indentation depth ++ printModifiers modifiers
      ++ kind.keyword.toList ++ ' ' :: (name.toList ++ printInheritance inheritance
      ++ ' ' :: '\x7b' :: '\n' :: (printAll (depth + 1) members ++ indentation depth
      ++ ['\x7d', '\n']))
  | .cases elements =>
    indentation depth ++ "case ".toList ++ join commaSpace (elements.map printElement) ++ ['\n']
  | .other text _ _ => indentation depth ++ text.toList ++ ['\n']

/-- The lines of a forest inside `depth` types. -/
def printAll (depth : Nat) : List Outline → List Char
  | [] => []
  | o :: rest => o.print depth ++ printAll depth rest

end

/-! ## What can be printed -/

/-- An expression that is a simple literal or a name. -/
def PrintableExpression (expression : String) : Prop :=
  isSimpleLiteral expression = true ∨ IsName expression.toList

structure ArgumentOutline.Printable (a : ArgumentOutline) : Prop where
  label : ∀ label ∈ a.label, IsName label.toList
  expression : PrintableExpression a.expression

structure AttributeOutline.Printable (a : AttributeOutline) : Prop where
  name : DottedName a.name.toList
  arguments : ∀ arguments ∈ a.arguments, ∀ argument ∈ arguments, argument.Printable

structure ElementOutline.Printable (e : ElementOutline) : Prop where
  name : IsName e.name.toList
  rawValue : ∀ rawValue ∈ e.rawValue, isSimpleLiteral rawValue = true

/-- What stands before the body of a type can be printed. After `class` some names would make the
keyword a modifier. -/
structure PrintableOpening (kind : TypeKind) (name : String)
    (attributes : List AttributeOutline) (modifiers inheritance : List String) : Prop where
  isName : IsName name.toList
  notMemberWord : kind = .classType → name ∉ classMemberWords
  attributesPrintable : ∀ a ∈ attributes, a.Printable
  areModifiers : ∀ m ∈ modifiers, m ∈ modifierWords
  arePlainNames : ∀ i ∈ inheritance, PlainName i.toList

mutual

/-- Types and case declarations whose parts can be printed. -/
def Outline.Printable : Outline → Prop
  | .type kind name attributes modifiers inheritance members =>
    PrintableOpening kind name attributes modifiers inheritance ∧ AllPrintable members
  | .cases elements => elements ≠ [] ∧ ∀ e ∈ elements, e.Printable
  | .other .. => False

/-- A forest of such declarations. -/
def AllPrintable : List Outline → Prop
  | [] => True
  | o :: rest => o.Printable ∧ AllPrintable rest

end

end LocalizedKeys.Swift
