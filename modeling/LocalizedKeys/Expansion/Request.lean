import LocalizedKeys.Expansion.Error
import LocalizedKeys.Swift.Literal

/-!
# What an annotation asks for

The arguments of the attribute, taken by their labels: of several with one label the last
counts, and other labels mean nothing. Prefix, separator and the name of the key enumeration
are used without their quotes, table and bundle as they are written.
-/

namespace LocalizedKeys.Expansion

open Swift

/-- What an annotation asks for. -/
structure Request where
  /-- Stands in front of every key. -/
  keyPrefix : Option String := none
  /-- Stands between prefix and name. -/
  separator : Option String := none
  /-- The expression for the table. -/
  table : Option String := none
  /-- The expression for the bundle. -/
  bundle : Option String := none
  /-- The name of the enumeration of keys. -/
  stringsEnum : Option String := none
deriving DecidableEq, Repr

/-- The table that is meant when none is named. -/
def defaultTable : String := "nil"

/-- The bundle that is meant when none is named. -/
def defaultBundle : String := ".main"

namespace Request

/-- Whether the separator is missing where one is used. -/
def lacksSeparator (r : Request) : Bool := r.keyPrefix.isSome && r.separator.isNone

/-- The expression for the table. -/
def resolvedTable (r : Request) : String := r.table.getD defaultTable

/-- The expression for the bundle. -/
def resolvedBundle (r : Request) : String := r.bundle.getD defaultBundle

/-- The name of the enumeration of keys. -/
def resolvedStringsEnum (r : Request) : String := r.stringsEnum.getD "Strings"

/-- The expression of the last argument with a label. -/
def lastLabelled? (arguments : List Argument) (label : String) : Option String :=
  ((arguments.filter fun argument => argument.label == some label).getLast?).map
    Argument.expression

/-- What the arguments of an annotation ask for. -/
def ofArguments (arguments : List Argument) : Except ExpansionError Request :=
  let request : Request :=
    { keyPrefix := (lastLabelled? arguments "prefix").map unquote
      separator := (lastLabelled? arguments "separator").map unquote
      table := lastLabelled? arguments "table"
      bundle := lastLabelled? arguments "bundle"
      stringsEnum := (lastLabelled? arguments "stringsEnum").map unquote }
  match lastLabelled? arguments "separator" with
  | some separator =>
    if isSimpleLiteral separator then .ok request else .error (.invalidSeparator separator)
  | none => .ok request

/-- The key for a name, without quotes. -/
def key (r : Request) (defaultSeparator name : String) : String :=
  match r.keyPrefix with
  | some leading => leading ++ r.separator.getD defaultSeparator ++ bareName name
  | none => bareName name

end Request

end LocalizedKeys.Expansion
