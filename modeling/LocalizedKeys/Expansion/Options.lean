import LocalizedKeys.Text.Blank
import LocalizedKeys.Text.Quoted

/-!
# Options of an expansion

The shape of the generated calls, the separator for keys whose attribute gives none, the unit of
indentation, and whether a missing separator is warned about. The indentation has to be blanks,
and the separator has to fit into a literal.
-/

namespace LocalizedKeys.Expansion

/-- The shape of a generated lookup. -/
inductive Mode where
  /-- A `String` initialiser that leaves out defaults. -/
  | current
  /-- A call of `NSLocalizedString` with all its arguments. -/
  | legacy
deriving DecidableEq, Repr

namespace Mode

/-- All modes. -/
def all : List Mode := [current, legacy]

/-- The name by which a mode is chosen. -/
def name : Mode → String
  | current => "current"
  | legacy => "legacy"

/-- The mode with a name. -/
def ofName? (name : String) : Option Mode := all.find? fun mode => mode.name == name

/-- What is reported about something that names no mode. -/
def invalidMessage (shown : String) : String := shown ++ " is not a valid GenerationMode"

end Mode

/-- The choices made for an expansion. -/
structure Options where
  mode : Mode := .current
  /-- Stands between prefix and name when the attribute names no separator. -/
  defaultSeparator : String := "_"
  /-- One unit of indentation. -/
  indent : String := "    "
  /-- Whether a prefix without a separator is warned about. -/
  warnImplicitSeparator : Bool := true
deriving DecidableEq, Repr

/-- Why options cannot be used. -/
inductive OptionsError where
  | indentNotBlank
  | separatorNotPlain
deriving DecidableEq, Repr

/-- What is reported about options that cannot be used. -/
def OptionsError.message : OptionsError → String
  | indentNotBlank => "indent must be a non-empty run of spaces or tabs"
  | separatorNotPlain =>
    "default_separator must not contain quotes, backslashes or line breaks"

namespace Options

/-- Whether an indentation is one or more blanks. -/
def isIndent (indent : String) : Bool := !indent.isEmpty && indent.toList.all Text.isBlank

/-- Whether a character may stand in a separator. -/
def isPlain (c : Char) : Bool := c != '"' && c != '\\' && !Text.isLineEnd c

/-- What is wrong with options. -/
def error? (options : Options) : Option OptionsError :=
  if !isIndent options.indent then some .indentNotBlank
  else if !options.defaultSeparator.toList.all isPlain then some .separatorNotPlain
  else none

/-- Options that can be used. -/
def checked (options : Options) : Except OptionsError Options :=
  match options.error? with
  | some e => .error e
  | none => .ok options

end Options

end LocalizedKeys.Expansion
