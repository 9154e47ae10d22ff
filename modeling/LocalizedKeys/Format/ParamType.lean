/-!
# Parameter types

The type of the value that a format specifier consumes follows from its length modifier and its
conversion character. Only the pairs in `paramTable` have one.
-/

namespace LocalizedKeys.Format

/-- The type of a parameter. -/
inductive ParamType where
  | character
  | int16
  | uint16
  | int
  | uint
  | double
  | string
deriving DecidableEq, Repr

/-- The name of a type in generated code. -/
def ParamType.name : ParamType → String
  | .character => "CChar"
  | .int16 => "Int16"
  | .uint16 => "UInt16"
  | .int => "Int"
  | .uint => "UInt"
  | .double => "Double"
  | .string => "String"

/-- The length modifiers and conversions that have a type. -/
def paramTable : List ((String × String) × ParamType) :=
  [(("", "c"), .character),
    (("", "i"), .int16), (("", "x"), .int16), (("", "o"), .int16),
    (("h", "i"), .int16), (("h", "x"), .int16), (("h", "o"), .int16),
    (("h", "u"), .uint16),
    (("l", "i"), .int), (("l", "x"), .int), (("l", "o"), .int), (("l", "d"), .int),
    (("ll", "i"), .int), (("ll", "x"), .int), (("ll", "o"), .int), (("ll", "d"), .int),
    (("l", "u"), .uint), (("ll", "u"), .uint),
    (("", "f"), .double), (("", "e"), .double), (("", "g"), .double), (("", "a"), .double),
    (("", "@"), .string)]

/-- The type that a length modifier and a conversion call for. -/
def ParamType.of? (lengthModifier conversion : String) : Option ParamType :=
  paramTable.lookup (lengthModifier, conversion)

end LocalizedKeys.Format
