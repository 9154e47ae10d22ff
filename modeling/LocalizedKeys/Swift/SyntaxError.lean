/-!
# Why a source cannot be read

Each cause records offsets only; lines and columns are worked out where an error is reported.
-/

namespace LocalizedKeys.Swift

/-- What the reader was waiting for. -/
inductive Expectation where
  | mark (c : Char)
  | commaOrClose
  | argumentExpression
  | attributeName
  | caseName
  | rawValue
  | typeName
  | declaration
deriving DecidableEq, Repr

/-- How an expectation is named in a message. -/
def Expectation.text : Expectation → String
  | .mark c => String.ofList ['\'', c, '\'']
  | .commaOrClose => "',' or ')'"
  | .argumentExpression => "argument expression"
  | .attributeName => "attribute name"
  | .caseName => "case name"
  | .rawValue => "raw value"
  | .typeName => "type name"
  | .declaration => "declaration"

/-- What can be opened and never closed. -/
inductive Enclosure where
  | stringLiteral
  | blockComment
deriving DecidableEq, Repr

namespace Enclosure

/-- How an enclosure is named in a message. -/
def text : Enclosure → String
  | stringLiteral => "string literal"
  | blockComment => "block comment"

/-- How many characters of the opening delimiter are pointed at. -/
def markLength : Enclosure → Nat
  | stringLiteral => 1
  | blockComment => 2

end Enclosure

/-- Why a source cannot be read. -/
inductive SyntaxError where
  /-- The source ends at `pos` inside brackets. -/
  | unexpectedEnd (pos : Nat)
  /-- At `pos` stands another character than expected, or none. -/
  | unexpected (found : Option Char) (expected : Expectation) (pos : Nat)
  /-- What opens at `start` is never closed. -/
  | unterminated (kind : Enclosure) (start : Nat)
  /-- The type declaration that spans the given range is nested too deeply. -/
  | nestingTooDeep (limit : Int) (start stop : Nat)
  /-- The source has more characters than allowed. -/
  | sourceTooLarge (size : Nat) (limit : Int)
deriving DecidableEq, Repr

end LocalizedKeys.Swift
