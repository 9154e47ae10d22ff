import LocalizedKeys.Source.Edit
import LocalizedKeys.Swift.Tree
import LocalizedKeys.Text.Lines
import LocalizedKeys.Text.Quoted

/-!
# The place of an expansion

An expansion changes a source in two places. The attribute goes, with the white space before it
and, where nothing else follows on its line, the rest of the line. The new members go in before
the closing brace, with blank lines between them, and indented like the members that are already
there.
-/

namespace LocalizedKeys.Expansion

open Text

/-- The blanks at the start of the line of a place. -/
def lineIndent (source : List Char) (pos : Nat) : List Char :=
  (source.drop (lineStart source pos)).takeWhile isBlank

/-- What stands before a place on its line. -/
def linePrefixText (source : List Char) (pos : Nat) : List Char :=
  (source.take pos).drop (lineStart source pos)

/-- The number of spaces, tabs and line ends at the end of a text. -/
def layoutAtEnd (cs : List Char) : Nat := (cs.reverse.takeWhile isLayout).length

/-- The length of the line break at the front of a text. -/
def lineBreakLength : List Char → Nat
  | '\r' :: '\n' :: _ => 2
  | '\n' :: _ => 1
  | _ => 0

/-- A range that is to be changed lies beyond the end of the text. -/
structure BeyondText where
deriving DecidableEq, Repr

/-- What is reported about a range beyond the end of the text. -/
def BeyondText.message (_ : BeyondText) : String := "string index out of range"

/-- The edit that removes the attribute in a range. -/
def attributeRemoval (source : List Char) (span : Span) : Edit :=
  let start := span.start - layoutAtEnd (source.take span.start)
  let blanks := ((source.drop span.stop).takeWhile isBlank).length
  let lineBreak := lineBreakLength (source.drop (span.stop + blanks))
  let replacement :=
    if start = 0 then []
    else if lineBreak ≠ 0 then ['\n']
    else '\n' :: lineIndent source span.start
  ⟨start, span.stop + blanks + lineBreak, replacement⟩

/-- The edit that removes the attribute in a range, which has to start inside the text. -/
def attributeRemoval? (source : List Char) (span : Span) : Except BeyondText Edit :=
  if source.length < span.start then .error {} else .ok (attributeRemoval source span)

/-- Where new members go: the start of the type, if known, its body, and its members. -/
structure Site where
  start : Option Nat
  /-- From the opening to the closing brace. -/
  body : Span
  members : List Span
deriving DecidableEq, Repr

/-- The site that a type offers. -/
def Site.of (t : Swift.TypeDecl) : Site :=
  ⟨some t.span.start, t.body, t.members.map Swift.Declaration.span⟩

/-- The offset of the closing brace of the body. -/
def Site.closing (site : Site) : Int := (site.body.stop : Int) - 1

/-- What is reported about a type that offers no site. -/
def missingBodyMessage (name : String) : String :=
  "Declaration " ++ Text.quoted name ++ " has no body span"

/-- The indentation for members: that of the first member that begins its line, or else that of
the type with one unit more. -/
def memberIndent (source : List Char) (start : Option Nat) (members : List Span)
    (unit : List Char) : List Char :=
  match members.find? fun span => (linePrefixText source span.start).all isSpace with
  | some span => linePrefixText source span.start
  | none => lineIndent source (start.getD 0) ++ unit

/-- A text with an indentation in front of each line that is not empty. -/
def indentBlock (indent text : List Char) : List Char :=
  join ['\n'] ((lines text).map fun line => if line.isEmpty then line else indent ++ line)

/-- The edit that puts members before the closing brace of a body. -/
def memberInsertion (source : List Char) (site : Site) (members : List (List Char))
    (unit : List Char) : Edit :=
  let close := site.closing
  let inside := (source.take close.toNat).drop (site.body.start + 1)
  let start := close - layoutAtEnd inside
  let indent := memberIndent source site.start site.members unit
  let before := linePrefixText source close.toNat
  let closingIndent :=
    if before.all isSpace then before else lineIndent source (site.start.getD close.toNat)
  let blocks := join ['\n', '\n'] (members.map (indentBlock indent))
  -- no blank line where nothing but white space stands between the braces
  let separator := if start = site.body.start + 1 then ['\n'] else ['\n', '\n']
  ⟨start, close + 1, separator ++ blocks ++ '\n' :: closingIndent ++ ['}']⟩

/-- The edit that puts members before the closing brace of a body, which has to lie inside the text
unless the body is empty. -/
def memberInsertion? (source : List Char) (site : Site) (members : List (List Char))
    (unit : List Char) : Except BeyondText Edit :=
  if site.body.start + 1 < site.closing ∧ source.length < site.closing then .error {}
  else .ok (memberInsertion source site members unit)

end LocalizedKeys.Expansion
