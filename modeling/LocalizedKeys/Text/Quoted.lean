import LocalizedKeys.Text.Printable

/-!
# Quoted display

How a text is shown inside a message: between single quotes, or between double quotes when it
holds a single quote and no double one. A backslash and the quote in use are escaped, line
breaks and tabs have letters of their own, and every other unprintable character is written by
its code point in two, four or eight hexadecimal digits.
-/

namespace LocalizedKeys.Text

/-- A number in lower-case hexadecimal digits, with zeros in front up to a width. -/
def hexadecimal (width n : Nat) : List Char :=
  let digits := Nat.toDigits 16 n
  List.replicate (width - digits.length) '0' ++ digits

/-- How one character is shown between the given quotes. -/
def displayChar (quote c : Char) : List Char :=
  if c = '\\' ∨ c = quote then ['\\', c]
  else if c = '\n' then ['\\', 'n']
  else if c = '\r' then ['\\', 'r']
  else if c = '\t' then ['\\', 't']
  else if isPrintable c then [c]
  else if c.toNat < 0x100 then '\\' :: 'x' :: hexadecimal 2 c.toNat
  else if c.toNat < 0x10000 then '\\' :: 'u' :: hexadecimal 4 c.toNat
  else '\\' :: 'U' :: hexadecimal 8 c.toNat

/-- The quotes that a text is shown in. -/
def displayQuote (cs : List Char) : Char :=
  if cs.contains '\'' && !cs.contains '"' then '"' else '\''

/-- A text as it is shown inside a message. -/
def quoted (text : String) : String :=
  let quote := displayQuote text.toList
  String.ofList (quote :: text.toList.flatMap (displayChar quote) ++ [quote])

end LocalizedKeys.Text
