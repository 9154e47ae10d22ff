import LocalizedKeys.Text.Blank
import LocalizedKeys.Text.Lines

/-!
# The values of string literals

A simple literal stands on one line between quotes, without hash marks and without
interpolation. Every literal has a value, which is its text with the delimiters taken off:

* between single quotes, escapes are replaced by what they stand for;
* between triple quotes, so are they, after the line breaks next to the delimiters and the
  indentation of the closing one have been dropped from the lines;
* between hash marks nothing is replaced.

An interpolation stays as it is written, and so does an escape that is not known. A text that
is no literal is its own value.
-/

namespace LocalizedKeys.Swift

open Text

/-! ## Simple literals -/

/-- Whether the characters after an opening quote end a simple literal: escapes other than an
interpolation or a line continuation, plain characters, and a quote at the very end. -/
def closesSimply : List Char → Bool
  | '\\' :: c :: rest => c != '(' && !isLineEnd c && closesSimply rest
  | ['"'] => true
  | c :: rest => c != '"' && c != '\\' && !isLineEnd c && closesSimply rest
  | [] => false

/-- Whether a text is a simple literal. -/
def isSimpleLiteral (text : String) : Bool :=
  match text.toList with
  | '"' :: rest => closesSimply rest
  | _ => false

/-! ## Quotes -/

/-- A text between quotes. -/
def quote (text : String) : String := "\"" ++ text ++ "\""

/-- A text without the quotes around it; a line feed after the closing one goes with it. -/
def unquote (text : String) : String :=
  match text.toList with
  | '"' :: rest =>
    let inner := if rest.getLast? = some '\n' then rest.dropLast else rest
    if rest.getLast? = some '"' then String.ofList rest.dropLast
    else if inner.getLast? = some '"' then String.ofList inner.dropLast
    else text
  | _ => text

/-! ## Escapes -/

/-- What a backslash and one more character stand for. -/
def escapeValue? (c : Char) : Option Char :=
  if c = '0' then some '\x00'
  else if c = '\\' then some '\\'
  else if c = 't' then some '\t'
  else if c = 'n' then some '\n'
  else if c = 'r' then some '\r'
  else if c = '"' then some '"'
  else if c = '\'' then some '\''
  else none

/-- The value of a hexadecimal digit. -/
def hexValue? (c : Char) : Option Nat :=
  if c.isDigit then some (c.toNat - 48)
  else if 'a' ≤ c ∧ c ≤ 'f' then some (c.toNat - 87)
  else if 'A' ≤ c ∧ c ≤ 'F' then some (c.toNat - 55)
  else none

/-- The number that hexadecimal digits write. -/
def hexNumber (digits : List Char) : Nat :=
  digits.foldl (fun n c => 16 * n + (hexValue? c).getD 0) 0

/-- The scalar named by one to eight hexadecimal digits between braces after a `u`, and the
length of this. -/
def unicodeEscape? : List Char → Option (Nat × Nat)
  | 'u' :: '{' :: rest =>
    let digits := rest.takeWhile fun c => (hexValue? c).isSome
    if 1 ≤ digits.length ∧ digits.length ≤ 8 ∧ (rest.drop digits.length).head? = some '}' then
      some (hexNumber digits, digits.length + 3)
    else none
  | _ => none

/-- Whether a number is a Unicode scalar. -/
def isScalar (n : Nat) : Bool := n < 0xD800 || (0xDFFF < n && n ≤ 0x10FFFF)

/-- Replaces escapes by what they stand for, and drops line continuations. -/
def unescape : List Char → List Char
  | [] => []
  | c :: rest =>
    if c = '\\' then
      match rest with
      | [] => ['\\']
      | next :: tail =>
        if next = '\n' then unescape tail
        else
          match escapeValue? next with
          | some value => value :: unescape tail
          | none =>
            match unicodeEscape? (next :: tail) with
            | some (scalar, length) =>
              let value := if isScalar scalar then [Char.ofNat scalar]
                else '\\' :: (next :: tail).take length
              value ++ unescape ((next :: tail).drop length)
            | none => '\\' :: unescape (next :: tail)
    else c :: unescape rest
termination_by cs => cs.length
decreasing_by
  all_goals
    simp only [List.length_cons, List.length_drop]
    omega

/-! ## Values -/

/-- Drops a word from the front, if it stands there. -/
def dropFront (word cs : List Char) : List Char :=
  if word.isPrefixOf cs then cs.drop word.length else cs

/-- Drops a word from the end, if it stands there. -/
def dropBack (word cs : List Char) : List Char :=
  if word.isSuffixOf cs then cs.take (cs.length - word.length) else cs

/-- What stands between delimiters of `n` quotes, if the text has them on both sides. -/
def betweenQuotes? (n : Nat) (cs : List Char) : Option (List Char) :=
  let quotes := List.replicate n '"'
  if quotes.isPrefixOf cs && quotes.isSuffixOf cs && 2 * n ≤ cs.length then
    some ((cs.drop n).take (cs.length - 2 * n))
  else none

/-- The lines of a multi-line literal, from what stands between its delimiters: without the
first line break, and without the last line when it is blank, which then is the indentation
that goes from the front of the others. -/
def multilineBody (between : List Char) : List Char :=
  let body := dropFront ['\r', '\n'] (dropFront ['\n'] between)
  let last := (body.reverse.takeWhile (· != '\n')).reverse
  if last.length < body.length && last.all isSpace then
    let above := body.take (body.length - last.length - 1)
    join ['\n'] ((lines above).map (dropFront last))
  else body

/-- The value of a literal between `hashes` hash marks, if it is one. -/
def rawValue? (hashes : Nat) (cs : List Char) : Option (List Char) :=
  if (List.replicate hashes '#').isSuffixOf cs then
    let inner := (cs.drop hashes).take (cs.length - 2 * hashes)
    match betweenQuotes? 3 inner with
    | some body => some (dropBack ['\n'] (dropWhileEnd isBlank (dropFront ['\n'] body)))
    | none => betweenQuotes? 1 inner
  else none

/-- The value of a literal, on characters. -/
def literalValue (cs : List Char) : List Char :=
  let hashes := (cs.takeWhile (· == '#')).length
  if hashes = 0 then
    match betweenQuotes? 3 cs with
    | some between => unescape (multilineBody between)
    | none =>
      match betweenQuotes? 1 cs with
      | some body => unescape body
      | none => cs
  else (rawValue? hashes cs).getD cs

/-- The value of a literal. -/
def decodeLiteral (text : String) : String := String.ofList (literalValue text.toList)

end LocalizedKeys.Swift
