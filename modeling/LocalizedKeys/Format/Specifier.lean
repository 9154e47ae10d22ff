import LocalizedKeys.Format.ParamType
import LocalizedKeys.Text.Numeral

/-!
# Format specifiers

A specifier is a percent sign, possibly an argument index and a dollar sign, flags, a width, a
point with a precision, a length modifier, and a conversion character. Two percent signs are an
escaped percent sign. `instance?` recognises one at the front of a text, and `instances` finds
them from left to right, each beginning where the one before has ended or later.

`scanSpecifiers` numbers them: by the index that is written, or else by their order. Either all
indices are written or none, and a width or precision that is an argument itself is refused.
-/

namespace LocalizedKeys.Format

open Text

/-! ## Errors -/

/-- Why the specifiers of a text cannot be used. -/
inductive SpecifierError where
  /-- The specifier differs from the first one in having an index or not. -/
  | mixedIndexing (specifier : String)
  /-- An index is not the one that comes next. -/
  | indexOutOfRange (found expected : Int)
  /-- The specifier has no parameter type. -/
  | unknown (specifier : String)
deriving DecidableEq, Repr

/-- How reading the specifiers of a text can end without an answer. -/
inductive FormatFailure where
  | rejected (error : SpecifierError)
  /-- An index has more digits than are converted to a number. -/
  | indexTooLong (digits : Nat)
deriving DecidableEq, Repr

/-- The most digits that an index may have. -/
def maxIndexDigits : Nat := maxDigits

/-- What is reported about an index with too many digits. -/
def indexTooLongMessage (digits : Nat) : String :=
  s!"Exceeds the limit ({maxIndexDigits} digits) for integer string conversion: value has "
    ++ s!"{digits} digits; use sys.set_int_max_str_digits() to increase the limit"

/-! ## Recognising one -/

/-- The parts of a specifier. -/
structure Parts where
  /-- The digits of the argument index. -/
  index : Option (List Char)
  /-- Whether the width or the precision is an argument itself. -/
  starred : Bool
  lengthModifier : String
  conversion : Char
deriving DecidableEq, Repr

/-- What begins with a percent sign. -/
inductive Instance where
  | escaped
  | specifier (parts : Parts)
deriving DecidableEq, Repr

/-- May stand between the index and the width. -/
def isFlag (c : Char) : Bool := c == '-' || c == '+' || c == '#' || c == '0' || c == '\''

/-- The conversion characters. -/
def conversions : List Char := "diuoxXfFeEgGaAcspn@".toList

/-- A character that is a length modifier by itself, or twice in a row for the first two. -/
def isLengthModifier (c : Char) : Bool :=
  c == 'h' || c == 'l' || c == 'q' || c == 'L' || c == 'z' || c == 't' || c == 'j'

/-- The decimal digits at the front, and what follows them. -/
def spanDigits (cs : List Char) : List Char × List Char := cs.span isDecimal

/-- The digits of an index before a dollar sign, and what follows it; all of the text if there is
no index. -/
def takeIndex (cs : List Char) : Option (List Char) × List Char :=
  match spanDigits cs with
  | (digits, '$' :: rest) => if digits.isEmpty then (none, cs) else (some digits, rest)
  | _ => (none, cs)

/-- What follows the number or star at the front, and whether it was a star; `none` if neither
is there. -/
def takeAmount? (cs : List Char) : Option (Bool × List Char) :=
  match cs with
  | '*' :: rest => some (true, rest)
  | _ =>
    match spanDigits cs with
    | ([], _) => none
    | (_, rest) => some (false, rest)

/-- What follows a point and a precision at the front, and whether that was a star; nothing is
taken if there is no point or no precision after it. -/
def takePrecision (cs : List Char) : Bool × List Char :=
  match cs with
  | '.' :: rest => (takeAmount? rest).getD (false, cs)
  | _ => (false, cs)

/-- The length modifier at the front, and what follows it. -/
def takeLengthModifier (cs : List Char) : String × List Char :=
  match cs with
  | 'h' :: 'h' :: rest => ("hh", rest)
  | 'l' :: 'l' :: rest => ("ll", rest)
  | c :: rest => if isLengthModifier c then (String.singleton c, rest) else ("", cs)
  | [] => ("", [])

/-- The parts of the specifier whose percent sign comes before the given characters, and what
follows it. -/
def takeParts? (cs : List Char) : Option (Parts × List Char) :=
  let (index, afterIndex) := takeIndex cs
  let afterFlags := afterIndex.dropWhile isFlag
  let (widthStarred, afterWidth) := (takeAmount? afterFlags).getD (false, afterFlags)
  let (precisionStarred, afterPrecision) := takePrecision afterWidth
  let (lengthModifier, afterLength) := takeLengthModifier afterPrecision
  match afterLength with
  | conversion :: rest =>
    if conversions.contains conversion then
      some (⟨index, widthStarred || precisionStarred, lengthModifier, conversion⟩, rest)
    else none
  | [] => none

/-- What begins with the percent sign at the front of a text, and its length. -/
def instance? (cs : List Char) : Option (Instance × Nat) :=
  match cs with
  | '%' :: '%' :: _ => some (.escaped, 2)
  | '%' :: rest =>
    (takeParts? rest).map fun (parts, after) => (.specifier parts, cs.length - after.length)
  | _ => none

/-! ## Finding all -/

/-- An instance with the place and the text where it was found. -/
structure Found where
  position : Nat
  text : String
  what : Instance
deriving DecidableEq, Repr

/-- The instances from left to right in a text that begins at offset `pos`, after the next
`skip` characters. -/
def instancesFrom (pos skip : Nat) : List Char → List Found
  | [] => []
  | c :: rest =>
    match skip with
    | skip + 1 => instancesFrom (pos + 1) skip rest
    | 0 =>
      match instance? (c :: rest) with
      | none => instancesFrom (pos + 1) 0 rest
      | some (what, length) =>
        ⟨pos, String.ofList ((c :: rest).take length), what⟩
          :: instancesFrom (pos + 1) (length - 1) rest

/-- The instances of a text from left to right. -/
def instances (text : String) : List Found := instancesFrom 0 0 text.toList

/-- Whether a text has a specifier, escaped percent signs aside. -/
def hasSpecifiers (text : String) : Bool :=
  (instances text).any fun found => found.what != .escaped

/-! ## Numbering -/

/-- A specifier of a text. -/
structure Specifier where
  /-- The specifier as written. -/
  text : String
  /-- The number of the argument it consumes, counted from one. -/
  index : Int
  /-- Whether the index is written. -/
  explicit : Bool
  lengthModifier : String
  conversion : Char
  /-- The offset of the percent sign. -/
  position : Nat
deriving DecidableEq, Repr

/-- The length modifier with the conversion. -/
def Specifier.typeKey (s : Specifier) : String := s.lengthModifier ++ String.singleton s.conversion

/-- Numbers the instances that follow `count` specifiers; `explicit?` tells whether the first
one had an index. -/
def numberFrom (explicit? : Option Bool) (count : Nat) :
    List Found → Except FormatFailure (List Specifier)
  | [] => .ok []
  | found :: rest =>
    match found.what with
    | .escaped => numberFrom explicit? count rest
    | .specifier parts =>
      if parts.starred then .error (.rejected (.unknown found.text))
      else if explicit?.getD parts.index.isSome != parts.index.isSome then
        .error (.rejected (.mixedIndexing found.text))
      else
        let digits := parts.index.getD []
        if maxIndexDigits < digits.length then .error (.indexTooLong digits.length)
        else
          let index := if parts.index.isSome then decimalNumber digits else count + 1
          match numberFrom (some parts.index.isSome) (count + 1) rest with
          | .error e => .error e
          | .ok others =>
            .ok (⟨found.text, index, parts.index.isSome, parts.lengthModifier, parts.conversion,
              found.position⟩ :: others)

/-- The specifiers of a text in their order. -/
def scanSpecifiers (text : String) : Except FormatFailure (List Specifier) :=
  numberFrom none 0 (instances text)

end LocalizedKeys.Format
