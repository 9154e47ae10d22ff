import LocalizedKeys.Text.Quoted

/-!
# Text from bytes

UTF-8, read strictly: overlong forms, surrogates and what lies beyond the last character are
refused at the first byte that rules a character out. What was read of the character up to there
is what the error points at.

A line of a text file ends with a line feed, a carriage return, or both in that order. Reading a
file makes all of them line feeds.
-/

namespace LocalizedKeys.Text

/-- What is wrong with bytes that are not text. -/
inductive Utf8Problem where
  | invalidStart
  | invalidContinuation
  | unexpectedEnd
deriving DecidableEq, Repr

/-- The wording of a problem. -/
def Utf8Problem.message : Utf8Problem → String
  | invalidStart => "invalid start byte"
  | invalidContinuation => "invalid continuation byte"
  | unexpectedEnd => "unexpected end of data"

/-- The first bytes that are not text: those from `start` up to `stop`, the first of which is
`lead`. -/
structure Utf8Error where
  problem : Utf8Problem
  lead : UInt8
  start : Nat
  stop : Nat
deriving DecidableEq, Repr

/-- What is reported about bytes that are not text. -/
def Utf8Error.message (e : Utf8Error) : String :=
  let place :=
    if e.stop = e.start + 1 then
      "byte 0x" ++ String.ofList (hexadecimal 2 e.lead.toNat) ++ s!" in position {e.start}"
    else s!"bytes in position {e.start}-{e.stop - 1}"
  "'utf-8' codec can't decode " ++ place ++ ": " ++ e.problem.message

/-- A character of several bytes that has begun at `start` with the byte `lead`: `owed` bytes are
still to come, the next of them between `low` and `high`, and `code` is what the bytes so far
say. -/
structure Begun where
  lead : UInt8
  start : Nat
  owed : Nat
  low : UInt8
  high : UInt8
  code : Nat
deriving DecidableEq, Repr

/-- What is wrong with a character that stops before `stop`. -/
def Begun.error (b : Begun) (problem : Utf8Problem) (stop : Nat) : Utf8Error :=
  ⟨problem, b.lead, b.start, stop⟩

/-- The character that begins with a byte beyond ASCII. -/
def Begun.ofLead? (start : Nat) (lead : UInt8) : Option Begun :=
  let b := lead.toNat
  if b < 0xC2 then none
  else if b < 0xE0 then some ⟨lead, start, 1, 0x80, 0xBF, b - 0xC0⟩
  else if b = 0xE0 then some ⟨lead, start, 2, 0xA0, 0xBF, 0⟩
  else if b = 0xED then some ⟨lead, start, 2, 0x80, 0x9F, 0xD⟩
  else if b < 0xF0 then some ⟨lead, start, 2, 0x80, 0xBF, b - 0xE0⟩
  else if b = 0xF0 then some ⟨lead, start, 3, 0x90, 0xBF, 0⟩
  else if b < 0xF4 then some ⟨lead, start, 3, 0x80, 0xBF, b - 0xF0⟩
  else if b = 0xF4 then some ⟨lead, start, 3, 0x80, 0x8F, 4⟩
  else none

/-- Decodes bytes, the first of which is at `pos`, after the characters `done`, kept in reverse,
and possibly within a character. -/
def decodeFrom (pos : Nat) (begun : Option Begun) (done : List Char) :
    List UInt8 → Except Utf8Error (List Char)
  | [] =>
    match begun with
    | none => .ok done.reverse
    | some b => .error (b.error .unexpectedEnd pos)
  | byte :: rest =>
    match begun with
    | none =>
      if byte < 0x80 then decodeFrom (pos + 1) none (Char.ofNat byte.toNat :: done) rest
      else
        match Begun.ofLead? pos byte with
        | none => .error ⟨.invalidStart, byte, pos, pos + 1⟩
        | some b => decodeFrom (pos + 1) (some b) done rest
    | some b =>
      if byte < b.low ∨ b.high < byte then .error (b.error .invalidContinuation pos)
      else
        -- only the second byte of a character has narrower bounds
        let code := b.code * 64 + (byte.toNat - 0x80)
        if b.owed = 1 then decodeFrom (pos + 1) none (Char.ofNat code :: done) rest
        else
          decodeFrom (pos + 1) (some { b with owed := b.owed - 1, low := 0x80, high := 0xBF, code })
            done rest

/-- Decodes bytes. -/
def decodeUtf8 (bytes : List UInt8) : Except Utf8Error (List Char) := decodeFrom 0 none [] bytes

/-- Makes a line feed of every way to end a line. -/
def unifyLineEnds : List Char → List Char
  | [] => []
  | '\r' :: '\n' :: rest => '\n' :: unifyLineEnds rest
  | c :: rest => (if c = '\r' then '\n' else c) :: unifyLineEnds rest

/-- The text of a file. -/
def readText (bytes : List UInt8) : Except Utf8Error (List Char) :=
  (decodeUtf8 bytes).map unifyLineEnds

/-- The bytes of a text. -/
def encodeUtf8 (text : String) : List UInt8 := text.toUTF8.toList

end LocalizedKeys.Text
