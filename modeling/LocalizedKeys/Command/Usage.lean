import LocalizedKeys.Text.DecimalDigit
import LocalizedKeys.Text.Quoted

/-!
# Reading options

A command line is a list of words. A word is an option, an argument, or the double hyphen after
which all words are arguments. Long options may be shortened as long as only one option begins
that way; a value may be attached with an equals sign, or to a short option directly; short
options without values may be joined.

`classifyAll` tells what each word is, and `readWords` then collects the options with their
values, the first argument, and the words that mean nothing.
-/

namespace LocalizedKeys.Command

open Text

/-- An option. -/
structure OptionSpec where
  /-- All ways to write it, in the order in which they are listed. -/
  names : List String
  takesValue : Bool
  /-- The values it may have; any value if there are none. -/
  choices : List String := []
  /-- Whether the words after it are not even read. -/
  endsReading : Bool := false
deriving DecidableEq, Repr

/-- Why a command line is not understood. -/
inductive UsageProblem where
  | ambiguous (word : String) (candidates : List String)
  | valueMissing (argument : String)
  | valueIgnored (argument value : String)
  | invalidChoice (argument value : String) (choices : List String)
  | required (arguments : List String)
  | unrecognized (words : List String)
deriving DecidableEq, Repr

/-- The wording of a problem. -/
def UsageProblem.message : UsageProblem → String
  | ambiguous word candidates =>
    "ambiguous option: " ++ word ++ " could match " ++ ", ".intercalate candidates
  | valueMissing argument => "argument " ++ argument ++ ": expected one argument"
  | valueIgnored argument value =>
    "argument " ++ argument ++ ": ignored explicit argument " ++ quoted value
  | invalidChoice argument value choices =>
    "argument " ++ argument ++ ": invalid choice: " ++ quoted value ++ " (choose from "
      ++ ", ".intercalate (choices.map quoted) ++ ")"
  | required arguments =>
    "the following arguments are required: " ++ ", ".intercalate arguments
  | unrecognized words => "unrecognized arguments: " ++ " ".intercalate words

/-- A command line that is not understood, and the program that says so. -/
structure UsageError where
  program : String
  problem : UsageProblem
deriving DecidableEq, Repr

/-- What is reported about a command line that is not understood. -/
def UsageError.message (e : UsageError) : String := e.program ++ ": error: " ++ e.problem.message

/-- How an option is named in a message. -/
def OptionSpec.title (o : OptionSpec) : String := "/".intercalate o.names

/-! ## Words -/

/-- A use of an option: as written, with the characters that are attached to it, if any. -/
structure OptionUse where
  option : OptionSpec
  name : List Char
  attached : Option (List Char)
deriving DecidableEq, Repr

/-- What a word is. -/
inductive WordKind where
  | argument
  /-- The double hyphen. -/
  | separator
  | option (use : OptionUse)
  | unknownOption
deriving DecidableEq, Repr

/-- The options with each way to write them. -/
def spellings (options : List OptionSpec) : List (List Char × OptionSpec) :=
  options.flatMap fun o => o.names.map fun name => (name.toList, o)

/-- The option that is written in a way. -/
def findOption? (options : List OptionSpec) (name : List Char) : Option OptionSpec :=
  ((spellings options).find? fun spelling => spelling.1 == name).map Prod.snd

/-- What stands before and after the first equals sign. -/
def splitAtEquals (cs : List Char) : List Char × Option (List Char) :=
  let name := cs.takeWhile (· != '=')
  (name, (cs.drop name.length).tail?)

/-- The options that a word which names none exactly may mean. -/
def candidates (options : List OptionSpec) (word : List Char) : List OptionUse :=
  if ['-', '-'].isPrefixOf word then
    let (name, attached) := splitAtEquals word
    (spellings options).filterMap fun (spelling, o) =>
      if name.isPrefixOf spelling then some ⟨o, spelling, attached⟩ else none
  else
    (spellings options).filterMap fun (spelling, o) =>
      if spelling == word.take 2 then some ⟨o, spelling, some (word.drop 2)⟩
      else if word.isPrefixOf spelling then some ⟨o, spelling, none⟩
      else none

/-- Whether digits, possibly with a line feed after them, are all that is there. -/
def isDigitsToEnd (cs : List Char) : Bool :=
  let digits := cs.takeWhile isDecimal
  !digits.isEmpty && (cs.drop digits.length == [] || cs.drop digits.length == ['\n'])

/-- Whether a word is a negative number. -/
def isNegativeNumber (word : List Char) : Bool :=
  match word with
  | '-' :: rest =>
    isDigitsToEnd rest
      || (match rest.dropWhile isDecimal with
        | '.' :: fraction => isDigitsToEnd fraction
        | _ => false)
  | _ => false

/-- What a word is, if it comes before a double hyphen. -/
def classify (options : List OptionSpec) (word : List Char) : Except UsageProblem WordKind :=
  match word with
  | '-' :: _ :: _ =>
    match findOption? options word with
    | some o => .ok (.option ⟨o, word, none⟩)
    | none =>
      let (name, attached) := splitAtEquals word
      match attached, findOption? options name with
      | some value, some o => .ok (.option ⟨o, name, some value⟩)
      | _, _ =>
        match candidates options word with
        | [] =>
          if isNegativeNumber word || word.contains ' ' then .ok .argument
          else .ok .unknownOption
        | [use] => .ok (.option use)
        | uses =>
          .error (.ambiguous (String.ofList word) (uses.map fun use => String.ofList use.name))
  | _ => .ok .argument

/-- The words with what they are. -/
def classifyAll (options : List OptionSpec) :
    List String → Except UsageProblem (List (String × WordKind))
  | [] => .ok []
  | word :: rest =>
    if word = "--" then
      .ok ((word, .separator) :: rest.map fun w => (w, .argument))
    else
      match classify options word.toList with
      | .error p => .error p
      | .ok kind =>
        match classifyAll options rest with
        | .error p => .error p
        | .ok others => .ok ((word, kind) :: others)

/-! ## Uses of options -/

/-- What is given for an option that takes a value. -/
inductive OptionValue where
  | text (value : String)
  /-- A double hyphen in place of the value is dropped, and an empty list is left. -/
  | nothing
deriving DecidableEq, Repr

namespace OptionValue

/-- The value that a text attached to an option gives. -/
def ofText (value : String) : OptionValue := if value = "--" then nothing else text value

/-- A value as it is shown in other texts. -/
def shown : OptionValue → String
  | text value => value
  | nothing => "[]"

/-- A value as it is shown in messages. -/
def display : OptionValue → String
  | text value => quoted value
  | nothing => "[]"

/-- The text of a value, if it has one. -/
def text? : OptionValue → Option String
  | text value => some value
  | nothing => none

end OptionValue

/-- What a command line has said so far. -/
structure Reading where
  /-- The options in the order in which they are used, with their values. -/
  settings : List (OptionSpec × Option OptionValue) := []
  /-- The first argument. -/
  argument : Option String := none
  /-- Words that mean nothing. -/
  extras : List String := []
deriving Repr

namespace Reading

/-- Adds the use of an option. -/
def set (r : Reading) (o : OptionSpec) (value : Option OptionValue) : Reading :=
  { r with settings := r.settings ++ [(o, value)] }

/-- Adds a word that means nothing. -/
def extra (r : Reading) (word : String) : Reading := { r with extras := r.extras ++ [word] }

/-- Whether an option is used. -/
def uses (r : Reading) (o : OptionSpec) : Bool := r.settings.any fun setting => setting.1 == o

/-- Whether an option has ended the reading. -/
def isOver (r : Reading) : Bool := r.settings.any fun setting => setting.1.endsReading

/-- The value of the last use of an option. -/
def value? (r : Reading) (o : OptionSpec) : Option OptionValue :=
  ((r.settings.filter fun setting => setting.1 == o).getLast?).bind Prod.snd

end Reading

/-- Adds the use of an option with a value, which has to be one of its choices. -/
def setValue (r : Reading) (o : OptionSpec) (value : OptionValue) : Except UsageProblem Reading :=
  match value with
  | .nothing => .ok (r.set o (some .nothing))
  | .text value =>
    if o.choices.isEmpty || o.choices.contains value then .ok (r.set o (some (.text value)))
    else .error (.invalidChoice o.title value o.choices)

/-- Adds the use of an option without value, written with one hyphen and with characters
attached: each of them is a short option. The last may have its value attached, or wait for it. -/
def setJoined (options : List OptionSpec) (o : OptionSpec) (r : Reading) :
    List Char → Except UsageProblem (Reading × Option OptionSpec)
  | [] => .ok (r.set o none, none)
  | c :: rest =>
    match findOption? options ['-', c] with
    | none => .error (.valueIgnored o.title (String.ofList (c :: rest)))
    | some next =>
      if next.takesValue then
        if rest.isEmpty then .ok (r.set o none, some next)
        else (setValue (r.set o none) next (.ofText (String.ofList rest))).map (·, none)
      else setJoined options next (r.set o none) rest

/-- Adds the use of an option, as far as its word alone tells; an option may still wait for its
value. -/
def setOption (options : List OptionSpec) (r : Reading) (use : OptionUse) :
    Except UsageProblem (Reading × Option OptionSpec) :=
  match use.attached with
  | none =>
    if use.option.takesValue then .ok (r, some use.option) else .ok (r.set use.option none, none)
  | some attached =>
    if use.option.takesValue then
      (setValue r use.option (.ofText (String.ofList attached))).map (·, none)
    else if ['-', '-'].isPrefixOf use.name || attached.isEmpty then
      .error (.valueIgnored use.option.title (String.ofList attached))
    else setJoined options use.option r attached

/-! ## Whole command lines -/

/-- Reads classified words one after the other, up to an option that ends the reading. The first
argument is kept, and a double hyphen next to it is dropped; all other arguments are extra. -/
def readWords (options : List OptionSpec) (r : Reading) (words : List (String × WordKind)) :
    Except UsageProblem Reading :=
  match words with
  | [] => .ok r
  | (word, .unknownOption) :: rest => readWords options (r.extra word) rest
  | (word, .argument) :: rest =>
    if r.argument.isSome then readWords options (r.extra word) rest
    else
      -- a double hyphen right after the argument has nothing left to protect
      match rest with
      | (_, .separator) :: rest => readWords options { r with argument := some word } rest
      | rest => readWords options { r with argument := some word } rest
  | (word, .separator) :: rest =>
    if r.argument.isSome then readWords options (r.extra word) rest
    else
      match rest with
      | (value, _) :: rest => readWords options { r with argument := some value } rest
      | [] => .ok (r.extra word)
  | (_, .option use) :: rest =>
    match setOption options r use with
    | .error p => .error p
    | .ok (r, none) => if r.isOver then .ok r else readWords options r rest
    | .ok (r, some o) =>
      match rest with
      | (value, .argument) :: rest =>
        match setValue r o (.ofText value) with
        | .error p => .error p
        | .ok r => if r.isOver then .ok r else readWords options r rest
      | _ => .error (.valueMissing o.title)
termination_by words.length

/-- Whether a word is an option, known or not. -/
def WordKind.isOption : WordKind → Bool
  | .option _ => true
  | .unknownOption => true
  | .argument => false
  | .separator => false

end LocalizedKeys.Command
