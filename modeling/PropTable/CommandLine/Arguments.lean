import PropTable.Text.DecimalDigit
import PropTable.Text.Quoted

/-!
# Command-line arguments

An argument is an operand, an option or the separator `--`, behind which everything is an operand.
A value may stand behind an option after `=`, and behind a short option also without it. Long options
may be shortened as far as they stay unambiguous, and short options may be run together: what stands
behind a short flag is read as further short options.

The operands must form one run; what stands in a later run is refused, and so are unknown options.
`Arguments.parse` reads all arguments or says why it refuses them.
-/

namespace PropTable.CommandLine

/-- What an option switches on, or asks for. -/
inductive Switch where
  | help
  | formulaFile
  | intents
  | verbose
  | debug
  | validateOnly
deriving DecidableEq, Repr

namespace Switch

/-- The options by their spellings, in the order in which candidates are listed. -/
def spellings : List (String × Switch) :=
  [("-h", .help), ("--help", .help), ("-f", .formulaFile), ("--formula-file", .formulaFile),
    ("--intents", .intents), ("-v", .verbose), ("--verbose", .verbose), ("--debug", .debug),
    ("--validate-only", .validateOnly)]

def ofSpelling? (spelling : String) : Option Switch :=
  spellings.lookup spelling

/-- The name of a switch in a message: its spellings with a stroke between them. -/
def name (s : Switch) : String :=
  "/".intercalate ((spellings.filter fun p => p.2 == s).map Prod.fst)

/-- Whether the switch takes a value. -/
def takesValue : Switch → Bool
  | .formulaFile => true
  | _ => false

end Switch

/-- Why the arguments were refused. -/
inductive UsageError where
  /-- A shortened option fits several spellings. -/
  | ambiguous (argument : String) (candidates : List String)
  /-- An option that takes no value was given one. -/
  | ignoredValue (s : Switch) (value : String)
  /-- An option that takes a value was given none. -/
  | missingValue (s : Switch)
  /-- Unknown options, and operands outside the first run. -/
  | unrecognized (arguments : List String)
deriving DecidableEq, Repr

def UsageError.message : UsageError → String
  | .ambiguous argument candidates =>
    "ambiguous option: " ++ argument ++ " could match " ++ ", ".intercalate candidates
  | .ignoredValue s value =>
    "argument " ++ s.name ++ ": ignored explicit argument " ++ Text.quoted value
  | .missingValue s => "argument " ++ s.name ++ ": expected one argument"
  | .unrecognized arguments => "unrecognized arguments: " ++ " ".intercalate arguments

/-- What an argument is. -/
inductive Kind where
  | operand
  | separator
  /-- An option, whether it is spelled with one hyphen, and the text behind it in the argument. -/
  | known (s : Switch) (short : Bool) (attached : Option (List Char))
  | unknown
deriving DecidableEq, Repr

/-- Splits a text at its first equals sign, if it has one. -/
def splitAtEquals (cs : List Char) : List Char × Option (List Char) :=
  match cs.dropWhile (· != '=') with
  | [] => (cs, none)
  | _ :: value => (cs.takeWhile (· != '='), some value)

/-- Whether the text behind a hyphen is a decimal number: digits, or digits around a point with at
least one behind it. A line feed at the very end does not matter. -/
def isNumber (cs : List Char) : Bool :=
  let cs := if cs.getLast? = some '\n' then cs.dropLast else cs
  let whole := cs.takeWhile Text.isDecimalDigit
  match cs.dropWhile Text.isDecimalDigit with
  | [] => !whole.isEmpty
  | c :: fraction => c == '.' && !fraction.isEmpty && fraction.all Text.isDecimalDigit

/-- What an argument with a leading hyphen is when no option fits it: numbers and texts with a space
in them are operands. -/
def kindWithoutMatch (cs : List Char) : Kind :=
  if isNumber cs.tail || cs.contains ' ' then .operand else .unknown

/-- Whether a spelling is one hyphen and a letter. -/
def isShort (spelling : String) : Bool :=
  !spelling.startsWith "--"

/-- What an argument is that starts with a hyphen but spells no option outright. A long option may be
shortened; a short one is known by its first letter. -/
def classifyShortened (argument : String) : Except UsageError Kind :=
  let cs := argument.toList
  if isShort argument then
    match Switch.ofSpelling? (String.ofList (cs.take 2)) with
    | some s => .ok (.known s true (some (cs.drop 2)))
    | none => .ok (kindWithoutMatch cs)
  else
    let (front, attached) := splitAtEquals cs
    match Switch.spellings.filter fun p => p.1.startsWith (String.ofList front) with
    | [] => .ok (kindWithoutMatch cs)
    | [(_, s)] => .ok (.known s false attached)
    | several => .error (.ambiguous argument (several.map Prod.fst))

/-- What a single argument before the separator is. -/
def classify (argument : String) : Except UsageError Kind :=
  if !argument.startsWith "-" || argument = "-" then .ok .operand
  else
    match Switch.ofSpelling? argument with
    | some s => .ok (.known s (isShort argument) none)
    | none =>
      let (front, attached) := splitAtEquals argument.toList
      let spelling := String.ofList front
      match attached, Switch.ofSpelling? spelling with
      | some value, some s => .ok (.known s (isShort spelling) (some value))
      | _, _ => classifyShortened argument

/-- The argument that parts options from operands. -/
def separatorSpelling : String := "--"

/-- What each argument is. Behind the separator all are operands. -/
def classifyAll : List String → Except UsageError (List (String × Kind))
  | [] => .ok []
  | a :: rest =>
    if a = separatorSpelling then .ok ((a, .separator) :: rest.map fun b => (b, .operand))
    else do
      let kind ← classify a
      return (a, kind) :: (← classifyAll rest)

/-- What the arguments ask for. -/
structure Settings where
  operands : List String
  formulaFile : Option String
  help : Bool
  intents : Bool
  verbose : Bool
  debug : Bool
  validateOnly : Bool
deriving DecidableEq, Repr

/-- The settings when there are no arguments. -/
def Settings.initial : Settings :=
  ⟨[], none, false, false, false, false, false⟩

/-- Switches a flag on. The formula file is no flag and needs its name. -/
def Settings.enable (o : Settings) : Switch → Settings
  | .help => { o with help := true }
  | .formulaFile => o
  | .intents => { o with intents := true }
  | .verbose => { o with verbose := true }
  | .debug => { o with debug := true }
  | .validateOnly => { o with validateOnly := true }

/-- Where the one run of operands stands: not reached, being read, or over. -/
inductive Run where
  | ahead
  | inside
  | over
deriving DecidableEq, Repr

/-- The state of reading: the settings so far, the place in the run, and what was set aside because
nothing takes it. -/
structure Reader where
  settings : Settings
  run : Run
  extras : List String
deriving DecidableEq, Repr

namespace Reader

def setAside (r : Reader) (a : String) : Reader :=
  { r with extras := r.extras ++ [a] }

/-- Takes an operand into the run, or sets it aside when the run is over. -/
def takeOperand (r : Reader) (a : String) : Reader :=
  match r.run with
  | .over => r.setAside a
  | _ =>
    { r with settings := { r.settings with operands := r.settings.operands ++ [a] },
             run := .inside }

/-- Takes the separator, which belongs to the run but is no operand. -/
def takeSeparator (r : Reader) (a : String) : Reader :=
  match r.run with
  | .over => r.setAside a
  | _ => { r with run := .inside }

/-- Notes that an option ends the run, if it has begun. -/
def interrupt (r : Reader) : Reader :=
  match r.run with
  | .inside => { r with run := .over }
  | _ => r

def enable (r : Reader) (s : Switch) : Reader :=
  { r with settings := r.settings.enable s }

/-- Takes the name of the formula file. A later name replaces an earlier one, and the separator is no
name: given as one, it leaves the run without a formula file. -/
def takeFile (r : Reader) (file : String) : Reader :=
  { r with settings :=
      { r.settings with formulaFile := if file = separatorSpelling then none else some file } }

end Reader

/-- What an argument with options in it leads to: either it is used up, or its last option wants the
next argument as its value. -/
inductive Progress where
  | done (r : Reader)
  | wantsValue (s : Switch) (r : Reader)
deriving DecidableEq, Repr

/-- Applies a short switch and the letters that stand behind it in the same argument. They are its
value, if it takes one; otherwise each of them is the next short switch. -/
def applyLetters (r : Reader) (s : Switch) : List Char → Except UsageError Progress
  | [] => .ok (if s.takesValue then .wantsValue s r else .done (r.enable s))
  | c :: rest =>
    if s.takesValue then .ok (.done (r.takeFile (String.ofList (c :: rest))))
    else
      match Switch.ofSpelling? (String.ofList ['-', c]) with
      | none => .error (.ignoredValue s (String.ofList (c :: rest)))
      | some next => applyLetters (r.enable s) next rest

/-- Applies the options of one argument, the first of which is `s`. -/
def applyOption (r : Reader) (s : Switch) (short : Bool) :
    Option (List Char) → Except UsageError Progress
  | none => applyLetters r s []
  | some value =>
    if s.takesValue then .ok (.done (r.takeFile (String.ofList value)))
    else if short && !value.isEmpty then applyLetters r s value
    else .error (.ignoredValue s (String.ofList value))

/-- Reads the classified arguments in order. Nothing behind a call for help matters. -/
def readAll (r : Reader) : List (String × Kind) → Except UsageError Reader
  | [] => .ok r
  | (a, .operand) :: rest => readAll (r.takeOperand a) rest
  | (a, .separator) :: rest => readAll (r.takeSeparator a) rest
  | (a, .unknown) :: rest => readAll (r.interrupt.setAside a) rest
  | (_, .known s short attached) :: rest =>
    match applyOption r.interrupt s short attached with
    | .error e => .error e
    | .ok (.done r) => if r.settings.help then .ok r else readAll r rest
    | .ok (.wantsValue s r) =>
      match rest with
      | (value, .operand) :: rest =>
        if r.settings.help then .ok r else readAll (r.takeFile value) rest
      | _ => .error (.missingValue s)

/-- Reads the arguments of a command line. -/
def parse (arguments : List String) : Except UsageError Settings :=
  match classifyAll arguments with
  | .error e => .error e
  | .ok classified =>
    match readAll ⟨.initial, .ahead, []⟩ classified with
    | .error e => .error e
    | .ok r =>
      if r.settings.help || r.extras.isEmpty then .ok r.settings
      else .error (.unrecognized r.extras)

end PropTable.CommandLine
