import ContractAudit.Text.Basic

namespace ContractAudit.Command

inductive Flag where
  | verbose
  | isolateFaults
  | quiet
  | json
  deriving DecidableEq, Repr

namespace Flag

def name : Flag → String
  | .verbose => "verbose"
  | .isolateFaults => "isolate-faults"
  | .quiet => "quiet"
  | .json => "json"

def letter? : Flag → Option Char
  | .verbose => some 'v'
  | .quiet => some 'q'
  | _ => none

end Flag

inductive Setting where
  | output
  | markdown
  | narrative
  | config
  | detectors
  deriving DecidableEq, Repr

namespace Setting

def name : Setting → String
  | .output => "output"
  | .markdown => "markdown"
  | .narrative => "narrative"
  | .config => "config"
  | .detectors => "detectors"

def letter? : Setting → Option Char
  | .output => some 'o'
  | .config => some 'c'
  | _ => none

def accepts (setting : Setting) (value : String) : Bool := setting == .detectors || !value.isEmpty

end Setting

structure Vocabulary where
  flags : List Flag
  settings : List Setting

structure Given where
  flags : List Flag := []
  settings : List (Setting × String) := []
  operands : List String := []
  deriving DecidableEq, Repr

namespace Given

def setFlag? (given : Given) (flag : Flag) : Option Given :=
  if given.flags.contains flag then none else some { given with flags := flag :: given.flags }

def get? (given : Given) (setting : Setting) : Option String :=
  (given.settings.find? (·.1 == setting)).map (·.2)

def set? (given : Given) (setting : Setting) (value : String) : Option Given :=
  if (given.get? setting).isSome || !setting.accepts value then none
  else some { given with settings := (setting, value) :: given.settings }

def addOperand (given : Given) (operand : String) : Given :=
  { given with operands := given.operands ++ [operand] }

end Given

def isDashed (arg : String) : Bool :=
  match arg.toList with
  | '-' :: _ :: _ => true
  | _ => false

def splitName (chars : List Char) : String × Option String :=
  match chars.dropWhile (· != '=') with
  | [] => (String.ofList chars, none)
  | _ :: value => (String.ofList (chars.takeWhile (· != '=')), some (String.ofList value))

abbrev Progress := Given × Option Setting

def readLong (vocabulary : Vocabulary) (given : Given) (chars : List Char) : Option Progress :=
  let (name, attached) := splitName chars
  match vocabulary.flags.find? (·.name == name) with
  | some flag =>
    match attached with
    | some _ => none
    | none => (given.setFlag? flag).map (·, none)
  | none =>
    match vocabulary.settings.find? (·.name == name) with
    | some setting =>
      match attached with
      | some value => (given.set? setting value).map (·, none)
      | none => some (given, some setting)
    | none => none

/-- Letters after one dash. What follows the letter of a setting is its value, less an `=` in
front. -/
def readLetters (vocabulary : Vocabulary) (given : Given) : List Char → Option Progress
  | [] => some (given, none)
  | c :: rest =>
    match vocabulary.flags.find? (·.letter? == some c) with
    | some flag =>
      match given.setFlag? flag with
      | some given => readLetters vocabulary given rest
      | none => none
    | none =>
      match vocabulary.settings.find? (·.letter? == some c) with
      | some setting =>
        match rest with
        | [] => some (given, some setting)
        | '=' :: value => (given.set? setting (String.ofList value)).map (·, none)
        | value => (given.set? setting (String.ofList value)).map (·, none)
      | none => none

def readDashed (vocabulary : Vocabulary) (given : Given) (arg : String) : Option Progress :=
  match arg.toList with
  | '-' :: '-' :: name => readLong vocabulary given name
  | '-' :: letters => readLetters vocabulary given letters
  | _ => none

def readArguments (vocabulary : Vocabulary) (given : Given) : List String → Option Given
  | [] => some given
  | arg :: rest =>
    if arg == "--" then some { given with operands := given.operands ++ rest }
    else if !isDashed arg then readArguments vocabulary (given.addOperand arg) rest
    else match readDashed vocabulary given arg, rest with
      | none, _ => none
      | some (given, none), rest => readArguments vocabulary given rest
      | some (_, some _), [] => none
      | some (given, some setting), value :: rest =>
        if isDashed value then none
        else match given.set? setting value with
          | some given => readArguments vocabulary given rest
          | none => none

structure AuditOptions where
  path : String
  output : Option String := none
  markdown : Option String := none
  narrative : Option String := none
  config : Option String := none
  detectors : Option String := none
  isolateFaults : Bool := false
  quiet : Bool := false
  deriving DecidableEq, Repr

inductive Request where
  | version
  | detectors (asJson : Bool)
  | audit (options : AuditOptions)
  deriving DecidableEq, Repr

def auditVocabulary : Vocabulary where
  flags := [.verbose, .isolateFaults, .quiet]
  settings := [.output, .markdown, .narrative, .config, .detectors]

def detectorsVocabulary : Vocabulary where
  flags := [.verbose, .json]
  settings := []

def readAudit (args : List String) : Option Request := do
  let given ← readArguments auditVocabulary {} args
  match given.operands with
  | [path] =>
    if path.isEmpty then none
    else some (.audit
      { path := path
        output := given.get? .output
        markdown := given.get? .markdown
        narrative := given.get? .narrative
        config := given.get? .config
        detectors := given.get? .detectors
        isolateFaults := given.flags.contains .isolateFaults
        quiet := given.flags.contains .quiet })
  | _ => none

def readDetectors (args : List String) : Option Request := do
  let given ← readArguments detectorsVocabulary {} args
  if given.operands.isEmpty then return .detectors (given.flags.contains .json) else none

/-- The letters in front of the command: `some true` if one of them asks for the version, `none` if
one is unknown or repeats `verbose`. The second part says whether `verbose` has been given. -/
def readLeadingLetters (verbose : Bool) : List Char → Option (Bool × Bool)
  | [] => some (false, verbose)
  | 'V' :: _ => some (true, verbose)
  | 'v' :: rest => if verbose then none else readLeadingLetters true rest
  | _ => none

def readRequest (verbose : Bool) : List String → Option Request
  | [] => none
  | arg :: rest =>
    match arg with
    | "audit" => readAudit rest
    | "detectors" => readDetectors rest
    | "--version" => some .version
    | "--verbose" => if verbose then none else readRequest true rest
    | _ =>
      match arg.toList with
      | '-' :: c :: letters =>
        match readLeadingLetters verbose (c :: letters) with
        | some (true, _) => some .version
        | some (false, verbose) => readRequest verbose rest
        | none => none
      | _ => none

/-- What a command line asks for, or `none` if it is malformed. -/
def Request.parse? (args : List String) : Option Request := readRequest false args

end ContractAudit.Command
