import BuilderApi.Output.Build

/-!
# The command line

A command is `build` or `check`, with options that take a value and a flag for verbose logging,
which may also stand in front of the command. Words are taken from left to right. An option's value
is the rest of its word behind an equals sign, or the next word unless that looks like an option; it
is settled when the next option or flag is met, or at the end, and only then found missing, empty or
repeated.
-/

namespace BuilderApi

/-- Why a command line is not run. Help and the version are asked for, the others are mistakes. -/
inductive Usage where
  /-- Help is asked for. -/
  | help
  /-- The version is asked for. -/
  | version
  /-- Nothing was given. -/
  | nothingGiven
  /-- There is no command. -/
  | noCommand
  /-- There is no such command. -/
  | unknownCommand
  /-- There is no such argument. -/
  | unknownArgument
  /-- A value is missing or empty. -/
  | badValue
  /-- An argument is repeated. -/
  | repeated
  /-- A flag is given a value. -/
  | surplusValue
deriving DecidableEq, Inhabited

/-- The exit status of a command line that is not run. -/
def Usage.exitCode : Usage → Nat
  | .help | .version => 0
  | _ => 2

/-- The options that take a value. -/
inductive CommandOption where
  /-- The schema document. -/
  | schema
  /-- The table. -/
  | api
  /-- The directory of the modules. -/
  | src
  /-- The directory of the pages. -/
  | docs
  /-- What stands in front of documented names. -/
  | lead
  /-- The title of the category index. -/
  | title
deriving DecidableEq, Inhabited

namespace CommandOption

/-- The options by the words that name them. -/
def byWord : Fields CommandOption :=
  [("schema", .schema), ("api", .api), ("src", .src), ("docs", .docs), ("prefix", .lead),
    ("title", .title)]

/-- Is the value a path? A path is not empty. -/
def isPath : CommandOption → Bool
  | .schema | .api | .src | .docs => true
  | .lead | .title => false

/-- Gives an option its value. -/
def put (config : BuildConfig) (value : String) : CommandOption → BuildConfig
  | .schema => { config with schema := value }
  | .api => { config with api := some value }
  | .src => { config with src := value }
  | .docs => { config with docs := value }
  | .lead => { config with lead := value }
  | .title => { config with title := value }

end CommandOption

/-- The settings of a command without options. -/
def BuildConfig.standard : BuildConfig where
  schema := "vega-lite-schema.json"
  api := none
  src := "src"
  docs := "docs/api"
  lead := Catalog.lead
  title := Catalog.title

/-- A command. -/
inductive Command where
  /-- Generates and writes. -/
  | build
  /-- Generates only. -/
  | check
deriving DecidableEq, Inhabited

/-- The command of a word. -/
def Command.ofWord? : String → Option Command
  | "build" => some .build
  | "check" => some .check
  | _ => none

/-- A command line that can be run. -/
structure CommandLine where
  /-- Is logging verbose? -/
  verbose : Bool
  /-- The command. -/
  command : Command
  /-- Its settings. -/
  config : BuildConfig
deriving Inhabited

/-! ### Words -/

/-- What a word looks like. -/
inductive Word where
  /-- The end of the options. -/
  | optionsEnd
  /-- A long option, perhaps with a value. -/
  | long (name : String) (value : Option String)
  /-- One-letter flags. -/
  | short (letters : List Char)
  /-- Anything else. -/
  | plain (text : String)
deriving DecidableEq, Inhabited

/-- The name and the value of a long option. -/
def Word.ofLong (text : List Char) : Word :=
  let name := String.ofList (text.takeWhile (· ≠ '='))
  match text.dropWhile (· ≠ '=') with
  | [] => .long name none
  | _ :: value => .long name (some (String.ofList value))

/-- What a word looks like. A dash alone is no flag. -/
def Word.ofString (text : String) : Word :=
  match text.toList with
  | ['-', '-'] => .optionsEnd
  | '-' :: '-' :: rest => .ofLong rest
  | '-' :: c :: rest => .short (c :: rest)
  | _ => .plain text

/-! ### The words of a command -/

/-- What has been read of the words of a command. -/
structure CommandState where
  /-- Was the verbose flag given? -/
  verbose : Bool
  /-- The options that were settled. -/
  given : List CommandOption
  /-- The settings so far. -/
  config : BuildConfig
  /-- An option that is not settled yet, with its value if that has come. -/
  pending : Option (CommandOption × Option String)
deriving Inhabited

namespace CommandState

/-- Nothing has been read. -/
def start : CommandState := ⟨false, [], .standard, none⟩

/-- Gives an option its value. -/
def accept (state : CommandState) (option : CommandOption) (value : String) :
    Except Usage CommandState :=
  if option ∈ state.given then .error .repeated
  else if option.isPath ∧ value = "" then .error .badValue
  else .ok { state with given := option :: state.given, config := option.put state.config value }

/-- Settles the option that is pending. -/
def settle (state : CommandState) : Except Usage CommandState :=
  match state.pending with
  | none => .ok state
  | some (_, none) => .error .badValue
  | some (option, some value) => { state with pending := none }.accept option value

/-- Takes the verbose flag. -/
def setVerbose (state : CommandState) : Except Usage CommandState := do
  let state ← state.settle
  if state.verbose then .error .repeated else return { state with verbose := true }

/-- Takes one-letter flags. -/
def takeLetters (state : CommandState) : List Char → Except Usage CommandState
  | [] => .ok state
  | 'v' :: rest => do (← state.setVerbose).takeLetters rest
  | 'h' :: _ => do
    let _ ← state.settle
    .error .help
  | _ :: _ => .error .unknownArgument

/-- Takes a long option or flag. -/
def takeLong (state : CommandState) (name : String) (value : Option String) :
    Except Usage CommandState :=
  match CommandOption.byWord.get? name, value with
  | some option, some v => do (← state.settle).accept option v
  | some option, none => do return { (← state.settle) with pending := some (option, none) }
  | none, value =>
    if name = "verbose" ∨ name = "help" then
      match value with
      | some _ => .error .surplusValue
      | none =>
        if name = "verbose" then state.setVerbose
        else do
          let _ ← state.settle
          .error .help
    else .error .unknownArgument

/-- Takes the words of a command. Nothing may follow the end of the options. -/
def take (state : CommandState) : List String → Except Usage CommandState
  | [] => state.settle
  | text :: rest =>
    match Word.ofString text with
    | .optionsEnd => if rest.isEmpty then state.settle else .error .unknownArgument
    | .long name value => do (← state.takeLong name value).take rest
    | .short letters => do (← state.takeLetters letters).take rest
    | .plain value =>
      match state.pending with
      | some (option, none) => { state with pending := some (option, some value) }.take rest
      | _ => .error .unknownArgument

end CommandState

/-! ### The whole line -/

/-- The topics that help knows. -/
def helpTopics : List String := ["build", "check", "help"]

/-- Asks for help on topics, of which only one is known at a time. -/
def helpOn : List String → Usage
  | [] => .help
  | [topic] => if topic ∈ helpTopics then .help else .unknownCommand
  | _ => .unknownCommand

/-- Takes the one-letter flags in front of the command. -/
def takeFlags (verbose : Bool) : List Char → Except Usage Bool
  | [] => .ok verbose
  | 'v' :: rest => if verbose then .error .repeated else takeFlags true rest
  | 'h' :: _ => .error .help
  | 'V' :: _ => .error .version
  | _ :: _ => .error .unknownArgument

/-- Takes a long flag in front of the command. -/
def takeFlag (verbose : Bool) (name : String) (value : Option String) : Except Usage Bool :=
  if name ∈ ["verbose", "help", "version"] then
    if value.isSome then .error .surplusValue
    else if name = "help" then .error .help
    else if name = "version" then .error .version
    else if verbose then .error .repeated
    else .ok true
  else .error .unknownArgument

/-- Reads a command line from here on. -/
def CommandLine.parseFrom (verbose : Bool) : List String → Except Usage CommandLine
  | [] => .error (if verbose then .noCommand else .nothingGiven)
  | text :: rest =>
    match Command.ofWord? text with
    | some command => do
      let state ← CommandState.start.take rest
      return ⟨verbose || state.verbose, command, state.config⟩
    | none =>
      if text = "help" then .error (helpOn rest)
      else
        match Word.ofString text with
        | .optionsEnd =>
          match rest with
          | [] => .error (if verbose then .noCommand else .nothingGiven)
          | next :: _ => .error (if next ∈ helpTopics then .unknownArgument else .unknownCommand)
        | .long name value => do CommandLine.parseFrom (← takeFlag verbose name value) rest
        | .short letters => do CommandLine.parseFrom (← takeFlags verbose letters) rest
        | .plain _ => .error .unknownCommand

/-- Reads a command line, without the name of the program. -/
def CommandLine.parse (words : List String) : Except Usage CommandLine :=
  CommandLine.parseFrom false words

end BuilderApi
