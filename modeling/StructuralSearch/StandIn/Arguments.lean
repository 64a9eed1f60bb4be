import StructuralSearch.CommandLine.Packages
import StructuralSearch.Text.Decimal

/-!
# A reader of arguments

Arguments are read from left to right and the first thing that settles the request does so: a call
for help or for the version, or a mistake. A value that is an argument of its own is judged only
when the next argument at its level is read, so the last one before a command is judged after
everything behind the command.
-/
namespace StructuralSearch.StandIn

open CommandLine

def formats : List LogFormat :=
  [.compact, .json]

/-- The format of exactly this name. -/
def formatOfExactName? (name : String) : Option LogFormat :=
  formats.find? fun f => f.name == name

/-- The format of a name, in whatever case its letters are. -/
def formatOfName? (name : String) : Option LogFormat :=
  formatOfExactName? (Text.lowercase name)

inductive Request where
  | help
  | version
  | run (arguments : Arguments)

inductive UsageFault where
  | missingCommand
  | unknownCommand (name : String)
  | unexpected (argument : String)
  | missingValue (option : String)
  | repeatedOption (option : String)
  | invalidValue (option value : String)
  | missingArgument (name : String)
  deriving DecidableEq, Repr

def UsageFault.message : UsageFault → String
  | missingCommand => "error: a command is required: grep, rewrite or explain\n"
  | unknownCommand name => "error: there is no command '" ++ name ++ "'\n"
  | unexpected argument => "error: unexpected argument '" ++ argument ++ "'\n"
  | missingValue option => "error: '--" ++ option ++ "' needs a value\n"
  | repeatedOption option => "error: '--" ++ option ++ "' is given more than once\n"
  | invalidValue option value => "error: '" ++ value ++ "' is no value for '--" ++ option ++ "'\n"
  | missingArgument name => "error: '" ++ name ++ "' is required\n"

/-- The command that the options are read for; none before it is named. -/
inductive CommandName where
  | grep
  | replace
  | explain
  deriving DecidableEq, Repr

def CommandName.ofText? : String → Option CommandName
  | "grep" => some .grep
  | "rewrite" => some .replace
  | "explain" => some .explain
  | _ => none

inductive OptionName where
  | pattern
  | replacement
  | language
  | maxMatches
  | json
  | inPlace
  | configPath
  | logFilter
  | logFormat
  | help
  | version
  deriving DecidableEq, Repr

namespace OptionName

def all : List OptionName :=
  [pattern, replacement, language, maxMatches, json, inPlace, configPath, logFilter, logFormat,
    help, version]

def long : OptionName → String
  | pattern => "pattern"
  | replacement => "replacement"
  | language => "language"
  | maxMatches => "max-matches"
  | json => "json"
  | inPlace => "in-place"
  | configPath => "config-path"
  | logFilter => "log-filter"
  | logFormat => "log-format"
  | help => "help"
  | version => "version"

def short? : OptionName → Option Char
  | pattern => some 'p'
  | replacement => some 'r'
  | language => some 'l'
  | help => some 'h'
  | version => some 'V'
  | _ => none

def takesValue : OptionName → Bool
  | json | inPlace | help | version => false
  | _ => true

/-- The option can be given there: before the command, or after the command named. -/
def isAllowed (o : OptionName) (command : Option CommandName) : Bool :=
  match o with
  | configPath | logFilter | logFormat | help => true
  | version => command.isNone
  | pattern | language => command.isSome
  | maxMatches => command = some .grep || command = some .replace
  | json => command = some .grep
  | replacement | inPlace => command = some .replace

end OptionName

/-- What an argument is by its looks. -/
inductive Word where
  | operand (text : String)
  /-- Two dashes: what follows are operands. -/
  | separator
  /-- An option with the value that is attached to it, if any. -/
  | option (name : OptionName) (value : Option String)
  | unknown (argument : String)

/-- The text begins with a dash and is more than that. -/
def looksLikeOption (text : String) : Bool :=
  match text.toList with
  | '-' :: _ :: _ => true
  | _ => false

/-- Reads a long option without its dashes: a name, and a value after an equals sign. -/
def Word.ofLong (command : Option CommandName) (argument : String) (text : List Char) : Word :=
  let name := String.ofList (text.takeWhile (· ≠ '='))
  let value :=
    match text.dropWhile (· ≠ '=') with
    | [] => none
    | _ :: value => some (String.ofList value)
  match OptionName.all.find? fun o => o.long == name && o.isAllowed command with
  | none => .unknown argument
  | some o => if value.isSome && !o.takesValue then .unknown argument else .option o value

/-- Reads a short option without its dash: a letter, and a value, with or without an equals sign. -/
def Word.ofShort (command : Option CommandName) (argument : String) (letter : Char)
    (text : List Char) : Word :=
  match OptionName.all.find? fun o => o.short? == some letter && o.isAllowed command with
  | none => .unknown argument
  | some o =>
    match text with
    | [] => .option o none
    | '=' :: value => .option o (some (String.ofList value))
    | value => .option o (some (String.ofList value))

def Word.ofArgument (command : Option CommandName) (argument : String) : Word :=
  match argument.toList with
  | ['-', '-'] => .separator
  | '-' :: '-' :: text => .ofLong command argument text
  | '-' :: letter :: text => .ofShort command argument letter text
  | _ => .operand argument

/-- The options and operands read so far. -/
structure Given where
  pattern : Option String := none
  replacement : Option String := none
  language : Option Language := none
  maxMatches : Option Nat := none
  json : Bool := false
  inPlace : Bool := false
  globals : GlobalOptions := {}
  paths : List String := []
  /-- The latest option, when its value has not been judged yet. -/
  waiting : Option (OptionName × String) := none

namespace Given

/-- Sets an option to a value, which must be valid and the first for it. -/
def set {α : Type} (o : OptionName) (old : Option α) (value : String) (read : String → Option α)
    (put : α → Given) : Except UsageFault Given :=
  match read value with
  | none => .error (.invalidValue o.long value)
  | some a => if old.isSome then .error (.repeatedOption o.long) else .ok (put a)

/-- A path, which has at least one character. -/
def readPath? (path : String) : Option String :=
  if path.isEmpty then none else some path

def setValue (g : Given) (o : OptionName) (value : String) : Except UsageFault Given :=
  match o with
  | .pattern => set o g.pattern value some fun a => { g with pattern := some a }
  | .replacement => set o g.replacement value some fun a => { g with replacement := some a }
  | .language => set o g.language value Language.ofName? fun a => { g with language := some a }
  | .maxMatches => set o g.maxMatches value Text.readCount? fun a => { g with maxMatches := some a }
  | .configPath =>
    set o g.globals.configPath value readPath? fun a =>
      { g with globals := { g.globals with configPath := some a } }
  | .logFilter =>
    set o g.globals.logFilter value some fun a =>
      { g with globals := { g.globals with logFilter := some a } }
  | .logFormat =>
    set o g.globals.logFormat value formatOfName? fun a =>
      { g with globals := { g.globals with logFormat := some a } }
  | .json | .inPlace | .help | .version => .ok g

/-- Judges the value that waits, if one does. -/
def settle (g : Given) : Except UsageFault Given :=
  match g.waiting with
  | some (o, value) => { g with waiting := none }.setValue o value
  | none => .ok g

/-- Sets an option that has no value, once at most. -/
def setFlag (g : Given) (o : OptionName) : Except UsageFault Given :=
  match o with
  | .json => if g.json then .error (.repeatedOption o.long) else .ok { g with json := true }
  | .inPlace =>
    if g.inPlace then .error (.repeatedOption o.long) else .ok { g with inPlace := true }
  | _ => .ok g

/-- Adds operands; only commands that read files take any. -/
def addOperands (g : Given) (command : CommandName) : List String → Except UsageFault Given
  | [] => .ok g
  | operand :: rest =>
    if command = .explain then .error (.unexpected operand)
    else
      match readPath? operand with
      | none => .error (.invalidValue "PATH" operand)
      | some path => { g with paths := g.paths ++ [path] }.addOperands command rest

/-- What was asked for of a required option. -/
def require {α : Type} (o : OptionName) (value : Option α) : Except UsageFault α :=
  match value with
  | some a => .ok a
  | none => .error (.missingArgument o.long)

def source (g : Given) (pattern : String) : Except UsageFault SourceArguments :=
  if g.paths.isEmpty then .error (.missingArgument "PATH")
  else .ok { pattern, language := g.language, maxMatches := g.maxMatches, paths := g.paths }

/-- The command with everything that it requires. -/
def command (g : Given) (name : CommandName) : Except UsageFault Command := do
  let pattern ← require .pattern g.pattern
  match name with
  | .grep => return .grep (← g.source pattern) g.json
  | .replace =>
    let replacement ← require .replacement g.replacement
    return .replace (← g.source pattern) replacement g.inPlace
  | .explain => return .explain pattern (← require .language g.language)

end Given

/-- The options of the inner level, and those of the outer one that it leaves open. -/
def layered (inner outer : GlobalOptions) : GlobalOptions where
  configPath := inner.configPath.or outer.configPath
  logFilter := inner.logFilter.or outer.logFilter
  logFormat := inner.logFormat.or outer.logFormat

/-- The request, once all arguments are read: those of the command, and those before it. -/
def finish (outer : Given) (command : Option CommandName) (g : Given) :
    Except UsageFault Request :=
  match command with
  | none => .error .missingCommand
  | some name => do
    let g ← g.settle
    let command ← g.command name
    let outer ← outer.settle
    .ok (.run { globals := layered g.globals outer.globals, command })

/-- Reads arguments after the command named, if one is; `outer` holds what was given before it. -/
def readFrom (outer : Given) (command : Option CommandName) (g : Given) :
    List String → Except UsageFault Request
  | [] => finish outer command g
  | argument :: rest =>
    match Word.ofArgument command argument with
    | .unknown argument => .error (.unexpected argument)
    | .separator =>
      match command, rest with
      | none, [] => .error .missingCommand
      | none, operand :: _ => .error (.unexpected operand)
      | some name, operands => do
        let g ← g.settle
        let g ← g.addOperands name operands
        finish outer command g
    | .operand text =>
      match command with
      | none =>
        match CommandName.ofText? text with
        | none => .error (.unknownCommand text)
        | some name => readFrom g (some name) {} rest
      | some name => do
        let g ← g.settle
        let g ← g.addOperands name [text]
        readFrom outer command g rest
    | .option .help _ => g.settle.map fun _ => .help
    | .option .version _ => g.settle.map fun _ => .version
    | .option o (some value) => do
      let g ← g.settle
      let g ← g.setValue o value
      readFrom outer command g rest
    | .option o none => do
      let g ← g.settle
      if o.takesValue then
        match rest with
        | [] => .error (.missingValue o.long)
        | value :: rest =>
          if looksLikeOption value then .error (.missingValue o.long)
          else readFrom outer command { g with waiting := some (o, value) } rest
      else
        let g ← g.setFlag o
        readFrom outer command g rest

/-! ## What the user is told -/

def versionLine : String := programName ++ " 0.1.0\n"

def usageLine : String :=
  "Usage: " ++ programName ++ " [OPTIONS] <COMMAND>\n"

def helpText : String :=
  "Structural search and replacement of source code\n\n" ++ usageLine ++
    "\nCommands:\n" ++
    "  grep     Print the places where a template matches\n" ++
    "  rewrite  Replace the matches of a template\n" ++
    "  explain  Print the pattern of a template\n" ++
    "\nOptions:\n" ++
    "  -p, --pattern <TEMPLATE>   Code with metavariables to look for\n" ++
    "  -r, --replacement <TEXT>   Text to put in place of each match (rewrite)\n" ++
    "  -l, --language <LANGUAGE>  Language of the template and the files\n" ++
    "      --max-matches <COUNT>  Matches to look for in each file (grep, rewrite)\n" ++
    "      --json                 Print each match as a JSON object (grep)\n" ++
    "      --in-place             Write the results to the files (rewrite)\n" ++
    "      --config-path <PATH>   Settings file to read\n" ++
    "      --log-filter <FILTER>  Log messages to show\n" ++
    "      --log-format <FORMAT>  How log messages are shown: compact or json\n" ++
    "  -h, --help                 Print this help\n" ++
    "  -V, --version              Print the version\n"

/-- What is told to a user who asks for help or for the version, or whose arguments are at fault. -/
def readArguments (arguments : List String) : Except Refusal Arguments :=
  match readFrom {} none {} arguments with
  | .ok (.run arguments) => .ok arguments
  | .ok .help => .error { text := helpText, toStderr := false, exitCode := 0 }
  | .ok .version => .error { text := versionLine, toStderr := false, exitCode := 0 }
  | .error fault =>
    .error { text := fault.message ++ "\n" ++ usageLine, toStderr := true, exitCode := 2 }

end StructuralSearch.StandIn
