import StructuralSearch.CommandLine.Packages
import StructuralSearch.Pattern.Rendering
import StructuralSearch.Replacing.Rule

/-!
# The program

A run takes arguments, variables and files to an exit status, the text on both outputs, and the
files afterwards. Paths are worked through in order up to the first one that fails; what was printed
or written before stays. The outputs take what is printed.
-/
namespace StructuralSearch.CommandLine

inductive CommandFault where
  | search (fault : SearchFault)
  | settings (message : String)
  | logFilter (message : String)
  | logging (message : String)
  | unreadable (path : String) (fault : FileFault)
  | unwritable (path : String) (fault : FileFault)
  | encoding (message : String)

def CommandFault.message : CommandFault → String
  | search fault => fault.message
  | settings message => "failed to load configuration: " ++ message
  | logFilter message => "invalid log filter: " ++ message
  | logging message => "failed to install telemetry subscriber: " ++ message
  | unreadable path fault => "failed to read " ++ path ++ ": " ++ fault.message
  | unwritable path fault => "failed to write " ++ path ++ ": " ++ fault.message
  | encoding message => "failed to encode match: " ++ message

/-- How a command ends when nothing fails. -/
inductive Outcome where
  | success
  | noMatch
  deriving DecidableEq, Repr

def Outcome.code : Outcome → Nat
  | success => 0
  | noMatch => 1

/-- The exit status after an error. -/
def failureCode : Nat := 2

/-- Success when anything was found. -/
def Outcome.ofCount (n : Nat) : Outcome :=
  if n = 0 then .noMatch else .success

structure Report where
  code : Nat
  stdout : String := ""
  stderr : String := ""
  files : FileSystem

/-- What a run depends on. -/
structure World where
  parser : Parser
  packages : Packages
  environment : Environment
  files : FileSystem
  /-- A log has been started in the process before. -/
  logs : Bool

/-- The text of a file, unless it is larger than the limit. -/
def allowedText (files : FileSystem) (limits : SearchLimits) (path : String) :
    Except CommandFault (Option String) := do
  let size ← (files.size path).mapError (.unreadable path)
  if limits.allows size then
    let text ← (files.read path).mapError (.unreadable path)
    .ok (some text)
  else .ok none

/-- The language chosen, or else the one of the file. -/
def languageFor (source : SourceArguments) (path : String) : Except CommandFault Language :=
  match source.language with
  | some language => .ok language
  | none => (Language.ofFile path).mapError .search

/-- Values made for languages, each when it is first asked for. -/
structure PerLanguage (α : Type) where
  made : List (Language × α) := []

/-- The value for a language, with all that are made then. -/
def PerLanguage.get {α ε : Type} (values : PerLanguage α) (make : Language → Except ε α)
    (language : Language) : Except ε (α × PerLanguage α) :=
  match values.made.lookup language with
  | some value => .ok (value, values)
  | none => do
    let value ← make language
    .ok (value, { made := (language, value) :: values.made })

/-- Works on the text of a file with the value for its language; nothing for a file that is too
large. -/
def workOn {α β : Type} (files : FileSystem) (limits : SearchLimits) (source : SourceArguments)
    (make : Language → Except CommandFault α) (work : α → String → Except CommandFault β)
    (values : PerLanguage α) (path : String) : Except CommandFault (Option β × PerLanguage α) := do
  match ← allowedText files limits path with
  | none => .ok (none, values)
  | some text => do
    let language ← languageFor source path
    let (value, values) ← values.get make language
    let result ← work value text
    .ok (some result, values)

/-! ## Searching -/

/-- The template to look for in files of a language. -/
def templateOf (world : World) (source : SourceArguments) (language : Language) :
    Except CommandFault Template :=
  (Template.compile world.parser language source.pattern).mapError .search

/-- The matches of a template in a text. -/
def searchText (world : World) (limits : SearchLimits) (template : Template) (text : String) :
    Except CommandFault (List Finding) := do
  let parsed ← (world.parser.parse template.language text).mapError .search
  .ok (template.findings parsed limits.maxMatches)

/-- The line that shows a match, which ends early when its record cannot be written. -/
def shownLine (world : World) (json : Bool) (path : String) (m : Finding) : Written :=
  if json then
    match world.packages.writeRecord (m.toRecord path) with
    | { text, error := none } => { text := text ++ "\n" }
    | { text, error := some message } => { text, error := some message }
  else { text := m.toLine path }

/-- Shows matches line after line, up to an error. -/
def showMatches (world : World) (json : Bool) (path : String) : List Finding → Written
  | [] => { text := "" }
  | m :: rest =>
    match shownLine world json path m with
    | { text, error := some message } => { text, error := some message }
    | { text, error := none } =>
      let others := showMatches world json path rest
      { others with text := text ++ others.text }

/-- What searching files came to, up to an error. -/
structure GrepReport where
  stdout : String := ""
  found : Nat := 0
  error : Option CommandFault := none

/-- What showing the matches in one file comes to. -/
def GrepReport.ofMatches (world : World) (json : Bool) (path : String) (matched : List Finding) :
    GrepReport :=
  match showMatches world json path matched with
  | { text, error := some message } => { stdout := text, error := some (.encoding message) }
  | { text, error := none } => { stdout := text, found := matched.length }

/-- The report on files of which the first come to `r`; an error is the end of it. -/
def GrepReport.andThen (r others : GrepReport) : GrepReport :=
  match r.error with
  | some _ => r
  | none => { others with stdout := r.stdout ++ others.stdout, found := r.found + others.found }

/-- Searches files in order and shows each match on a line. -/
def grepFiles (world : World) (limits : SearchLimits) (source : SourceArguments) (json : Bool)
    (templates : PerLanguage Template) : List String → GrepReport
  | [] => {}
  | path :: rest =>
    match workOn world.files limits source (templateOf world source) (searchText world limits)
        templates path with
    | .error e => { error := some e }
    | .ok (none, templates) => grepFiles world limits source json templates rest
    | .ok (some matched, templates) =>
      (GrepReport.ofMatches world json path matched).andThen
        (grepFiles world limits source json templates rest)

/-! ## Replacing -/

/-- The rule to replace by in files of a language. -/
def ruleOf (world : World) (source : SourceArguments) (replacement : String)
    (language : Language) : Except CommandFault ReplacementRule := do
  let template ← templateOf world source language
  (ReplacementRule.ofTemplate template replacement).mapError .search

/-- A text after replacing by a rule. -/
def replaceInText (world : World) (limits : SearchLimits) (rule : ReplacementRule) (text : String) :
    Except CommandFault Replaced :=
  (rule.apply world.parser rule.template.language limits.maxMatches text).mapError .search

/-- Writes a text after replacing back to its file, if it has changed and is to go there. -/
def writeBack (files : FileSystem) (inPlace : Bool) (path : String) (replaced : Replaced) :
    Except CommandFault FileSystem :=
  if inPlace && replaced.hasChanges then
    (files.write path replaced.text).mapError (.unwritable path)
  else .ok files

/-- What replacing in files came to, up to an error. -/
structure ReplaceReport where
  stdout : String := ""
  replacements : Nat := 0
  changed : Nat := 0
  files : FileSystem
  error : Option CommandFault := none

/-- Replaces in files in order, and prints the results or puts them back in place. -/
def replaceInFiles (world : World) (limits : SearchLimits) (source : SourceArguments)
    (replacement : String) (inPlace : Bool) (rules : PerLanguage ReplacementRule) :
    List String → ReplaceReport
  | [] => { files := world.files }
  | path :: rest =>
    match workOn world.files limits source (ruleOf world source replacement)
        (replaceInText world limits) rules path with
    | .error e => { files := world.files, error := some e }
    | .ok (none, rules) => replaceInFiles world limits source replacement inPlace rules rest
    | .ok (some replaced, rules) =>
      let others : ReplaceReport :=
        match writeBack world.files inPlace path replaced with
        | .error e => { files := world.files, error := some e }
        | .ok files =>
          replaceInFiles { world with files } limits source replacement inPlace rules rest
      { others with
        stdout := (if inPlace then "" else replaced.text) ++ others.stdout
        replacements := replaced.replacements + others.replacements
        changed := (if replaced.hasChanges then 1 else 0) + others.changed }

/-- The line that says how much was replaced. -/
def ReplaceReport.summary (r : ReplaceReport) : String :=
  toString r.replacements ++ " replacement(s) in " ++ toString r.changed ++ " file(s)\n"

/-! ## Runs -/

/-- The line on the error output for an error. -/
def errorLine (e : CommandFault) : String :=
  programName ++ ": " ++ e.message ++ "\n"

/-- How a run ends that could not go on. -/
def Report.ofFault (e : CommandFault) (files : FileSystem) : Report :=
  { code := failureCode, stderr := errorLine e, files }

/-- How a run ends whose arguments are no command. An exit status that no process can have counts as
failure. -/
def Report.ofRefusal (refusal : Refusal) (files : FileSystem) : Report where
  code :=
    if 0 ≤ refusal.exitCode ∧ refusal.exitCode < 256 then refusal.exitCode.toNat else failureCode
  stdout := if refusal.toStderr then "" else refusal.text
  stderr := if refusal.toStderr then refusal.text else ""
  files := files

/-- How a run ends that has searched files. -/
def GrepReport.toReport (r : GrepReport) (files : FileSystem) : Report :=
  match r.error with
  | some e => { code := failureCode, stdout := r.stdout, stderr := errorLine e, files }
  | none => { code := (Outcome.ofCount r.found).code, stdout := r.stdout, files }

/-- How a run ends that has replaced in files. -/
def ReplaceReport.toReport (r : ReplaceReport) : Report :=
  match r.error with
  | some e => { code := failureCode, stdout := r.stdout, stderr := errorLine e, files := r.files }
  | none =>
    { code := (Outcome.ofCount r.replacements).code
      stdout := r.stdout
      stderr := r.summary
      files := r.files }

/-- Runs a command under its limits. -/
def runCommand (world : World) (limits : SearchLimits) : Command → Report
  | .grep source json => (grepFiles world limits source json {} source.paths).toReport world.files
  | .replace source replacement inPlace =>
    (replaceInFiles world limits source replacement inPlace {} source.paths).toReport
  | .explain pattern language =>
    match Template.compile world.parser language pattern with
    | .error e => .ofFault (.search e) world.files
    | .ok template =>
      { code := Outcome.success.code
        stdout := Pattern.renderSequence template.pattern.elements ++ "\n"
        files := world.files }

namespace World

/-- Starts the log, unless the process has one. -/
def startLog (world : World) (filter : String) (format : LogFormat) : Except CommandFault Unit :=
  if world.logs then .ok ()
  else do
    (world.packages.checkLogFilter filter).mapError .logFilter
    (world.packages.startLog filter format).mapError .logging

/-- Loads the settings for the arguments and starts the log by them. -/
def prepare (world : World) (arguments : Arguments) : Except CommandFault Settings := do
  let loaded := world.packages.loadSettings world.files world.environment arguments.forSettings
  let settings ← loaded.mapError .settings
  world.startLog settings.logFilter settings.logFormat
  return settings

/-- Runs the program. Nothing is searched or replaced before all is prepared. -/
def run (world : World) (arguments : List String) : Report :=
  match world.packages.readArguments arguments with
  | .error refusal => .ofRefusal refusal world.files
  | .ok arguments =>
    match world.prepare arguments with
    | .error e => .ofFault e world.files
    | .ok settings => runCommand world settings.limits arguments.command

end World
end StructuralSearch.CommandLine
