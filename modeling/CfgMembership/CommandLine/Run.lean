/-
Running the command line.

A run goes through four stages: it loads the configuration, opens the log, loads the grammar and answers the queries. The
first stage that fails ends the run with one fatal message and the exit code 1. Settings come from the command line, or
else from the configuration. Answers go to standard output and messages to standard error; log entries go to where the log
leads, if there is one. That may be standard output or standard error, too.
-/
import CfgMembership.CommandLine.Libraries
import CfgMembership.Description.Reading
import CfgMembership.Query
import CfgMembership.Source.Growing

namespace CfgMembership.CommandLine

/-- what a run finds: the files, standard input, standard output, whether messages are coloured, and the time as log lines
give it -/
structure Surroundings where
  files : Files
  input : List UInt8 := []
  stdout : Device := .unbounded
  coloured : Bool := false
  time : String

/-- what a run leaves: its exit code, what standard output and standard error show, and the files -/
structure Outcome where
  exit : Nat
  output : String := ""
  messages : String := ""
  files : Files

variable (lib : Libraries) (env : Surroundings)

/-! ## Logging -/

def levelOf? : String → Option Log.Level
  | "error" => some .error
  | "warn" => some .warn
  | "info" => some .info
  | "debug" => some .debug
  | "trace" => some .trace
  | _ => none

/-- the entries that a threshold lets through, as the lines of a log -/
def logLines (threshold : Log.Threshold) (entries : List Log.Entry) : List String :=
  (entries.filter (threshold.keeps ·.level)).map fun entry => lib.strip (lib.encode env.time entry)

/-- a run under way. What is written to the log file, or to the end of standard input, is kept apart until the files are looked
at, or the input is read. -/
structure Session where
  files : Files
  channel : Option Channel := none
  threshold : Log.Threshold := none
  logText : String := ""
  output : String := ""
  messages : String := ""

namespace Session

def currentFiles (s : Session) : Files :=
  match s.channel with
  | some (.file place) => s.files.append place s.logText.toUTF8.data.toList
  | _ => s.files

/-- the bytes of the log file as it is now, if a path leads to it -/
def logContent? (s : Session) (path : String) : Option (List UInt8) :=
  match s.channel, s.files.locate path, s.currentFiles.find path with
  | some (.file logPlace), .ok place, .ok (.file content) => if place = logPlace then some content else none
  | _, _, _ => none

def say (s : Session) (message : String) : Session := { s with messages := s.messages ++ message ++ "\n" }

/-- writes entries to the log, as far as its level lets them through -/
def log (s : Session) (entries : List Log.Entry) : Session :=
  let lines := logLines lib env s.threshold entries
  match s.channel with
  | some .output => { s with output := s.output ++ String.join lines }
  | some .messages => { s with messages := s.messages ++ String.join lines }
  | some (.broken error) => { s with messages := s.messages ++ String.join (lines.map fun _ => lib.complain error ++ "\n") }
  | _ => { s with logText := s.logText ++ String.join lines }

def outcome (s : Session) (exit : Nat) : Outcome := ⟨exit, s.output, s.messages, s.currentFiles⟩

def fatal (s : Session) (message : String) : Outcome :=
  let s := s.say (lib.paint env.coloured .onBrightRed "fatal" ++ ": " ++ message)
  (s.log lib env [⟨.error, message⟩]).outcome 1

end Session

/-! ## Stages -/

def defaultGrammarPath : String := "grammar.txt"

/-- what a run goes by; without a path, queries come from standard input and there is no log -/
structure Settings where
  grammar : String
  queries : Option String
  logFile : Option String
  logLevel : Option String
  deriving DecidableEq, Repr

/-- the settings of a run: the command line goes before the configuration -/
def Settings.choose (arguments : Arguments) (configuration : Configuration) : Settings where
  grammar := (arguments.grammar.or configuration.grammar).getD defaultGrammarPath
  queries := arguments.queries.or configuration.queries
  logFile := arguments.logFile.or configuration.logFile
  logLevel := arguments.logLevel.or configuration.logLevel

def loadConfiguration (path : Option String) : Except String Configuration :=
  match path with
  | none => .ok {}
  | some path =>
    match Configuration.read lib.deserialize env.files path with
    | .ok configuration => .ok configuration
    | .error fault => .error s!"Error loading configuration {path}: {fault.message}"

/-- the threshold that a level asks for; an unknown one is answered with a message and the level of information -/
def chooseThreshold (level : Option String) (s : Session) : Log.Threshold × Session :=
  match level with
  | none => (some .info, s)
  | some name =>
    match levelOf? name with
    | some level => (some level, s)
    | none =>
      let message := s!"Invalid log level: '{name}'. Falling back to INFO"
      (some .info, s.say (lib.paint env.coloured .brightRed "error" ++ ": " ++ message))

def openLog (path level : Option String) (s : Session) : Except (String × Session) Session :=
  match path with
  | none => .ok s
  | some path =>
    let (threshold, s) := chooseThreshold lib env level s
    match lib.openLog s.files path with
    | .error error => .error (s!"Failed to build log file appender: {error.message}", s)
    | .ok (channel, files) => .ok { s with files, threshold, channel := some channel }

def loadGrammar (path : String) (s : Session) : Except String (Grammar Char) × Session :=
  let source : FileSource := { disk := s.currentFiles.find path }
  let reading := Grammar.read s.threshold source
  let s := s.log lib env reading.log
  match reading.result with
  | .error fault =>
    (.error s!"Error loading grammar {path}: {(Description.LoadFault.mk fault).message}", s)
  | .ok g => (.ok g, s.log lib env [⟨.info, s!"Loaded grammar {path}"⟩])

/-- what answering a query adds to the log -/
def queryLines (g : Grammar Char) (threshold : Log.Threshold) (line : String) : String :=
  let word := Text.trim line
  String.join (logLines lib env threshold (Query.entries g threshold word (g.recognize word.toList)))

/-- answers, each after what answering it has added to the log -/
def interleave : (logged answers : List String) → String
  | log :: logged, answer :: answers => log ++ answer ++ interleave logged answers
  | logged, answers => String.join logged ++ String.join answers

/-- what answering the queries of a source gives. When the log leads to standard output, what a query adds to it is shown
before the answer. -/
def answerFrom {ς : Type} [LineSource ς] (g : Grammar Char) (source : ς) (s : Session) :
    Except Query.Fault Query.Metrics × Session :=
  match s.channel with
  | some .output =>
    let outcome := Query.run g s.threshold ({ source } : RecordedSource ς) { toDevice := env.stdout }
    let logged := (outcome.source.given.toList.drop 1).map (queryLines lib env g s.threshold)
    let answers := (Text.pieces (· == '\n') outcome.output.text.toList).map String.ofList
    (outcome.result, { s with output := s.output ++ interleave logged answers })
  | _ =>
    let outcome := Query.run g s.threshold source { toDevice := env.stdout }
    (outcome.result, { s.log lib env outcome.log with output := outcome.output.text })

/-- what a line of the queries adds to a log that they are read from; the first line is no query -/
def logReply (g : Grammar Char) (threshold : Log.Threshold) (number : Nat) (line : String) : ByteArray :=
  if number = 0 then ByteArray.empty else (queryLines lib env g threshold line).toUTF8

/-- answers the queries of a file, or of standard input. Where the log leads to the same place, that grows on the way. -/
def answerQueries (g : Grammar Char) (path : Option String) (s : Session) :
    Except Query.Fault Query.Metrics × Session :=
  let growing (content : ByteArray) (s : Session) : GrowingSource :=
    { content, reply := logReply lib env g s.threshold }
  match path with
  | none =>
    match s.channel with
    | some .input => answerFrom lib env g (growing (env.input.toByteArray ++ s.logText.toUTF8) s) s
    | _ => answerFrom lib env g (ConsoleSource.mk (.file env.input)) s
  | some path =>
    let s := s.log lib env [⟨.info, s!"Reading queries from {path}"⟩]
    match s.logContent? path with
    | some content => answerFrom lib env g (growing content.toByteArray s) s
    | none => answerFrom lib env g ({ disk := s.currentFiles.find path } : FileSource) s

/-- a count with its name, coloured unless it is zero -/
def countText (colour : Colour) (count : Nat) (name : String) : String :=
  let text := s!"{count} {name}"
  if count > 0 then lib.paint env.coloured colour text else text

def statusText (elapsed : Nat) (m : Query.Metrics) : String :=
  s!"COMPLETE: {elapsed}ms : {m.total} queries, " ++ countText lib env .brightGreen m.accepted "accepted" ++ ", " ++
    countText lib env .yellow m.rejected "rejected" ++ ", " ++ countText lib env .brightRed m.malformed "malformed"

/-- the four stages: the outcome of a run that fails in one of them, or the counts of a run that does not -/
def stages (arguments : Arguments) : Except Outcome (Query.Metrics × Session) :=
  let s : Session := { files := env.files }
  match loadConfiguration lib env arguments.config with
  | .error message => .error (s.fatal lib env message)
  | .ok configuration =>
    let settings := Settings.choose arguments configuration
    match openLog lib env settings.logFile settings.logLevel s with
    | .error (message, s) => .error (s.fatal lib env message)
    | .ok s =>
      match loadGrammar lib env settings.grammar (s.log lib env [⟨.info, "Starting " ++ versionText⟩]) with
      | (.error message, s) => .error (s.fatal lib env message)
      | (.ok g, s) =>
        match answerQueries lib env g settings.queries s with
        | (.error fault, s) => .error (s.fatal lib env s!"Error answering queries: {fault.message}")
        | (.ok metrics, s) => .ok (metrics, s)

/-- the end of a run that took some milliseconds to get through its stages -/
def conclude (elapsed : Nat) (verbose : Bool) : Except Outcome (Query.Metrics × Session) → Outcome
  | .error outcome => outcome
  | .ok (metrics, s) =>
    let status := statusText lib env elapsed metrics
    let s := if verbose then s.say status else s
    (s.log lib env [⟨.info, status⟩]).outcome 0

def check (elapsed : Nat) (arguments : Arguments) : Outcome :=
  conclude lib env elapsed arguments.verbose (stages lib env arguments)

/-! ## The program -/

def perform (elapsed : Nat) (arguments : List String) : Outcome :=
  match lib.parse arguments with
  | .ok arguments => check lib env elapsed arguments
  | .error farewell => { farewell with files := env.files }

end CfgMembership.CommandLine
