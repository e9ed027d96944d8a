/-
Reading a command line.

Options take a value, in the next argument or in the same one; the flag `verbose` takes none. Every one of them may be
given once. Asking for the version or for help ends the reading at once, and so does an argument that is none of these; what
else is wrong shows at the end.
-/
import CfgMembership.CommandLine.Arguments

namespace CfgMembership.Standard

open CommandLine

inductive Parameter where
  | grammar
  | queries
  | config
  | logFile
  | logLevel
  deriving DecidableEq, Repr

/-- everything that an argument can name -/
inductive Switch where
  | parameter (p : Parameter)
  | verbose
  | help
  | version
  deriving DecidableEq, Repr

def Switch.ofLetter? : Char → Option Switch
  | 'g' => some (.parameter .grammar)
  | 'q' => some (.parameter .queries)
  | 'c' => some (.parameter .config)
  | 'v' => some .verbose
  | 'h' => some .help
  | 'V' => some .version
  | _ => none

/-- the switch of a name after two dashes -/
def Switch.ofName? : String → Option Switch
  | "grammar" => some (.parameter .grammar)
  | "queries" => some (.parameter .queries)
  | "config" => some (.parameter .config)
  | "logfile" => some (.parameter .logFile)
  | "loglevel" => some (.parameter .logLevel)
  | "verbose" => some .verbose
  | "help" => some .help
  | "version" => some .version
  | _ => none

/-- what a command line can ask for besides a run, or that it makes no sense -/
inductive Ending where
  | help
  | version
  | misuse
  deriving DecidableEq, Repr

/-! ## Reading -/

/-- one use of a switch, with its value once that is known -/
inductive Use where
  | parameter (p : Parameter) (value : Option String)
  | verbose
  deriving DecidableEq, Repr

/-- arguments read so far: the uses, an option that waits for its value, and whether only plain arguments may follow -/
structure Reading where
  uses : List Use := []
  awaited : Option Parameter := none
  plainOnly : Bool := false
  deriving DecidableEq, Repr

/-- the option that waited gets a value, or none -/
def Reading.settle (r : Reading) (value : Option String) : Reading :=
  match r.awaited with
  | none => r
  | some p => { r with uses := r.uses ++ [.parameter p value], awaited := none }

/-- a value written after a letter or a name, without equals signs before it -/
def attached (value : List Char) : String := String.ofList (value.dropWhile (· == '='))

/-- letters after one dash: flags, and then at most one option with the rest as its value -/
def readLetters (r : Reading) : List Char → Except Ending Reading
  | [] => .ok r
  | c :: rest =>
    match Switch.ofLetter? c with
    | none => .error .misuse
    | some .help => .error .help
    | some .version => .error .version
    | some .verbose => readLetters { r with uses := r.uses ++ [.verbose] } rest
    | some (.parameter p) =>
      if rest.isEmpty then .ok { r with awaited := some p }
      else .ok { r with uses := r.uses ++ [.parameter p (some (attached rest))] }

/-- a name after dashes, with a value if an equals sign follows -/
def readName (r : Reading) (text : List Char) : Except Ending Reading :=
  let name := text.takeWhile (· != '=')
  let value := text.dropWhile (· != '=')
  match Switch.ofName? (String.ofList name) with
  | none => .error .misuse
  | some .help => .error .help
  | some .version => .error .version
  | some .verbose => .ok { r with uses := r.uses ++ [.verbose] }
  | some (.parameter p) =>
    if value.isEmpty then .ok { r with awaited := some p }
    else .ok { r with uses := r.uses ++ [.parameter p (some (attached value))] }

def readArgument (r : Reading) (argument : String) : Except Ending Reading :=
  if r.plainOnly then .error .misuse
  else
    match argument.toList with
    | ['-', '-'] => .ok { r with plainOnly := true }
    | '-' :: '-' :: rest => readName (r.settle none) (rest.dropWhile (· == '-'))
    | '-' :: c :: rest => readLetters (r.settle none) (c :: rest)
    | _ => if r.awaited.isSome then .ok (r.settle (some argument)) else .error .misuse

def readArguments (r : Reading) : List String → Except Ending Reading
  | [] => .ok r
  | argument :: rest => do readArguments (← readArgument r argument) rest

/-! ## The whole command line -/

/-- the values that an option was used with -/
def Reading.values (r : Reading) (p : Parameter) : List (Option String) :=
  r.uses.filterMap fun
    | .parameter q value => if q = p then some value else none
    | .verbose => none

/-- the value of an option that was used once at most, and then with a value -/
def Reading.value? (r : Reading) (p : Parameter) : Option (Option String) :=
  match r.values p with
  | [] => some none
  | [some value] => some (some value)
  | _ => none

/-- the arguments, if every switch was used properly -/
def Reading.arguments? (r : Reading) : Option Arguments := do
  guard r.awaited.isNone
  guard (r.uses.count .verbose ≤ 1)
  let logLevel ← r.value? .logLevel
  guard (logLevel.all levelNames.contains)
  return {
    grammar := ← r.value? .grammar
    queries := ← r.value? .queries
    config := ← r.value? .config
    logFile := ← r.value? .logFile
    logLevel
    verbose := r.uses.contains .verbose }

/-- the arguments of the run that a command line asks for -/
def commandLine (arguments : List String) : Except Ending Arguments :=
  match readArguments {} arguments with
  | .error ending => .error ending
  | .ok r =>
    match r.arguments? with
    | none => .error .misuse
    | some arguments => .ok arguments

/-! ## The end without a run -/

def helpText : String :=
  versionText ++ "
Decides whether words belong to the language of a context-free grammar

USAGE:
    kart [FLAGS] [OPTIONS]

FLAGS:
    -h, --help       Prints help information
    -V, --version    Prints version information
    -v, --verbose    Print a summary of the answered queries to standard error

OPTIONS:
    -c, --config <FILE>       YAML configuration file
    -g, --grammar <FILE>      Grammar description file [default: grammar.txt]
        --logfile <FILE>      Write logs to FILE
        --loglevel <LEVEL>    Log level [possible values: error, warn, info, debug, trace]
    -q, --queries <FILE>      File holding the query count and queries [default: standard input]
"

def misuseText : String :=
  "error: The arguments are not understood

USAGE:
    kart [FLAGS] [OPTIONS]

For more information try --help
"

def Ending.farewell : Ending → Farewell
  | .help => { exit := 0, output := helpText }
  | .version => { exit := 0, output := versionText ++ "\n" }
  | .misuse => { exit := 1, messages := misuseText }

end CfgMembership.Standard
