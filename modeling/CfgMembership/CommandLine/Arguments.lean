/-
The arguments of a run, and how the program ends when a command line asks for none.
-/
namespace CfgMembership.CommandLine

def versionText : String := "kart 0.1.0"

/-- the log levels that may be asked for -/
def levelNames : List String := ["error", "warn", "info", "debug", "trace"]

structure Arguments where
  grammar : Option String := none
  queries : Option String := none
  config : Option String := none
  logFile : Option String := none
  logLevel : Option String := none
  verbose : Bool := false
  deriving DecidableEq, Repr

/-- the end of a program that was asked for help, for its version, or for nothing that makes sense -/
structure Farewell where
  exit : Nat
  output : String := ""
  messages : String := ""
  deriving DecidableEq, Repr

end CfgMembership.CommandLine
