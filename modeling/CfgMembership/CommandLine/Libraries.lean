/-
The libraries that a run is built on.

How a command line is read, what the settings in a text are, what opening a log file does, how an entry is laid out, which of
it is for terminals only, and what colours look like are not decided by this program. A run takes them as they come.
-/
import CfgMembership.CommandLine.Arguments
import CfgMembership.Configuration
import CfgMembership.Log

namespace CfgMembership.CommandLine

/-- where an open log leads: to a file, to the end of standard input, to what standard output or standard error show, to where
nobody looks, or to where nothing can be written -/
inductive Channel where
  | file (place : Place)
  | input
  | output
  | messages
  | elsewhere
  | broken (error : IoError)
  deriving DecidableEq, Repr

inductive Colour where
  | brightGreen
  | yellow
  | brightRed
  | onBrightRed
  deriving DecidableEq, Repr

structure Libraries where
  /-- the arguments of the run that a command line asks for, or how the program ends without one -/
  parse : (arguments : List String) → Except Farewell Arguments
  /-- the settings in a text, or what is wrong with it -/
  deserialize : (text : String) → Except String Configuration
  /-- opens a log file: where the log leads then, and the files then -/
  openLog : Files → (path : String) → Except IoError (Channel × Files)
  /-- an entry as a line, with the time -/
  encode : (time : String) → Log.Entry → String
  /-- a text without what is meant for terminals -/
  strip : String → String
  /-- what is said when an entry could not be written to the log -/
  complain : IoError → String
  /-- a text in a colour, if there are to be colours -/
  paint : (coloured : Bool) → Colour → String → String

end CfgMembership.CommandLine
