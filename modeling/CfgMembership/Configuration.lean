/-
Configuration files.

A blank file gives no setting. What else a text can be, is up to whoever makes out the settings in it.
-/
import CfgMembership.Files
import CfgMembership.Text.Blank

namespace CfgMembership

structure Configuration where
  grammar : Option String := none
  queries : Option String := none
  logFile : Option String := none
  logLevel : Option String := none
  deriving DecidableEq, Repr

namespace Configuration

/-- why a configuration file is of no use -/
inductive Fault where
  | io (error : IoError)
  | malformed (reason : String)
  deriving DecidableEq, Repr

def Fault.message : Fault → String
  | .io error => "IO error: " ++ error.message
  | .malformed reason => "Failed to parse configuration file: " ++ reason

variable (deserialize : String → Except String Configuration)

def parse (text : String) : Except Fault Configuration :=
  if Text.trimChars text.toList = [] then .ok {}
  else
    match deserialize text with
    | .error reason => .error (.malformed reason)
    | .ok configuration => .ok configuration

def read (files : Files) (path : String) : Except Fault Configuration :=
  match files.readText path with
  | .error error => .error (.io error)
  | .ok text => parse deserialize text

end Configuration

end CfgMembership
