/-
Log entries: a level and a message. A threshold is the finest level that is kept; with none, nothing is.
-/
namespace CfgMembership.Log

/-- how much an entry matters -/
inductive Level where
  | error
  | warn
  | info
  | debug
  | trace
  deriving DecidableEq, Repr

/-- levels by detail, the coarsest first -/
def Level.detail : Level → Nat
  | .error => 0
  | .warn => 1
  | .info => 2
  | .debug => 3
  | .trace => 4

/-- the name that a log line starts with -/
def Level.name : Level → String
  | .error => "ERROR"
  | .warn => "WARN"
  | .info => "INFO"
  | .debug => "DEBUG"
  | .trace => "TRACE"

structure Entry where
  level : Level
  message : String
  deriving DecidableEq, Repr

/-- the finest level kept, if any -/
abbrev Threshold := Option Level

def Threshold.keeps (threshold : Threshold) (level : Level) : Bool :=
  match threshold with
  | none => false
  | some finest => level.detail ≤ finest.detail

/-- the entries of one level, none of them made when the level is not kept -/
@[macro_inline] def entriesAt (threshold : Threshold) (level : Level) (messages : List String) : List Entry :=
  if threshold.keeps level then messages.map (Entry.mk level) else []

end CfgMembership.Log
