/-
What a run relies on in the libraries that it is built on.
-/
import CfgMembership.CommandLine.Libraries
import CfgMembership.Proofs.Files

namespace CfgMembership.CommandLine.Libraries

variable (lib : Libraries)

/-- a log level that is given on a command line is one of those that may be asked for -/
def KeepsLevels : Prop :=
  ∀ arguments a name, lib.parse arguments = .ok a → a.logLevel = some name → name ∈ levelNames

/-- opening a log, when the directory that its path leads into is there, does not change where paths lead, unless they lead to
the log file -/
def OpensQuietly : Prop :=
  ∀ (files files' : Files) (path path' : String) (channel : Channel) (node : Node), files.ParentExists path →
    lib.openLog files path = .ok (channel, files') → (∀ place, channel = .file place → files'.locate path' ≠ .ok place) →
      (files'.find path' = .ok node ↔ files.find path' = .ok node)

end CfgMembership.CommandLine.Libraries
