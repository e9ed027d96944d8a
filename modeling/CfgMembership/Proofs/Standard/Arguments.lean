/-
Log levels on a command line.

Arguments are those of a run only when all of them make sense, and then the log level is one of those that may be asked for
(`keepsLevels_standard`).
-/
import Mathlib.Data.Option.Basic
import CfgMembership.Proofs.CommandLine.Libraries
import CfgMembership.Standard

namespace CfgMembership

open CommandLine

theorem Standard.Reading.logLevel_of_arguments? {r : Standard.Reading} {a : Arguments} (h : r.arguments? = some a) :
    a.logLevel.all levelNames.contains = true := by
  simp only [arguments?, Option.bind_eq_bind, Option.bind_eq_some_iff, Option.pure_def, Option.some.injEq] at h
  obtain ⟨_, -, _, -, logLevel, -, _, hlevel, _, -, _, -, _, -, _, -, rfl⟩ := h
  unfold guard at hlevel
  split at hlevel
  · assumption
  · cases hlevel

theorem Standard.arguments?_of_commandLine {arguments : List String} {a : Arguments}
    (h : Standard.commandLine arguments = .ok a) : ∃ r : Standard.Reading, r.arguments? = some a := by
  unfold commandLine at h
  split at h
  · cases h
  · split at h
    · cases h
    · rename_i harguments
      cases h
      exact ⟨_, harguments⟩

theorem CommandLine.Libraries.keepsLevels_standard : Libraries.standard.KeepsLevels := by
  intro arguments a name h hname
  simp only [standard] at h
  split at h
  · cases h
  · rename_i hread
    cases h
    obtain ⟨r, hr⟩ := Standard.arguments?_of_commandLine hread
    have hall := Standard.Reading.logLevel_of_arguments? hr
    rw [hname] at hall
    simpa using hall

end CfgMembership
