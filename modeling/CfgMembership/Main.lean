/-
The program: it looks at the files that a run may need, runs, and writes what the run leaves.
-/
import Std.Time.Zoned
import CfgMembership.CommandLine.Run
import CfgMembership.Standard

namespace CfgMembership.Main

open CommandLine

def lib : Libraries := .standard

/-! ## What a run finds -/

/-- the node that a path leads to on disk -/
def observe (path : String) : IO (Option Node) := do
  try
    return some (.file (← IO.FS.readBinFile path).data.toList)
  catch error =>
    match error with
    | .inappropriateType _ 21 _ => return some .directory
    | _ => return none

/-- adds what a path and the paths above it lead to -/
def observeAll (files : Files) (path : String) : IO Files := do
  let steps := Files.steps path
  let mut files := files
  for n in List.range steps.length do
    let above := steps.take (n + 1)
    let place := above.foldl Files.enter (Files.origin path)
    if (files.at? place).isNone then
      if let some node ← observe ("/".intercalate above) then
        files := files.put place node
  return files

/-- everything on standard input -/
partial def readInput (stdin : IO.FS.Stream) (before : ByteArray) : IO ByteArray := do
  let bytes ← stdin.read 65536
  if bytes.isEmpty then return before
  readInput stdin (before ++ bytes)

/-- whether messages are coloured: on a terminal, unless the environment says otherwise -/
def coloured (stdout : IO.FS.Stream) : IO Bool := do
  if ((← IO.getEnv "CLICOLOR_FORCE").getD "0") ≠ "0" then return true
  if (← IO.getEnv "NO_COLOR").isSome then return false
  if (← IO.getEnv "CLICOLOR") = some "0" then return false
  stdout.isTty

def padded (width number : Nat) : String :=
  let digits := toString number
  String.ofList (List.replicate (width - digits.length) '0') ++ digits

/-- the time as log lines give it -/
def timeText : IO String := do
  let now ← Std.Time.PlainDateTime.now
  let date := s!"{padded 4 now.date.year.toInt.toNat}-{padded 2 now.date.month.val.toNat}-{padded 2 now.date.day.val.toNat}"
  return date ++ " " ++ s!"{padded 2 now.time.hour.val.toNat}:{padded 2 now.time.minute.val.toNat}:" ++
    padded 2 now.time.second.val.toNat

/-- the files and the input that a run with these arguments may look at -/
def surroundings (stdin stdout : IO.FS.Stream) (arguments : Arguments) : IO Surroundings := do
  let files ← arguments.config.toList.foldlM observeAll {}
  let env : Surroundings := { files, coloured := ← coloured stdout, time := ← timeText }
  match loadConfiguration lib env arguments.config with
  | .error _ => return env
  | .ok configuration =>
    let settings := Settings.choose arguments configuration
    let logs := settings.logFile.toList.filter fun path => (Standard.device? path).isNone
    let paths := logs ++ [settings.grammar] ++ settings.queries.toList
    let files ← paths.foldlM observeAll files
    let input ← if settings.queries.isSome then pure ByteArray.empty else readInput stdin ByteArray.empty
    return { env with files, input := input.data.toList }

/-! ## What a run leaves -/

def writeFiles (before after : Files) (path : String) : IO Unit := do
  if let .ok (.file content) := after.find path then
    let known := match before.find path with
      | .ok (.file content) => some content.length
      | _ => none
    if known ≠ some content.length then
      let above := (Files.steps path).dropLast
      if above.any (· ≠ "") then IO.FS.createDirAll ("/".intercalate above)
      let handle ← IO.FS.Handle.mk path .append
      handle.write (content.drop (known.getD 0)).toByteArray

def run (stdin stdout stderr : IO.FS.Stream) (commandLine : List String) : IO UInt32 := do
  let began ← IO.monoMsNow
  let (env, outcome) ← match lib.parse commandLine with
    | .ok arguments => do
      let env ← surroundings stdin stdout arguments
      let result := stages lib env arguments
      let elapsed := (← IO.monoMsNow) - began
      pure (env, conclude lib env elapsed arguments.verbose result)
    | .error _ => do
      let env : Surroundings := { files := {}, coloured := ← coloured stdout, time := "" }
      pure (env, perform lib env 0 commandLine)
  stdout.putStr outcome.output
  stdout.flush
  stderr.putStr outcome.messages
  if let .ok arguments := lib.parse commandLine then
    let configuration := (loadConfiguration lib env arguments.config).toOption.getD {}
    for path in (Settings.choose arguments configuration).logFile do
      writeFiles env.files outcome.files path
  return outcome.exit.toUInt32

end CfgMembership.Main

def main (arguments : List String) : IO UInt32 := do
  CfgMembership.Main.run (← IO.getStdin) (← IO.getStdout) (← IO.getStderr) arguments
