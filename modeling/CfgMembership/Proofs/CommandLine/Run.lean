/-
How a run of the program ends.

A run goes through four stages. `Ends` says, for the stage that fails first and for the run that gets through them all, with
which code the run ends and what it has written to standard output and standard error. `perform_ends`: this is how every
command line that asks for a run ends, whatever libraries the program is built on, when the log shows neither on standard
output nor in the grammar and the queries that are read (`LogApart`), and not on standard error either (`LogSilent`). The log
plays no part in any of it then. A log that leads to standard output or standard error shows there, and one that makes a
directory can make a way to the grammar (`perform_shows_log`).
-/
import Mathlib
import CfgMembership.CommandLine.Run
import CfgMembership.Proofs.CommandLine.Libraries
import CfgMembership.Proofs.Configuration
import CfgMembership.Proofs.Description.Grammar
import CfgMembership.Proofs.Query
import CfgMembership.Proofs.Standard.Arguments

namespace CfgMembership.CommandLine

/-! ## Where a log leads -/

/-- what is logged shows neither on standard output nor in what is read: it goes to no end of standard input or output, and
none of certain paths leads to the log file -/
structure Channel.Apart (channel : Channel) (files : Files) (paths : List String) : Prop where
  output : channel ≠ .output
  input : channel ≠ .input
  file : ∀ place, channel = .file place → ∀ path ∈ paths, files.locate path ≠ .ok place

/-- standard error shows no entry, and nothing of one that could not be written -/
def Channel.Silent (channel : Channel) : Prop := channel ≠ .messages ∧ ∀ error, channel ≠ .broken error

theorem Channel.silent_file (place : Place) : (Channel.file place).Silent := by simp [Channel.Silent]

/-- a path leads to another place than the log file -/
theorem Channel.apart_of_locate {place place' : Place} {files : Files} {path : String}
    (h : files.locate path = .ok place') (hne : place' ≠ place) : (Channel.file place).Apart files [path] where
  output := by simp
  input := by simp
  file := by
    rintro _ ⟨⟩ path' hpath'
    rw [List.mem_singleton.1 hpath', h]
    exact fun heq => hne (Except.ok.inj heq)

/-! ## What a run is to do -/

section Stages

variable (lib : Libraries) (env : Surroundings) (a : Arguments) (c : Configuration)

/-- the configuration of a run: that in the file which the arguments name, or else the empty one -/
def Configured : Prop :=
  match a.config with
  | none => c = {}
  | some path => Configuration.ReadsAs lib.deserialize env.files path (.ok c)

/-- the files of a run when its log file, if it has one, has been opened -/
def LogOpens (files : Files) : Prop :=
  match a.logFile.or c.logFile with
  | none => files = env.files
  | some path => ∃ channel, lib.openLog env.files path = .ok (channel, files)

/-- where the grammar is: the command line goes before the configuration -/
def grammarPath : String := (a.grammar.or c.grammar).getD "grammar.txt"

/-- the grammar that is read, or what is wrong with its description -/
def grammarIn (files : Files) : Except Description.Fault (Grammar Char) :=
  (Grammar.read none ({ disk := files.find (grammarPath a c) } : FileSource)).result

/-- what answering the queries gives, and the text that standard output has taken by then; without a query file, they are on
standard input -/
def answersIn (files : Files) (g : Grammar Char) : Except Query.Fault Query.Metrics × String :=
  match a.queries.or c.queries with
  | none =>
    let run := Query.run g none (ConsoleSource.mk (.file env.input)) { toDevice := env.stdout }
    (run.result, run.output.text)
  | some path =>
    let run := Query.run g none ({ disk := files.find path } : FileSource) { toDevice := env.stdout }
    (run.result, run.output.text)

def Succeeds : Prop :=
  ∃ c files g metrics, Configured lib env a c ∧ LogOpens lib env a c files ∧ grammarIn a c files = .ok g ∧
    (answersIn env a c files g).1 = .ok metrics

/-- what is read once the log is open: the grammar file and, if there is one, the query file -/
def readPaths : List String := grammarPath a c :: (a.queries.or c.queries).toList

/-- the log, if there is one that can be opened, shows neither on standard output nor in the grammar and the queries -/
def LogApart : Prop :=
  ∀ c path channel files, Configured lib env a c → a.logFile.or c.logFile = some path →
    lib.openLog env.files path = .ok (channel, files) → channel.Apart files (readPaths a c)

/-- the log, if there is one that can be opened, does not show on standard error -/
def LogSilent : Prop :=
  ∀ c path channel files, Configured lib env a c → a.logFile.or c.logFile = some path →
    lib.openLog env.files path = .ok (channel, files) → channel.Silent

/-! ## What it says -/

def fatalLine (message : String) : String := lib.paint env.coloured .onBrightRed "fatal" ++ ": " ++ message ++ "\n"

/-- what is said of a log level that is none -/
def levelLine (name : String) : String :=
  lib.paint env.coloured .brightRed "error" ++ ": " ++ s!"Invalid log level: '{name}'. Falling back to INFO" ++ "\n"

/-- what is said before anything else: when there is a log file, that the log level of the configuration is none, unless the
command line gives another -/
def fallbackText : String :=
  match a.logFile.or c.logFile, a.logLevel, c.logLevel with
  | some _, none, some name => if name ∈ levelNames then "" else levelLine lib env name
  | _, _, _ => ""

/-- the code, the standard output and the standard error of a run, by the first stage that fails -/
inductive Ends (elapsed : Nat) : (exit : Nat) → (output messages : String) → Prop where
  | configuration {path : String} {fault : Configuration.Fault} (hpath : a.config = some path)
    (hfault : Configuration.ReadsAs lib.deserialize env.files path (.error fault)) :
    Ends elapsed 1 "" (fatalLine lib env s!"Error loading configuration {path}: {fault.message}")
  | log {c : Configuration} {path : String} {error : IoError} (hc : Configured lib env a c)
    (hpath : a.logFile.or c.logFile = some path) (herror : lib.openLog env.files path = .error error) :
    Ends elapsed 1 ""
      (fallbackText lib env a c ++ fatalLine lib env s!"Failed to build log file appender: {error.message}")
  | grammar {c : Configuration} {files : Files} {fault : Description.Fault} (hc : Configured lib env a c)
    (hlog : LogOpens lib env a c files) (hfault : grammarIn a c files = .error fault) :
    Ends elapsed 1 "" (fallbackText lib env a c ++
      fatalLine lib env s!"Error loading grammar {grammarPath a c}: {(Description.LoadFault.mk fault).message}")
  | queries {c : Configuration} {files : Files} {g : Grammar Char} {fault : Query.Fault} {written : String}
    (hc : Configured lib env a c) (hlog : LogOpens lib env a c files) (hg : grammarIn a c files = .ok g)
    (hfault : answersIn env a c files g = (.error fault, written)) :
    Ends elapsed 1 written (fallbackText lib env a c ++ fatalLine lib env s!"Error answering queries: {fault.message}")
  | success {c : Configuration} {files : Files} {g : Grammar Char} {metrics : Query.Metrics} {written : String}
    (hc : Configured lib env a c) (hlog : LogOpens lib env a c files) (hg : grammarIn a c files = .ok g)
    (hanswers : answersIn env a c files g = (.ok metrics, written)) :
    Ends elapsed 0 written
      (fallbackText lib env a c ++ if a.verbose then statusText lib env elapsed metrics ++ "\n" else "")

end Stages

/-! ## Settings -/

theorem levelOf?_eq_none_iff {name : String} : levelOf? name = none ↔ name ∉ levelNames := by
  unfold levelOf? levelNames
  split <;> simp_all

section Levels

variable (lib : Libraries) (env : Surroundings)

def levelText : Option String → String
  | none => ""
  | some name => if name ∈ levelNames then "" else levelLine lib env name

/-- choosing a threshold says what there is to say of the level, and no more -/
theorem chooseThreshold_snd (level : Option String) (s : Session) :
    (chooseThreshold lib env level s).2 = { s with messages := s.messages ++ levelText lib env level } := by
  cases level with
  | none => simp [chooseThreshold, levelText]
  | some name =>
    unfold chooseThreshold levelText
    cases h : levelOf? name with
    | some level =>
      have hname : name ∈ levelNames := by
        by_contra hname
        rw [levelOf?_eq_none_iff.2 hname] at h
        cases h
      simp [h, hname]
    | none => simp [h, levelOf?_eq_none_iff.1 h, Session.say, levelLine, String.append_assoc]

variable {lib env} {a : Arguments} {c : Configuration}

theorem fallbackText_of_none (h : a.logFile.or c.logFile = none) : fallbackText lib env a c = "" := by
  simp [fallbackText, h]

/-- only the configuration can give a level that is none -/
theorem fallbackText_of_some {path : String} (h : a.logFile.or c.logFile = some path)
    (hlevel : ∀ name, a.logLevel = some name → name ∈ levelNames) :
    fallbackText lib env a c = levelText lib env (a.logLevel.or c.logLevel) := by
  unfold fallbackText
  rw [h]
  cases ha : a.logLevel with
  | some name => simp [levelText, hlevel name ha]
  | none => cases c.logLevel <;> rfl

end Levels

/-! ## Sessions -/

/-- what is known of a session: where its log leads, its files, what standard output shows, and what standard error shows
unless the log shows there -/
structure Session.Stands (s : Session) (target : Option Channel) (files : Files) (output messages : String) : Prop where
  channel : s.channel = target
  files : s.files = files
  output : s.output = output
  messages : (∀ channel ∈ target, channel.Silent) → s.messages = messages

/-- what is known of the end of a session -/
structure Outcome.Shows (o : Outcome) (target : Option Channel) (exit : Nat) (output messages : String) : Prop where
  exit : o.exit = exit
  output : o.output = output
  messages : (∀ channel ∈ target, channel.Silent) → o.messages = messages

namespace Session.Stands

variable (lib : Libraries) (env : Surroundings) {s : Session} {target : Option Channel} {files : Files}
  {paths : List String} {path output messages : String}

variable (h : s.Stands target files output messages)

include h

theorem say (message : String) : (s.say message).Stands target files output (messages ++ message ++ "\n") where
  channel := h.channel
  files := h.files
  output := h.output
  messages hsilent := by simp [Session.say, h.messages hsilent]

variable (hapart : ∀ channel ∈ target, channel.Apart files paths)

include hapart

/-- what is logged changes nothing but the log, and standard error if the log shows there -/
theorem log (entries : List Log.Entry) : (s.log lib env entries).Stands target files output messages := by
  obtain ⟨rfl, rfl, rfl, hmessages⟩ := h
  unfold Session.log
  dsimp only
  split
  · rename_i hchannel
    exact absurd rfl (hapart _ hchannel).output
  · rename_i hchannel
    exact ⟨rfl, rfl, rfl, fun hsilent => absurd rfl (hsilent _ hchannel).1⟩
  · rename_i error hchannel
    exact ⟨rfl, rfl, rfl, fun hsilent => absurd rfl ((hsilent _ hchannel).2 error)⟩
  · exact ⟨rfl, rfl, rfl, hmessages⟩

theorem fatal (message : String) :
    (s.fatal lib env message).Shows target 1 output (messages ++ fatalLine lib env message) := by
  have hlogged := (h.say (lib.paint env.coloured .onBrightRed "fatal" ++ ": " ++ message)).log lib env hapart
    [⟨.error, message⟩]
  exact ⟨rfl, hlogged.output, fun hsilent =>
    (hlogged.messages hsilent).trans (by simp [fatalLine, String.append_assoc])⟩

/-- a run that succeeds says at most how it went -/
theorem conclude (elapsed : Nat) (verbose : Bool) (metrics : Query.Metrics) :
    (CommandLine.conclude lib env elapsed verbose (.ok (metrics, s))).Shows target 0 output
      (messages ++ if verbose then statusText lib env elapsed metrics ++ "\n" else "") := by
  cases verbose with
  | false =>
    have hlogged := h.log lib env hapart [⟨.info, statusText lib env elapsed metrics⟩]
    exact ⟨rfl, hlogged.output, fun hsilent => (hlogged.messages hsilent).trans (by simp)⟩
  | true =>
    have hlogged := (h.say (statusText lib env elapsed metrics)).log lib env hapart
      [⟨.info, statusText lib env elapsed metrics⟩]
    exact ⟨rfl, hlogged.output, fun hsilent => (hlogged.messages hsilent).trans (by simp [String.append_assoc])⟩

/-- what is written to the log does not show elsewhere -/
theorem find_currentFiles (hpath : path ∈ paths) : s.currentFiles.find path = files.find path := by
  obtain ⟨rfl, rfl, -, -⟩ := h
  unfold currentFiles
  split
  · rename_i place hplace
    exact Files.find_append ((hapart _ hplace).file place rfl path hpath)
  · rfl

theorem logContent?_eq_none (hpath : path ∈ paths) : s.logContent? path = none := by
  obtain ⟨rfl, rfl, -, -⟩ := h
  unfold logContent?
  split
  · rename_i logPlace place _ hlog hplace _
    rw [if_neg]
    rintro rfl
    exact (hapart _ hlog).file place rfl path hpath hplace
  · rfl

end Session.Stands

/-! ## What there is to find -/

section Unique

variable {lib : Libraries} {env : Surroundings} {a : Arguments} {c : Configuration}

theorem loadConfiguration_eq_ok_iff : loadConfiguration lib env a.config = .ok c ↔ Configured lib env a c := by
  unfold loadConfiguration Configured
  cases a.config with
  | none => simp [eq_comm]
  | some path =>
    simp only [← Configuration.read_eq_iff]
    cases Configuration.read lib.deserialize env.files path <;> simp

theorem loadConfiguration_eq_error_iff {message : String} : loadConfiguration lib env a.config = .error message ↔
    ∃ path fault, a.config = some path ∧ Configuration.ReadsAs lib.deserialize env.files path (.error fault) ∧
      message = s!"Error loading configuration {path}: {fault.message}" := by
  unfold loadConfiguration
  cases a.config with
  | none => simp
  | some path =>
    simp only [← Configuration.read_eq_iff]
    cases h : Configuration.read lib.deserialize env.files path <;> simp [h, eq_comm]

theorem Configured.unique {c' : Configuration} (h : Configured lib env a c) (h' : Configured lib env a c') : c = c' := by
  rw [← loadConfiguration_eq_ok_iff] at h h'
  exact Except.ok.inj (h.symm.trans h')

theorem LogOpens.unique {files files' : Files} (h : LogOpens lib env a c files) (h' : LogOpens lib env a c files') :
    files = files' := by
  unfold LogOpens at h h'
  cases hpath : a.logFile.or c.logFile with
  | none =>
    rw [hpath] at h h'
    exact h.trans h'.symm
  | some path =>
    rw [hpath] at h h'
    obtain ⟨channel, h⟩ := h
    obtain ⟨channel', h'⟩ := h'
    rw [h] at h'
    cases h'
    rfl

end Unique

/-! ## Stages -/

section Walk

variable (lib : Libraries) (env : Surroundings) (g : Grammar Char) {a : Arguments} {c : Configuration} {elapsed : Nat}
  {s : Session} {target : Option Channel} {files : Files} {paths : List String} {output messages : String}

section Apart

variable (h : s.Stands target files output messages) (hapart : ∀ channel ∈ target, channel.Apart files paths)

include h hapart

/-- loading the grammar gives what reading its file gives -/
theorem loadGrammar_of_stands (hpath : grammarPath a c ∈ paths) :
    (loadGrammar lib env (grammarPath a c) s).1 =
      (match grammarIn a c files with
        | .error fault => .error s!"Error loading grammar {grammarPath a c}: {(Description.LoadFault.mk fault).message}"
        | .ok g => .ok g) ∧
    (loadGrammar lib env (grammarPath a c) s).2.Stands target files output messages := by
  have hresult : (Grammar.read s.threshold ({ disk := files.find (grammarPath a c) } : FileSource)).result =
      grammarIn a c files := by
    rw [grammarIn, Grammar.result_read, Grammar.result_read]
  have hlogged := h.log lib env hapart
    (Grammar.read s.threshold ({ disk := files.find (grammarPath a c) } : FileSource)).log
  unfold loadGrammar
  rw [h.find_currentFiles hapart hpath]
  dsimp only
  rw [hresult]
  cases grammarIn a c files with
  | error fault => exact ⟨rfl, hlogged⟩
  | ok g => exact ⟨rfl, hlogged.log lib env hapart _⟩

/-- answering gives what a run gives, and writes what a run writes -/
theorem answerFrom_of_stands {ς : Type} [LineSource ς] (source : ς) :
    (answerFrom lib env g source s).1 = (Query.run g none source { toDevice := env.stdout }).result ∧
    (answerFrom lib env g source s).2.Stands target files
      (Query.run g none source { toDevice := env.stdout }).output.text messages := by
  obtain ⟨hresult, houtput⟩ := Query.run_agree g s.threshold none source { toDevice := env.stdout }
  have hlogged := h.log lib env hapart (Query.run g s.threshold source { toDevice := env.stdout }).log
  unfold answerFrom
  split
  · rename_i hchannel
    exact absurd rfl (hapart _ (h.channel.symm.trans hchannel)).output
  · exact ⟨hresult, hlogged.channel, hlogged.files, congrArg Output.text houtput, hlogged.messages⟩

theorem answerQueries_of_stands (hpaths : ∀ path, a.queries.or c.queries = some path → path ∈ paths) :
    (answerQueries lib env g (a.queries.or c.queries) s).1 = (answersIn env a c files g).1 ∧
    (answerQueries lib env g (a.queries.or c.queries) s).2.Stands target files (answersIn env a c files g).2 messages := by
  unfold answerQueries answersIn
  cases hqueries : a.queries.or c.queries with
  | none =>
    dsimp only
    split
    · rename_i hchannel
      exact absurd rfl (hapart _ (h.channel.symm.trans hchannel)).input
    · exact answerFrom_of_stands lib env g h hapart _
  | some path =>
    have hnoted := h.log lib env hapart [⟨.info, s!"Reading queries from {path}"⟩]
    dsimp only
    rw [hnoted.logContent?_eq_none hapart (hpaths path hqueries), hnoted.find_currentFiles hapart (hpaths path hqueries)]
    exact answerFrom_of_stands lib env g hnoted hapart _

end Apart

def afterLog (lib : Libraries) (env : Surroundings) (a : Arguments) (c : Configuration) (s : Session) :
    Except Outcome (Query.Metrics × Session) :=
  match loadGrammar lib env (grammarPath a c) (s.log lib env [⟨.info, "Starting " ++ versionText⟩]) with
  | (.error message, s) => .error (s.fatal lib env message)
  | (.ok g, s) =>
    match answerQueries lib env g (a.queries.or c.queries) s with
    | (.error fault, s) => .error (s.fatal lib env s!"Error answering queries: {fault.message}")
    | (.ok metrics, s) => .ok (metrics, s)

theorem stages_eq (lib : Libraries) (env : Surroundings) (a : Arguments) : stages lib env a =
    match loadConfiguration lib env a.config with
    | .error message => .error (({ files := env.files } : Session).fatal lib env message)
    | .ok c =>
      match openLog lib env (a.logFile.or c.logFile) (a.logLevel.or c.logLevel) { files := env.files } with
      | .error (message, s) => .error (s.fatal lib env message)
      | .ok s => afterLog lib env a c s := rfl

/-- the outcome of a run ends it as `Ends` says; on standard error, the log may show besides if it leads there -/
def EndsWith (lib : Libraries) (env : Surroundings) (a : Arguments) (elapsed : Nat) (o : Outcome) : Prop :=
  ∃ messages, Ends lib env a elapsed o.exit o.output messages ∧ (LogSilent lib env a → o.messages = messages)

variable {lib env} in
theorem Ends.endsWith {exit : Nat} {o : Outcome} (h : Ends lib env a elapsed exit output messages)
    (hshows : o.Shows target exit output messages) (hsilent : LogSilent lib env a → ∀ channel ∈ target, channel.Silent) :
    EndsWith lib env a elapsed o := by
  obtain ⟨rfl, rfl, hmessages⟩ := hshows
  exact ⟨messages, h, fun hlog => hmessages (hsilent hlog)⟩

/-- once the log has been opened, the grammar and the queries decide -/
theorem endsWith_afterLog (hc : Configured lib env a c) (hlog : LogOpens lib env a c files)
    (h : s.Stands target files "" (fallbackText lib env a c))
    (hapart : ∀ channel ∈ target, channel.Apart files (readPaths a c))
    (hsilent : LogSilent lib env a → ∀ channel ∈ target, channel.Silent) :
    EndsWith lib env a elapsed (conclude lib env elapsed a.verbose (afterLog lib env a c s)) := by
  have hstarted := h.log lib env hapart [⟨.info, "Starting " ++ versionText⟩]
  obtain ⟨hresult, hloaded⟩ := loadGrammar_of_stands lib env (a := a) (c := c) hstarted hapart List.mem_cons_self
  unfold afterLog
  generalize loadGrammar lib env (grammarPath a c) (s.log lib env [⟨.info, "Starting " ++ versionText⟩]) = loaded at *
  obtain ⟨result, s⟩ := loaded
  obtain rfl : result = _ := hresult
  cases hread : grammarIn a c files with
  | error fault => exact (Ends.grammar hc hlog hread).endsWith (hloaded.fatal lib env hapart _) hsilent
  | ok g =>
    have hqueries : ∀ path, a.queries.or c.queries = some path → path ∈ readPaths a c :=
      fun path hpath => List.mem_cons_of_mem _ (Option.mem_toList.2 hpath)
    obtain ⟨hresult, hanswered⟩ := answerQueries_of_stands lib env g hloaded hapart hqueries
    dsimp only
    generalize answerQueries lib env g (a.queries.or c.queries) s = answered at *
    obtain ⟨result, s⟩ := answered
    obtain rfl : result = _ := hresult
    rcases hanswers : answersIn env a c files g with ⟨fault | metrics, written⟩
    · rw [hanswers] at hanswered
      exact (Ends.queries hc hlog hread hanswers).endsWith (hanswered.fatal lib env hapart _) hsilent
    · rw [hanswers] at hanswered
      exact (Ends.success hc hlog hread hanswers).endsWith (hanswered.conclude lib env hapart _ _ _) hsilent

theorem apart_of_none (files : Files) : ∀ channel ∈ (none : Option Channel), channel.Apart files [] := by simp

theorem stands_start : ({ files := env.files } : Session).Stands none env.files "" "" := ⟨rfl, rfl, rfl, fun _ => rfl⟩

theorem openLog_of_error {path : String} {error : IoError} (level : Option String)
    (h : lib.openLog env.files path = .error error) : ∃ s, openLog lib env (some path) level { files := env.files } =
      .error (s!"Failed to build log file appender: {error.message}", s) ∧
        s.Stands none env.files "" (levelText lib env level) := by
  simp only [openLog, chooseThreshold_snd, h]
  exact ⟨_, rfl, rfl, rfl, rfl, fun _ => String.empty_append⟩

theorem openLog_of_ok {path : String} {channel : Channel} (level : Option String)
    (h : lib.openLog env.files path = .ok (channel, files)) :
    ∃ s, openLog lib env (some path) level { files := env.files } = .ok s ∧
      s.Stands (some channel) files "" (levelText lib env level) := by
  simp only [openLog, chooseThreshold_snd, h]
  exact ⟨_, rfl, rfl, rfl, rfl, fun _ => String.empty_append⟩

/-- once the configuration has been loaded, the log and what comes after it decide -/
theorem endsWith_openLog (hlevel : ∀ name, a.logLevel = some name → name ∈ levelNames) (hapart : LogApart lib env a)
    (hc : Configured lib env a c) : EndsWith lib env a elapsed (conclude lib env elapsed a.verbose
      (match openLog lib env (a.logFile.or c.logFile) (a.logLevel.or c.logLevel) { files := env.files } with
        | .error (message, s) => .error (s.fatal lib env message)
        | .ok s => afterLog lib env a c s)) := by
  cases hpath : a.logFile.or c.logFile with
  | none =>
    have hlog : LogOpens lib env a c env.files := by simp [LogOpens, hpath]
    have hstands : ({ files := env.files } : Session).Stands none env.files "" (fallbackText lib env a c) := by
      rw [fallbackText_of_none hpath]
      exact stands_start env
    exact endsWith_afterLog lib env hc hlog hstands (by simp) (by simp)
  | some path =>
    cases hopen : lib.openLog env.files path with
    | error error =>
      obtain ⟨s, hsession, hstands⟩ := openLog_of_error lib env (a.logLevel.or c.logLevel) hopen
      rw [hsession]
      rw [← fallbackText_of_some hpath hlevel] at hstands
      exact (Ends.log hc hpath hopen).endsWith (hstands.fatal lib env (apart_of_none _) _) (by simp)
    | ok opened =>
      obtain ⟨channel, files⟩ := opened
      obtain ⟨s, hsession, hstands⟩ := openLog_of_ok lib env (a.logLevel.or c.logLevel) hopen
      rw [hsession]
      rw [← fallbackText_of_some hpath hlevel] at hstands
      have hlog : LogOpens lib env a c files := by simp [LogOpens, hpath, hopen]
      refine endsWith_afterLog lib env hc hlog hstands ?_ fun hsilent => ?_
      · rintro _ ⟨⟩
        exact hapart c path channel files hc hpath hopen
      · rintro _ ⟨⟩
        exact hsilent c path channel files hc hpath hopen

/-- a run ends as `Ends` says when its log is apart -/
theorem endsWith_check (hlevel : ∀ name, a.logLevel = some name → name ∈ levelNames) (hapart : LogApart lib env a) :
    EndsWith lib env a elapsed (check lib env elapsed a) := by
  unfold check
  rw [stages_eq]
  cases hload : loadConfiguration lib env a.config with
  | error message =>
    obtain ⟨path, fault, hpath, hfault, rfl⟩ := loadConfiguration_eq_error_iff.1 hload
    exact (Ends.configuration hpath hfault).endsWith ((stands_start env).fatal lib env (apart_of_none _) _) (by simp)
  | ok c => exact endsWith_openLog lib env hlevel hapart (loadConfiguration_eq_ok_iff.1 hload)

variable {lib env} in
theorem Ends.succeeds_iff {exit : Nat} {output messages : String} (h : Ends lib env a elapsed exit output messages) :
    exit = 0 ↔ Succeeds lib env a := by
  cases h with
  | configuration hpath hfault =>
    simp only [Nat.one_ne_zero, false_iff]
    rintro ⟨c, -, -, -, hc, -⟩
    have hload := loadConfiguration_eq_error_iff.2 ⟨_, _, hpath, hfault, rfl⟩
    rw [loadConfiguration_eq_ok_iff.2 hc] at hload
    cases hload
  | log hc hpath herror =>
    simp only [Nat.one_ne_zero, false_iff]
    rintro ⟨c', files, -, -, hc', hlog, -⟩
    obtain rfl := hc.unique hc'
    simp [LogOpens, hpath, herror] at hlog
  | grammar hc hlog hfault =>
    simp only [Nat.one_ne_zero, false_iff]
    rintro ⟨c', files', g, -, hc', hlog', hg, -⟩
    obtain rfl := hc.unique hc'
    obtain rfl := hlog.unique hlog'
    simp [hfault] at hg
  | queries hc hlog hg hfault =>
    simp only [Nat.one_ne_zero, false_iff]
    rintro ⟨c', files', g', m, hc', hlog', hg', hm⟩
    obtain rfl := hc.unique hc'
    obtain rfl := hlog.unique hlog'
    rw [hg] at hg'
    cases hg'
    simp [hfault] at hm
  | success hc hlog hg hanswers =>
    simp only [true_iff]
    exact ⟨_, _, _, _, hc, hlog, hg, by rw [hanswers]⟩

end Walk

/-- a command line that asks for a run ends as `Ends` says -/
theorem endsWith_perform {lib : Libraries} {arguments : List String} {a : Arguments} (env : Surroundings) (elapsed : Nat)
    (hlevels : lib.KeepsLevels) (h : lib.parse arguments = .ok a) (hapart : LogApart lib env a) :
    EndsWith lib env a elapsed (perform lib env elapsed arguments) := by
  simp only [perform, h]
  exact endsWith_check lib env (fun name => hlevels arguments a name h) hapart

/-- **How a run ends.** A run ends with code 0 when all of its stages succeed, and with code 1 otherwise. Standard output holds
what answering the queries wrote and nothing else. On standard error, after what there is to say of the log level, a run that
fails says why its first failing stage did, and one that succeeds says how it went if it was asked to. -/
theorem perform_ends {lib : Libraries} {arguments : List String} {a : Arguments} (env : Surroundings) (elapsed : Nat)
    (hlevels : lib.KeepsLevels) (h : lib.parse arguments = .ok a) (hapart : LogApart lib env a)
    (hsilent : LogSilent lib env a) :
    ((perform lib env elapsed arguments).exit = 0 ↔ Succeeds lib env a) ∧
    ((perform lib env elapsed arguments).exit = 0 ∨ (perform lib env elapsed arguments).exit = 1) ∧
    Ends lib env a elapsed (perform lib env elapsed arguments).exit (perform lib env elapsed arguments).output
      (perform lib env elapsed arguments).messages := by
  obtain ⟨messages, hends, hmessages⟩ := endsWith_perform env elapsed hlevels h hapart
  obtain rfl := hmessages hsilent
  refine ⟨hends.succeeds_iff, ?_, hends⟩
  generalize perform lib env elapsed arguments = o at hends
  obtain ⟨exit, output, messages, files⟩ := o
  cases hends with
  | success => exact .inl rfl
  | configuration | log | grammar | queries => exact .inr rfl

/-! ## A sample -/

def sampleGrammar : Node := .file "1 1 1\nS\na\nS -> a\nS".toUTF8.data.toList

def sampleInput : List UInt8 := "1\n a".toUTF8.data.toList

/-- the description can be read, and the query answered -/
theorem answers_sample : ∃ g metrics, (Grammar.read none ({ disk := .ok sampleGrammar } : FileSource)).result = .ok g ∧
    (Query.run g none (ConsoleSource.mk (.file sampleInput)) .unbounded).result = .ok metrics := by
  have hopen : (LineSource.start ({ disk := .ok sampleGrammar } : FileSource)).1 = .ok () := rfl
  have hread : (Description.read ({ disk := .ok sampleGrammar } : FileSource)).1 =
      .ok ⟨['S'], ['a'], [⟨'S', ['a']⟩], 'S'⟩ := by cbv
  obtain ⟨d, hd⟩ := (Description.read_eq_ok_iff hopen).1 hread
  obtain ⟨g, hg⟩ := (Grammar.exists_read_iff none hopen).2 ⟨d, _, hd⟩
  have hcompletes : Query.Completes g (ConsoleSource.mk (.file sampleInput)) .unbounded [" a"] := {
    opens := rfl
    count := ⟨"1", by cbv, Text.count?_eq_some_iff.1 (by cbv)⟩
    read := by
      simp only [forall_getElem?_cons]
      exact ⟨by cbv, by simp⟩
    takes := Output.takes_unbounded _
    flushed := rfl }
  exact ⟨g, _, hg, by rw [Query.run_of_completes hcompletes]⟩

/-- a grammar file, a configuration file, and a query on standard input -/
def configuredBy (configuration : String) : Surroundings where
  files := ⟨[(["g"], sampleGrammar), (["c"], .file configuration.toUTF8.data.toList)]⟩
  input := sampleInput
  time := "2024-02-29 12:00:00"

def sampleSurroundings : Surroundings := configuredBy "grammar: g\nlog_file: l\n"

/-- the arguments of `kart -vc c` -/
def sampleArguments : Arguments := { config := some "c", verbose := true }

def sampleConfiguration : Configuration := { grammar := some "g", logFile := some "l" }

/-- the files once the log has been opened -/
def sampleFiles : Files := sampleSurroundings.files.put ["l"] (.file [])

theorem configured_sample : Configured .standard sampleSurroundings sampleArguments sampleConfiguration := by
  have hfound : sampleSurroundings.files.find "c" = .ok (.file "grammar: g\nlog_file: l\n".toUTF8.data.toList) := by cbv
  exact .settings hfound (fun h => absurd (h 'g' (by simp)) (by decide)) (by cbv)

theorem openLog_sample : Libraries.standard.openLog sampleSurroundings.files "l" = .ok (.file ["l"], sampleFiles) := by cbv

theorem file_of_openLog_sample {path : String} {channel : Channel} {files : Files} {c : Configuration}
    (hc : Configured .standard sampleSurroundings sampleArguments c) (hpath : sampleArguments.logFile.or c.logFile = some path)
    (hopen : Libraries.standard.openLog sampleSurroundings.files path = .ok (channel, files)) :
    c = sampleConfiguration ∧ channel = .file ["l"] ∧ files = sampleFiles := by
  obtain rfl := configured_sample.unique hc
  obtain rfl : "l" = path := Option.some.inj hpath
  obtain ⟨rfl, rfl⟩ := Prod.mk.inj (Except.ok.inj (openLog_sample.symm.trans hopen))
  exact ⟨rfl, rfl, rfl⟩

theorem logApart_sample : LogApart .standard sampleSurroundings sampleArguments := by
  intro c path channel files hc hpath hopen
  obtain ⟨rfl, rfl, rfl⟩ := file_of_openLog_sample hc hpath hopen
  have hlocate : sampleFiles.locate "g" = .ok ["g"] := by cbv
  exact Channel.apart_of_locate hlocate (by decide)

theorem logSilent_sample : LogSilent .standard sampleSurroundings sampleArguments := by
  intro c path channel files hc hpath hopen
  obtain ⟨rfl, rfl, rfl⟩ := file_of_openLog_sample hc hpath hopen
  exact Channel.silent_file _

/-- a run that finds the grammar of the sample and the query of the sample succeeds -/
theorem succeeds_of_find {lib : Libraries} {env : Surroundings} {a : Arguments} {c : Configuration} {files : Files}
    (hc : Configured lib env a c) (hlog : LogOpens lib env a c files) (hinput : env.input = sampleInput)
    (hstdout : env.stdout = .unbounded) (hqueries : a.queries.or c.queries = none)
    (hfind : files.find (grammarPath a c) = .ok sampleGrammar) : Succeeds lib env a := by
  obtain ⟨g, metrics, hg, hmetrics⟩ := answers_sample
  refine ⟨c, files, g, metrics, hc, hlog, by rw [grammarIn, hfind, hg], ?_⟩
  simp only [answersIn, hqueries, hinput, hstdout]
  exact hmetrics

theorem succeeds_sample : Succeeds .standard sampleSurroundings sampleArguments :=
  succeeds_of_find configured_sample ⟨_, openLog_sample⟩ rfl rfl rfl (by cbv)

theorem perform_ends_sample : Libraries.standard.KeepsLevels ∧ Libraries.standard.parse ["-vc", "c"] = .ok sampleArguments ∧
    (LogApart .standard sampleSurroundings sampleArguments ∧ LogSilent .standard sampleSurroundings sampleArguments) ∧
    (perform .standard sampleSurroundings 7 ["-vc", "c"]).exit = 0 := by
  have hparse : Libraries.standard.parse ["-vc", "c"] = .ok sampleArguments := by cbv
  obtain ⟨hexit, -⟩ := perform_ends sampleSurroundings 7 Libraries.keepsLevels_standard hparse logApart_sample logSilent_sample
  exact ⟨Libraries.keepsLevels_standard, hparse, ⟨logApart_sample, logSilent_sample⟩, hexit.2 succeeds_sample⟩

/-! ## Logs that show -/

section Grows

variable (lib : Libraries) (env : Surroundings)

/-- what standard error showed, it still shows, and so does standard output if the log leads there -/
structure Session.Grows (s s' : Session) : Prop where
  channel : s'.channel = s.channel
  output : s.channel = some .output → ∃ text, s'.output = s.output ++ text
  messages : ∃ text, s'.messages = s.messages ++ text

theorem Session.Grows.trans {s s' s'' : Session} (h : s.Grows s') (h' : s'.Grows s'') : s.Grows s'' where
  channel := h'.channel.trans h.channel
  output hchannel := by
    obtain ⟨text, htext⟩ := h.output hchannel
    obtain ⟨text', htext'⟩ := h'.output (h.channel.trans hchannel)
    exact ⟨text ++ text', by rw [htext', htext, String.append_assoc]⟩
  messages := by
    obtain ⟨text, htext⟩ := h.messages
    obtain ⟨text', htext'⟩ := h'.messages
    exact ⟨text ++ text', by rw [htext', htext, String.append_assoc]⟩

theorem Session.grows_say (s : Session) (message : String) : s.Grows (s.say message) where
  channel := rfl
  output _ := ⟨"", String.append_empty.symm⟩
  messages := ⟨message ++ "\n", String.append_assoc⟩

theorem Session.grows_log (s : Session) (entries : List Log.Entry) : s.Grows (s.log lib env entries) := by
  have hshown : ∃ text, s.output = s.output ++ text := ⟨"", String.append_empty.symm⟩
  have hsaid : ∃ text, s.messages = s.messages ++ text := ⟨"", String.append_empty.symm⟩
  unfold Session.log
  dsimp only
  split
  · exact ⟨rfl, fun _ => ⟨_, rfl⟩, hsaid⟩
  · exact ⟨rfl, fun _ => hshown, _, rfl⟩
  · exact ⟨rfl, fun _ => hshown, _, rfl⟩
  · exact ⟨rfl, fun _ => hshown, hsaid⟩

theorem grows_loadGrammar (path : String) (s : Session) : s.Grows (loadGrammar lib env path s).2 := by
  have hread := s.grows_log lib env (Grammar.read s.threshold ({ disk := s.currentFiles.find path } : FileSource)).log
  unfold loadGrammar
  dsimp only
  split
  · exact hread
  · exact hread.trans (Session.grows_log lib env _ _)

theorem grows_answerFrom {ς : Type} [LineSource ς] (g : Grammar Char) (source : ς) (s : Session) :
    s.Grows (answerFrom lib env g source s).2 := by
  unfold answerFrom
  split
  · exact ⟨rfl, fun _ => ⟨_, rfl⟩, "", String.append_empty.symm⟩
  · rename_i hother
    obtain ⟨hchannel, -, hmessages⟩ := s.grows_log lib env (Query.run g s.threshold source { toDevice := env.stdout }).log
    exact ⟨hchannel, fun houtput => absurd houtput hother, hmessages⟩

theorem grows_answerQueries (g : Grammar Char) (path : Option String) (s : Session) :
    s.Grows (answerQueries lib env g path s).2 := by
  unfold answerQueries
  cases path with
  | none =>
    dsimp only
    split <;> exact grows_answerFrom lib env g _ s
  | some path =>
    have hnoted := s.grows_log lib env [⟨.info, s!"Reading queries from {path}"⟩]
    dsimp only
    split <;> exact hnoted.trans (grows_answerFrom lib env g _ _)

theorem exists_grows_fatal (s : Session) (message : String) : ∃ s', s.Grows s' ∧ s.fatal lib env message = s'.outcome 1 :=
  ⟨_, (s.grows_say _).trans (Session.grows_log lib env _ _), rfl⟩

theorem exists_grows_conclude (elapsed : Nat) (verbose : Bool) (metrics : Query.Metrics) (s : Session) :
    ∃ s', s.Grows s' ∧ conclude lib env elapsed verbose (.ok (metrics, s)) = s'.outcome 0 := by
  cases verbose with
  | false => exact ⟨_, s.grows_log lib env _, rfl⟩
  | true => exact ⟨_, (s.grows_say _).trans (Session.grows_log lib env _ _), rfl⟩

/-- whatever becomes of a run once its log is open, what it has shown until then is still shown at the end -/
theorem exists_grows_afterLog (elapsed : Nat) (a : Arguments) (c : Configuration) (s : Session) :
    ∃ s' exit, (s.log lib env [⟨.info, "Starting " ++ versionText⟩]).Grows s' ∧
      conclude lib env elapsed a.verbose (afterLog lib env a c s) = s'.outcome exit := by
  unfold afterLog
  generalize s.log lib env [⟨.info, "Starting " ++ versionText⟩] = s
  have hloaded := grows_loadGrammar lib env (grammarPath a c) s
  generalize loadGrammar lib env (grammarPath a c) s = loaded at hloaded ⊢
  obtain ⟨message | g, s₁⟩ := loaded
  · obtain ⟨s', hfatal, hend⟩ := exists_grows_fatal lib env s₁ message
    exact ⟨s', 1, hloaded.trans hfatal, hend⟩
  · have hanswered := hloaded.trans (grows_answerQueries lib env g (a.queries.or c.queries) s₁)
    dsimp only
    generalize answerQueries lib env g (a.queries.or c.queries) s₁ = answered at hanswered ⊢
    obtain ⟨fault | metrics, s₂⟩ := answered
    · obtain ⟨s', hfatal, hend⟩ := exists_grows_fatal lib env s₂ s!"Error answering queries: {fault.message}"
      exact ⟨s', 1, hanswered.trans hfatal, hend⟩
    · obtain ⟨s', hconclude, hend⟩ := exists_grows_conclude lib env elapsed a.verbose metrics s₂
      exact ⟨s', 0, hanswered.trans hconclude, hend⟩

/-- a session with a log that has just been begun, at a level that nobody chose -/
def started (channel : Channel) (files : Files) : Session :=
  ({ files, channel := some channel, threshold := some .info } : Session).log lib env [⟨.info, "Starting " ++ versionText⟩]

/-- what shows of the beginning of a log is still shown at the end of the run -/
theorem exists_grows_perform {arguments : List String} {a : Arguments} {path : String} {channel : Channel} {files : Files}
    (elapsed : Nat) (hparse : lib.parse arguments = .ok a) (hconfig : a.config = none) (hlevel : a.logLevel = none)
    (hpath : a.logFile = some path) (hopen : lib.openLog env.files path = .ok (channel, files)) :
    ∃ s exit, (started lib env channel files).Grows s ∧ perform lib env elapsed arguments = s.outcome exit := by
  obtain ⟨s, exit, hgrows, hend⟩ := exists_grows_afterLog lib env elapsed a {}
    { files, channel := some channel, threshold := some .info }
  refine ⟨s, exit, hgrows, ?_⟩
  simp only [perform, hparse, check, ← hend, stages_eq, loadConfiguration, hconfig, hlevel, hpath, Option.or_none, openLog,
    chooseThreshold, hopen]

end Grows

/-- the arguments of `kart -gg --logfile`, with a path -/
def loudArguments (path : String) : Arguments := { grammar := some "g", logFile := some path }

def bareSurroundings : Surroundings where
  files := ⟨[(["/", "dev"], .directory)]⟩
  time := "2024-02-29 12:00:00"

/-- standard output shows a log that leads there -/
theorem output_loud_ne_empty : (perform .standard bareSurroundings 0 ["-gg", "--logfile", "/dev/stdout"]).output ≠ "" := by
  have hparse : Libraries.standard.parse ["-gg", "--logfile", "/dev/stdout"] = .ok (loudArguments "/dev/stdout") := by cbv
  have hopen : Libraries.standard.openLog bareSurroundings.files "/dev/stdout" = .ok (.output, bareSurroundings.files) := rfl
  obtain ⟨s, exit, hgrows, hend⟩ := exists_grows_perform .standard bareSurroundings 0 hparse rfl rfl rfl hopen
  obtain ⟨text, htext⟩ := hgrows.output rfl
  have hstart : (started .standard bareSurroundings .output bareSurroundings.files).output ≠ "" := by decide
  rw [hend]
  show s.output ≠ ""
  rw [htext]
  simp [hstart]

/-- a grammar file, and a query on standard input -/
def plainSurroundings : Surroundings where
  files := ⟨[(["g"], sampleGrammar)]⟩
  input := sampleInput
  time := "2024-02-29 12:00:00"

/-- a run succeeds, and standard error shows its log, or that nothing could be written to it -/
theorem messages_loud_ne_empty {path : String} {channel : Channel}
    (hparse : Libraries.standard.parse ["-gg", "--logfile", path] = .ok (loudArguments path))
    (hopen : Libraries.standard.openLog plainSurroundings.files path = .ok (channel, plainSurroundings.files))
    (hapart : channel.Apart plainSurroundings.files ["g"])
    (hshown : (started .standard plainSurroundings channel plainSurroundings.files).messages ≠ "") :
    (perform .standard plainSurroundings 0 ["-gg", "--logfile", path]).exit = 0 ∧
    (perform .standard plainSurroundings 0 ["-gg", "--logfile", path]).messages ≠ "" := by
  have hsucceeds : Succeeds .standard plainSurroundings (loudArguments path) :=
    succeeds_of_find (c := {}) rfl ⟨_, hopen⟩ rfl rfl rfl (by cbv)
  have happart' : LogApart .standard plainSurroundings (loudArguments path) := by
    intro c path' channel' files hc hpath hopen'
    obtain rfl : c = {} := hc
    obtain rfl : path = path' := Option.some.inj hpath
    obtain ⟨rfl, rfl⟩ := Prod.mk.inj (Except.ok.inj (hopen.symm.trans hopen'))
    exact hapart
  obtain ⟨_, hends, -⟩ := endsWith_perform plainSurroundings 0 Libraries.keepsLevels_standard hparse happart'
  refine ⟨hends.succeeds_iff.2 hsucceeds, ?_⟩
  obtain ⟨s, exit, hgrows, hend⟩ := exists_grows_perform .standard plainSurroundings 0 hparse rfl rfl rfl hopen
  obtain ⟨text, htext⟩ := hgrows.messages
  rw [hend]
  show s.messages ≠ ""
  rw [htext]
  simp [hshown]

/-- the arguments of `kart -g n/../g --logfile n/l` -/
def detourArguments : Arguments := { grammar := some "n/../g", logFile := some "n/l" }

/-- the files once a directory for the log has been made -/
def detourFiles : Files := (plainSurroundings.files.put ["n"] .directory).put ["n", "l"] (.file [])

theorem openLog_detour : Libraries.standard.openLog plainSurroundings.files "n/l" =
    .ok (.file ["n", "l"], detourFiles) := by
  cbv

/-- where the detour leads -/
theorem locate_detour (files : Files) : files.locate "n/../g" = files.walk [] ["n", "..", "g"] := by
  have hsteps : Files.steps "n/../g" = ["n", "..", "g"] := by decide
  rw [Files.locate, hsteps]
  rfl

theorem logApart_detour : LogApart .standard plainSurroundings detourArguments := by
  intro c path channel files hc hpath hopen
  obtain rfl : c = {} := hc
  obtain rfl : "n/l" = path := Option.some.inj hpath
  obtain ⟨rfl, rfl⟩ := Prod.mk.inj (Except.ok.inj (openLog_detour.symm.trans hopen))
  have hlocate : detourFiles.locate "n/../g" = .ok ["g"] := by
    rw [locate_detour]
    cbv
  exact Channel.apart_of_locate hlocate (by decide)

theorem succeeds_detour : Succeeds .standard plainSurroundings detourArguments := by
  have hfind : detourFiles.find "n/../g" = .ok sampleGrammar := by
    rw [Files.find, locate_detour]
    cbv
  exact succeeds_of_find (c := {}) rfl ⟨_, openLog_detour⟩ rfl rfl rfl hfind

/-- A log can show in how a run ends. When it leads to standard output, a run that finds no grammar file leaves its log there,
where there should be nothing. When it leads to standard error, or nothing can be written to it, a run that succeeds is not
silent. And a path that leads nowhere leads to a grammar once a directory has been made for the log. -/
theorem perform_shows_log :
    (Libraries.standard.parse ["-gg", "--logfile", "/dev/stdout"] = .ok (loudArguments "/dev/stdout") ∧
      Libraries.standard.openLog bareSurroundings.files "/dev/stdout" = .ok (.output, bareSurroundings.files) ∧
      bareSurroundings.files.find "g" = .error .notFound ∧
      (perform .standard bareSurroundings 0 ["-gg", "--logfile", "/dev/stdout"]).output ≠ "") ∧
    (Libraries.standard.parse ["-gg", "--logfile", "/dev/stderr"] = .ok (loudArguments "/dev/stderr") ∧
      Libraries.standard.openLog plainSurroundings.files "/dev/stderr" = .ok (.messages, plainSurroundings.files) ∧
      (perform .standard plainSurroundings 0 ["-gg", "--logfile", "/dev/stderr"]).exit = 0 ∧
      (perform .standard plainSurroundings 0 ["-gg", "--logfile", "/dev/stderr"]).messages ≠ "") ∧
    (Libraries.standard.parse ["-gg", "--logfile", "/dev/full"] = .ok (loudArguments "/dev/full") ∧
      (∃ error, Libraries.standard.openLog plainSurroundings.files "/dev/full" =
        .ok (.broken error, plainSurroundings.files)) ∧
      (perform .standard plainSurroundings 0 ["-gg", "--logfile", "/dev/full"]).exit = 0 ∧
      (perform .standard plainSurroundings 0 ["-gg", "--logfile", "/dev/full"]).messages ≠ "") ∧
    Libraries.standard.parse ["-g", "n/../g", "--logfile", "n/l"] = .ok detourArguments ∧
      plainSurroundings.files.find "n/../g" = .error .notFound ∧
      (perform .standard plainSurroundings 0 ["-g", "n/../g", "--logfile", "n/l"]).exit = 0 := by
  have hstderr : Libraries.standard.parse ["-gg", "--logfile", "/dev/stderr"] = .ok (loudArguments "/dev/stderr") := by cbv
  have hfull : Libraries.standard.parse ["-gg", "--logfile", "/dev/full"] = .ok (loudArguments "/dev/full") := by cbv
  have hparse : Libraries.standard.parse ["-g", "n/../g", "--logfile", "n/l"] = .ok detourArguments := by cbv
  obtain ⟨_, hends, -⟩ := endsWith_perform plainSurroundings 0 Libraries.keepsLevels_standard hparse logApart_detour
  have hnowhere : plainSurroundings.files.find "n/../g" = .error .notFound := by
    rw [Files.find, locate_detour]
    cbv
  refine ⟨⟨by cbv, rfl, by cbv, output_loud_ne_empty⟩, ⟨hstderr, rfl, ?_⟩, ⟨hfull, ⟨_, rfl⟩, ?_⟩, hparse, hnowhere,
    hends.succeeds_iff.2 succeeds_detour⟩
  · exact messages_loud_ne_empty hstderr rfl ⟨by simp, by simp, by simp⟩ (by decide)
  · exact messages_loud_ne_empty hfull rfl ⟨by simp, by simp, by simp⟩ (by decide)

end CfgMembership.CommandLine
