/-
Runs that differ in what they log and say.

`plainOutcome` is the exit code and the standard output of a run as its configuration, its grammar and its queries alone
decide them, on the files as they were before the log was opened. A run whose log can be opened, goes into a directory that is
there, and shows neither on standard output nor in the grammar and the queries that are read, ends with just these
(`Ends.plainOutcome_eq`). So two runs with the same task (`SameTask`) end with the same code and the same standard output,
whatever they log, how much they say and in which colours (`perform_of_sameTask`). A log that leads to standard output shows
there, and a log level in a configuration file can be one that is not text (`perform_differs`).
-/
import Mathlib
import CfgMembership.Proofs.CommandLine.Run
import CfgMembership.Proofs.Standard.LogFile

namespace CfgMembership.CommandLine

variable {lib : Libraries} {env env' : Surroundings} {a a' : Arguments} {c : Configuration} {files : Files}

/-! ## Runs without a log -/

/-- the code and the standard output of a run with a configuration, as certain files decide them -/
def outcomeOn (env : Surroundings) (a : Arguments) (c : Configuration) (files : Files) : Nat × String :=
  match grammarIn a c files with
  | .error _ => (1, "")
  | .ok g =>
    match answersIn env a c files g with
    | (.error _, written) => (1, written)
    | (.ok _, written) => (0, written)

/-- the code and the standard output of a run, as the files at its start decide them -/
def plainOutcome (lib : Libraries) (env : Surroundings) (a : Arguments) : Nat × String :=
  match loadConfiguration lib env a.config with
  | .error _ => (1, "")
  | .ok c => outcomeOn env a c env.files

theorem plainOutcome_of_configured (hc : Configured lib env a c) : plainOutcome lib env a = outcomeOn env a c env.files := by
  rw [plainOutcome, loadConfiguration_eq_ok_iff.2 hc]

theorem plainOutcome_of_not_configured (h : ¬∃ c, Configured lib env a c) : plainOutcome lib env a = (1, "") := by
  unfold plainOutcome
  cases hload : loadConfiguration lib env a.config with
  | error message => rfl
  | ok c => exact absurd ⟨c, loadConfiguration_eq_ok_iff.1 hload⟩ h

/-! ## Opening the log -/

/-- the log file, if a run has one, goes into a directory that is there and can be opened -/
def LogReady (lib : Libraries) (env : Surroundings) (a : Arguments) : Prop :=
  ∀ c path, Configured lib env a c → a.logFile.or c.logFile = some path →
    env.files.ParentExists path ∧ ∃ opened, lib.openLog env.files path = .ok opened

/-- what is found is the same, or there is nothing both times -/
theorem eq_or_error_of_iff {ε α : Type} {x y : Except ε α} (h : ∀ v, x = .ok v ↔ y = .ok v) :
    x = y ∨ ∃ e e', x = .error e ∧ y = .error e' := by
  cases x with
  | ok v => exact .inl ((h v).1 rfl).symm
  | error e =>
    cases y with
    | ok v => exact .inl ((h v).2 rfl)
    | error e' => exact .inr ⟨e, e', rfl, rfl⟩

section Quiet

variable (hquiet : lib.OpensQuietly) (hready : LogReady lib env a) (hapart : LogApart lib env a)

include hquiet hready hapart

/-- a path leads to the same node before and after the log has been opened, or to none -/
theorem find_of_logOpens {path : String} (hc : Configured lib env a c) (hlog : LogOpens lib env a c files)
    (hpath : path = grammarPath a c ∨ a.queries.or c.queries = some path) :
    files.find path = env.files.find path ∨ ∃ e e', files.find path = .error e ∧ env.files.find path = .error e' := by
  refine eq_or_error_of_iff fun node => ?_
  unfold LogOpens at hlog
  cases hfile : a.logFile.or c.logFile with
  | none =>
    rw [hfile] at hlog
    rw [hlog]
  | some log =>
    rw [hfile] at hlog
    obtain ⟨channel, hopen⟩ := hlog
    have hread : path ∈ readPaths a c := by
      rcases hpath with rfl | hpath
      · exact List.mem_cons_self
      · exact List.mem_cons_of_mem _ (Option.mem_toList.2 hpath)
    exact hquiet env.files files log path channel node (hready c log hc hfile).1 hopen fun place hplace =>
      (hapart c log channel files hc hfile hopen).file place hplace path hread

/-- the grammar is the same, or there is none both times -/
theorem grammarIn_of_logOpens (hc : Configured lib env a c) (hlog : LogOpens lib env a c files) :
    grammarIn a c files = grammarIn a c env.files ∨
      ∃ e e', grammarIn a c files = .error e ∧ grammarIn a c env.files = .error e' := by
  unfold grammarIn
  rcases find_of_logOpens hquiet hready hapart hc hlog (.inl rfl) with hsame | ⟨e, e', he, he'⟩
  · rw [hsame]
    exact .inl rfl
  · rw [he, he']
    exact .inr ⟨_, _, rfl, rfl⟩

/-- the answers are the same, or there are none both times -/
theorem answersIn_of_logOpens (hc : Configured lib env a c) (hlog : LogOpens lib env a c files) (g : Grammar Char) :
    answersIn env a c files g = answersIn env a c env.files g ∨
      ∃ e e', answersIn env a c files g = (.error e, "") ∧ answersIn env a c env.files g = (.error e', "") := by
  unfold answersIn
  cases hqueries : a.queries.or c.queries with
  | none => exact .inl rfl
  | some path =>
    rcases find_of_logOpens hquiet hready hapart hc hlog (.inr hqueries) with hsame | ⟨e, e', he, he'⟩
    · simp only [hsame, true_or]
    · simp only [he, he']
      exact .inr ⟨_, _, rfl, rfl⟩

/-- opening the log does not change how a run ends -/
theorem outcomeOn_of_logOpens (hc : Configured lib env a c) (hlog : LogOpens lib env a c files) :
    outcomeOn env a c files = outcomeOn env a c env.files := by
  unfold outcomeOn
  rcases grammarIn_of_logOpens hquiet hready hapart hc hlog with hsame | ⟨e, e', he, he'⟩
  · rw [hsame]
    cases grammarIn a c env.files with
    | error fault => rfl
    | ok g =>
      rcases answersIn_of_logOpens hquiet hready hapart hc hlog g with hsame | ⟨e, e', he, he'⟩
      · simp only [hsame]
      · simp only [he, he']
  · rw [he, he']

/-- a run ends as it would without a log -/
theorem Ends.plainOutcome_eq {elapsed exit : Nat} {output messages : String}
    (h : Ends lib env a elapsed exit output messages) : plainOutcome lib env a = (exit, output) := by
  have hopened {c : Configuration} {files : Files} (hc : Configured lib env a c) (hlog : LogOpens lib env a c files) :
      plainOutcome lib env a = outcomeOn env a c files :=
    (plainOutcome_of_configured hc).trans (outcomeOn_of_logOpens hquiet hready hapart hc hlog).symm
  cases h with
  | configuration hpath hfault => rw [plainOutcome, loadConfiguration_eq_error_iff.2 ⟨_, _, hpath, hfault, rfl⟩]
  | log hc hpath herror =>
    obtain ⟨-, opened, hopen⟩ := hready _ _ hc hpath
    rw [herror] at hopen
    cases hopen
  | grammar hc hlog hfault => rw [hopened hc hlog, outcomeOn, hfault]
  | queries hc hlog hg hfault => simp only [hopened hc hlog, outcomeOn, hg, hfault]
  | success hc hlog hg hanswers => simp only [hopened hc hlog, outcomeOn, hg, hanswers]

end Quiet

/-! ## Two runs -/

/-- two runs have the same grammar and the same queries: the same standard input, the same standard output to write to,
configurations that both can be loaded or both cannot, the same choice of a grammar and a query file, and the same there is to
find at both. Nothing is said of what they log, of what they say and of colours. -/
structure SameTask (lib : Libraries) (env env' : Surroundings) (a a' : Arguments) : Prop where
  input : env.input = env'.input
  stdout : env.stdout = env'.stdout
  configured : (∃ c, Configured lib env a c) ↔ ∃ c', Configured lib env' a' c'
  grammar : ∀ c c', Configured lib env a c → Configured lib env' a' c' → grammarPath a c = grammarPath a' c' ∧
    env.files.find (grammarPath a c) = env'.files.find (grammarPath a c)
  queries : ∀ c c', Configured lib env a c → Configured lib env' a' c' →
    a.queries.or c.queries = a'.queries.or c'.queries ∧
      ∀ path, a.queries.or c.queries = some path → env.files.find path = env'.files.find path

/-- runs on the same files, input and output whose arguments and configurations name the same grammar and the same queries -/
theorem sameTask_of_settings (hfiles : env.files = env'.files) (hinput : env.input = env'.input)
    (hstdout : env.stdout = env'.stdout) (hgrammar : a.grammar = a'.grammar) (hqueries : a.queries = a'.queries)
    (hconfigured : (∃ c, Configured lib env a c) ↔ ∃ c', Configured lib env' a' c')
    (hsettings : ∀ c c', Configured lib env a c → Configured lib env' a' c' →
      c.grammar = c'.grammar ∧ c.queries = c'.queries) : SameTask lib env env' a a' where
  input := hinput
  stdout := hstdout
  configured := hconfigured
  grammar c c' hc hc' := by
    rw [grammarPath, grammarPath, hgrammar, (hsettings c c' hc hc').1, hfiles]
    exact ⟨rfl, rfl⟩
  queries c c' hc hc' := by
    rw [hqueries, (hsettings c c' hc hc').2, hfiles]
    exact ⟨rfl, fun _ _ => rfl⟩

/-- runs on the same files, input and output whose arguments differ in the log file, its level and how much is said -/
theorem sameTask_of_switches (hfiles : env.files = env'.files) (hinput : env.input = env'.input)
    (hstdout : env.stdout = env'.stdout) (logFile logLevel : Option String) (verbose : Bool) :
    SameTask lib env env' a { a with logFile, logLevel, verbose } := by
  have hiff (c : Configuration) : Configured lib env' { a with logFile, logLevel, verbose } c ↔ Configured lib env a c := by
    unfold Configured
    rw [hfiles]
  refine sameTask_of_settings hfiles hinput hstdout rfl rfl (exists_congr fun c => (hiff c).symm) fun c c' hc hc' => ?_
  rw [hc.unique ((hiff c').1 hc')]
  exact ⟨rfl, rfl⟩

theorem plainOutcome_of_sameTask (h : SameTask lib env env' a a') : plainOutcome lib env a = plainOutcome lib env' a' := by
  by_cases hconfigured : ∃ c, Configured lib env a c
  · obtain ⟨c, hc⟩ := hconfigured
    obtain ⟨c', hc'⟩ := h.configured.1 ⟨c, hc⟩
    obtain ⟨hpath, hgrammar⟩ := h.grammar c c' hc hc'
    obtain ⟨hsource, hqueries⟩ := h.queries c c' hc hc'
    have hg : grammarIn a c env.files = grammarIn a' c' env'.files := by
      rw [grammarIn, grammarIn, hgrammar, hpath]
    have hanswers (g : Grammar Char) : answersIn env a c env.files g = answersIn env' a' c' env'.files g := by
      unfold answersIn
      rw [← hsource, ← h.input, ← h.stdout]
      cases hpath' : a.queries.or c.queries with
      | none => rfl
      | some path => simp only [hqueries path hpath']
    rw [plainOutcome_of_configured hc, plainOutcome_of_configured hc', outcomeOn, outcomeOn, hg]
    simp only [hanswers]
  · rw [plainOutcome_of_not_configured hconfigured, plainOutcome_of_not_configured (h.configured.not.1 hconfigured)]

/-- **Logging does not show in the answers.** Two command lines that give the same task, each with a log or without, end with
the same code and show the same on standard output. A log has to go into a directory that is there, must be possible to open,
and leads neither to standard output nor to what is read. It may show on standard error. -/
theorem perform_of_sameTask {arguments arguments' : List String} (elapsed elapsed' : Nat) (hlevels : lib.KeepsLevels)
    (hquiet : lib.OpensQuietly) (h : lib.parse arguments = .ok a) (h' : lib.parse arguments' = .ok a')
    (htask : SameTask lib env env' a a') (hready : LogReady lib env a) (hready' : LogReady lib env' a')
    (hapart : LogApart lib env a) (hapart' : LogApart lib env' a') :
    (perform lib env elapsed arguments).exit = (perform lib env' elapsed' arguments').exit ∧
    (perform lib env elapsed arguments).output = (perform lib env' elapsed' arguments').output := by
  rw [← Prod.mk.injEq]
  obtain ⟨_, hends, -⟩ := endsWith_perform env elapsed hlevels h hapart
  obtain ⟨_, hends', -⟩ := endsWith_perform env' elapsed' hlevels h' hapart'
  calc ((perform lib env elapsed arguments).exit, (perform lib env elapsed arguments).output)
    _ = plainOutcome lib env a := (hends.plainOutcome_eq hquiet hready hapart).symm
    _ = plainOutcome lib env' a' := plainOutcome_of_sameTask htask
    _ = ((perform lib env' elapsed' arguments').exit, (perform lib env' elapsed' arguments').output) :=
      hends'.plainOutcome_eq hquiet hready' hapart'

/-! ## A sample -/

/-- as in the sample, but with no log file in the configuration, with colours and at another time -/
def quietSurroundings : Surroundings :=
  { configuredBy "grammar: g\n" with coloured := true, time := "2024-03-01 00:00:00" }

/-- the arguments of `kart -c c` -/
def quietArguments : Arguments := { config := some "c" }

theorem configured_quiet : Configured .standard quietSurroundings quietArguments { grammar := some "g" } := by
  have hfound : quietSurroundings.files.find "c" = .ok (.file "grammar: g\n".toUTF8.data.toList) := by cbv
  exact .settings hfound (fun h => absurd (h 'g' (by simp)) (by decide)) (by cbv)

/-- without a log file there is nothing to ask of one -/
theorem no_log_quiet (hc : Configured .standard quietSurroundings quietArguments c) :
    quietArguments.logFile.or c.logFile = none := by
  rw [← configured_quiet.unique hc]
  rfl

theorem logApart_quiet : LogApart .standard quietSurroundings quietArguments := by
  intro c path channel files hc hpath
  rw [no_log_quiet hc] at hpath
  cases hpath

theorem sameTask_sample : SameTask .standard sampleSurroundings quietSurroundings sampleArguments quietArguments where
  input := rfl
  stdout := rfl
  configured := ⟨fun _ => ⟨_, configured_quiet⟩, fun _ => ⟨_, configured_sample⟩⟩
  grammar c c' hc hc' := by
    rw [← configured_sample.unique hc, ← configured_quiet.unique hc']
    exact ⟨rfl, (by cbv : sampleSurroundings.files.find "g" = quietSurroundings.files.find "g")⟩
  queries c c' hc hc' := by
    rw [← configured_sample.unique hc, ← configured_quiet.unique hc']
    exact ⟨rfl, fun _ h => by cases h⟩

theorem logReady_sample : LogReady .standard sampleSurroundings sampleArguments := by
  intro c path hc hpath
  obtain rfl := configured_sample.unique hc
  obtain rfl : "l" = path := Option.some.inj hpath
  exact ⟨.inl (by cbv), _, openLog_sample⟩

/-- one run logs and says how it went, the other does neither -/
theorem perform_of_sameTask_sample : (Libraries.standard.KeepsLevels ∧ Libraries.standard.OpensQuietly) ∧
    (Libraries.standard.parse ["-vc", "c"] = .ok sampleArguments ∧
      Libraries.standard.parse ["-c", "c"] = .ok quietArguments) ∧
    (SameTask .standard sampleSurroundings quietSurroundings sampleArguments quietArguments ∧
      LogReady .standard sampleSurroundings sampleArguments ∧ LogApart .standard sampleSurroundings sampleArguments) ∧
    (perform .standard sampleSurroundings 7 ["-vc", "c"]).exit = (perform .standard quietSurroundings 0 ["-c", "c"]).exit ∧
    (perform .standard sampleSurroundings 7 ["-vc", "c"]).output =
      (perform .standard quietSurroundings 0 ["-c", "c"]).output := by
  have hparse : Libraries.standard.parse ["-vc", "c"] = .ok sampleArguments := by cbv
  have hquiet : Libraries.standard.parse ["-c", "c"] = .ok quietArguments := by cbv
  have hready : LogReady .standard quietSurroundings quietArguments := by
    intro c path hc hpath
    rw [no_log_quiet hc] at hpath
    cases hpath
  exact ⟨⟨Libraries.keepsLevels_standard, Libraries.opensQuietly_standard⟩, ⟨hparse, hquiet⟩,
    ⟨sameTask_sample, logReady_sample, logApart_sample⟩,
    perform_of_sameTask 7 0 Libraries.keepsLevels_standard Libraries.opensQuietly_standard hparse hquiet sameTask_sample
      logReady_sample hready logApart_sample logApart_quiet⟩

/-! ## Runs that end differently -/

/-- a configuration whose log level is a list -/
def oddSurroundings : Surroundings := configuredBy "grammar: g\nlog_level: [info]\n"

theorem succeeds_quiet : Succeeds .standard quietSurroundings quietArguments :=
  succeeds_of_find configured_quiet rfl rfl rfl rfl (by cbv)

theorem not_configured_odd : ¬∃ c, Configured .standard oddSurroundings quietArguments c := by
  rintro ⟨c, hc⟩
  have hfound : oddSurroundings.files.find "c" = .ok (.file "grammar: g\nlog_level: [info]\n".toUTF8.data.toList) := by cbv
  have hrefused : Libraries.standard.deserialize "grammar: g\nlog_level: [info]\n" = .error "not understood" := by cbv
  have hodd := (Configuration.ReadsAs.malformed hfound (fun h => absurd (h 'g' (by simp)) (by decide)) hrefused).read_eq
  have hread := Configuration.ReadsAs.read_eq hc
  rw [hodd] at hread
  cases hread

/-- a run that has no grammar writes nothing -/
theorem Ends.output_eq_empty {elapsed exit : Nat} {output messages : String} (h : Ends lib env a elapsed exit output messages)
    (hgrammar : ∀ c files g, Configured lib env a c → LogOpens lib env a c files → grammarIn a c files ≠ .ok g) :
    output = "" := by
  cases h with
  | configuration => rfl
  | log => rfl
  | grammar => rfl
  | queries hc hlog hg => exact absurd hg (hgrammar _ _ _ hc hlog)
  | success hc hlog hg => exact absurd hg (hgrammar _ _ _ hc hlog)

/-- Runs that differ in their logs only can end differently. One whose log leads to standard output shows it there, and the
other does not. And of two configurations that give no more than another log level, one cannot be loaded. -/
theorem perform_differs :
    ((Libraries.standard.parse ["-gg", "--logfile", "/dev/stdout"] = .ok (loudArguments "/dev/stdout") ∧
        Libraries.standard.parse ["-gg"] = .ok { grammar := some "g" }) ∧
      (bareSurroundings.files.ParentExists "/dev/stdout" ∧
        Libraries.standard.openLog bareSurroundings.files "/dev/stdout" = .ok (.output, bareSurroundings.files)) ∧
      (perform .standard bareSurroundings 0 ["-gg", "--logfile", "/dev/stdout"]).output ≠
        (perform .standard bareSurroundings 0 ["-gg"]).output) ∧
    Libraries.standard.parse ["-c", "c"] = .ok quietArguments ∧
      (perform .standard quietSurroundings 0 ["-c", "c"]).exit ≠ (perform .standard oddSurroundings 0 ["-c", "c"]).exit := by
  have hgg : Libraries.standard.parse ["-gg"] = .ok { grammar := some "g" } := by cbv
  have hsilent : (perform .standard bareSurroundings 0 ["-gg"]).output = "" := by
    obtain ⟨_, hends, -⟩ := endsWith_perform bareSurroundings 0 Libraries.keepsLevels_standard hgg (by
      rintro c path channel files ⟨⟩ ⟨⟩)
    refine hends.output_eq_empty ?_
    rintro c files g ⟨⟩ ⟨⟩ hg
    have hread : (grammarIn { grammar := some "g" } {} bareSurroundings.files) = .error (.unreadable (.io .notFound)) := by
      cbv
    rw [hread] at hg
    cases hg
  have hshown : (perform .standard bareSurroundings 0 ["-gg", "--logfile", "/dev/stdout"]).output ≠
      (perform .standard bareSurroundings 0 ["-gg"]).output := by
    rw [hsilent]
    exact output_loud_ne_empty
  have hparent : bareSurroundings.files.ParentExists "/dev/stdout" := by
    have hdev : Files.parent "/dev/stdout" = "/dev" := by decide
    rw [Files.ParentExists, hdev]
    exact .inr (by cbv)
  have hparse : Libraries.standard.parse ["-c", "c"] = .ok quietArguments := by cbv
  obtain ⟨_, hquiet, -⟩ := endsWith_perform quietSurroundings 0 Libraries.keepsLevels_standard hparse logApart_quiet
  have hapart : LogApart .standard oddSurroundings quietArguments :=
    fun c _ _ _ hc => absurd ⟨c, hc⟩ not_configured_odd
  obtain ⟨_, hodd, -⟩ := endsWith_perform oddSurroundings 0 Libraries.keepsLevels_standard hparse hapart
  have hexit : (perform .standard quietSurroundings 0 ["-c", "c"]).exit ≠
      (perform .standard oddSurroundings 0 ["-c", "c"]).exit := by
    rw [hquiet.succeeds_iff.2 succeeds_quiet]
    intro h
    obtain ⟨c, -, -, -, hc, -⟩ := hodd.succeeds_iff.1 h.symm
    exact not_configured_odd ⟨c, hc⟩
  exact ⟨⟨⟨by cbv, hgg⟩, ⟨hparent, rfl⟩, hshown⟩, hparse, hexit⟩

end CfgMembership.CommandLine
