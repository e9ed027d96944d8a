/-
Where a run over a query list stops, and what it has written by then.

Once the count has been read, a run reads a line, writes its answer, reads the next line, and so on, and flushes the output
after the last answer. `Stops` says which of these actions is the first to fail, for which lines the answers were taken
before, and which part of the next answer was taken if that failed to be written. `run_stops`: this is the fault of the run,
and the answers to these lines with that part are what has been written. It does not matter which of source and output fails,
or how far the run got. An output that takes lines whole or not at all is left with whole lines; one that is full in the
middle of a line is left with the part that fitted in (`run_cuts_answer`).
-/
import CfgMembership.Proofs.Query
import CfgMembership.Proofs.Recognition

namespace CfgMembership

open LineSource

/-! ## Output that is refused -/

namespace Output

variable {out : Output} {line : String} {lines more : List String}

theorem takes_append : out.Takes (lines ++ more) ↔ out.Takes lines ∧ (out.write (String.join lines)).Takes more := by
  induction lines generalizing out with
  | nil => simp [takes_nil, write_empty]
  | cons line lines ih => rw [List.cons_append, takes_cons, takes_cons, ih, and_assoc, String.join_cons, write_write]

/-- of lines that are not all taken there is a first that is refused -/
theorem exists_refused (h : ¬out.Takes lines) : ∃ before line after, lines = before ++ line :: after ∧
    out.Takes before ∧ (out.write (String.join before)).fault? line ≠ none := by
  induction lines generalizing out with
  | nil => exact absurd takes_nil h
  | cons line lines ih =>
    by_cases hfault : out.fault? line = none
    · have hrest : ¬(out.write line).Takes lines := fun hrest => h (takes_cons.2 ⟨hfault, hrest⟩)
      obtain ⟨before, refused, after, rfl, htakes, hrefused⟩ := ih hrest
      refine ⟨line :: before, refused, after, rfl, takes_cons.2 ⟨hfault, htakes⟩, ?_⟩
      rwa [String.join_cons, ← write_write]
    · refine ⟨[], line, lines, rfl, takes_nil, ?_⟩
      rwa [String.join_nil, write_empty]

/-- lines are taken up to the first that is refused -/
theorem takes_front_iff {before after front : List String} (htakes : out.Takes before)
    (hrefused : (out.write (String.join before)).fault? line ≠ none) (hfront : front <+: before ++ line :: after) :
    out.Takes front ↔ front <+: before := by
  constructor
  · intro h
    rcases List.prefix_or_prefix_of_prefix hfront (List.prefix_append before _) with hshort | ⟨more, rfl⟩
    · exact hshort
    · -- a longer front would begin with the refused line after those taken
      cases more with
      | nil => simp
      | cons line' more =>
        rw [List.prefix_append_right_inj, List.cons_prefix_cons] at hfront
        obtain ⟨rfl, -⟩ := hfront
        exact absurd (takes_cons.1 (takes_append.1 h).2).1 hrefused
  · rintro ⟨more, rfl⟩
    exact (takes_append.1 htakes).1

/-- an output holds a number of bytes at most, and refuses with a certain error what would take it past them -/
structure Limited (out : Output) (limit : Nat) (error : IoError) : Prop where
  take : out.take = (Device.bounded limit error).take
  within : out.text.utf8ByteSize ≤ limit

section Limited

variable {limit : Nat} {error : IoError} (h : out.Limited limit error)

include h

theorem Limited.take_eq : out.take out.text line =
    if (out.text ++ line).utf8ByteSize ≤ limit then .ok line.length else .error error := by
  rw [h.take, String.utf8ByteSize_append]
  simp only [Device.bounded, ← Nat.not_le, ite_not]

/-- nothing of a line that does not fit in is taken -/
theorem Limited.writeAll_of_lt (hfits : ¬(out.text ++ line).utf8ByteSize ≤ limit) :
    out.writeAll line.toList = (some error, out) := by
  refine Output.writeAll_of_error ?_ (by rw [h.take_eq, if_neg hfits])
  rintro rfl
  exact hfits (by simpa using h.within)

theorem Limited.fault?_eq_none_iff : out.fault? line = none ↔ (out.text ++ line).utf8ByteSize ≤ limit := by
  by_cases hfits : (out.text ++ line).utf8ByteSize ≤ limit
  · exact iff_of_true (fault?_of_take (by rw [h.take_eq, if_pos hfits])) hfits
  · refine iff_of_false ?_ hfits
    rw [fault?, h.writeAll_of_lt hfits]
    exact Option.some_ne_none _

/-- lines are taken as long as they fit in together -/
theorem Limited.takes_iff : out.Takes lines ↔ (out.text ++ String.join lines).utf8ByteSize ≤ limit := by
  induction lines generalizing out with
  | nil => simpa [takes_nil] using h.within
  | cons line lines ih =>
    rw [takes_cons, h.fault?_eq_none_iff, String.join_cons, ← String.append_assoc]
    by_cases hline : (out.text ++ line).utf8ByteSize ≤ limit
    · have hnext : (out.write line).Limited limit error := ⟨h.take, hline⟩
      rw [ih hnext]
      exact and_iff_right hline
    · have hmore : ¬(out.text ++ line ++ String.join lines).utf8ByteSize ≤ limit := by
        rw [String.utf8ByteSize_append]
        omega
      exact iff_of_false (fun h => hline h.1) hmore

/-- a limit is not passed by lines that are taken -/
theorem Limited.write (htakes : out.Takes lines) : (out.write (String.join lines)).Limited limit error :=
  ⟨h.take, h.takes_iff.1 htakes⟩

end Limited

end Output

namespace Query

variable {ς : Type} [LineSource ς] {g : Grammar Char} {threshold : Log.Threshold} {p p' : Progress ς} {fault : Fault}

/-! ## One query -/

/-- a query is not answered: its line cannot be read, or else its answer cannot be written, except for a part -/
inductive Unanswered (g : Grammar Char) (p : Progress ς) : (part : String) → Fault → Prop where
  | read {error : SourceError} (fails : lineAt p.source 0 = .error error) : Unanswered g p "" (.unreadable error)
  | write {line part : String} {error : IoError} (next : lineAt p.source 0 = .ok line)
    (front : part.toList <+: (answerTo g line).toList) (short : part ≠ answerTo g line)
    (fails : p.output.writeAll (answerTo g line).toList = (some error, p.output.write part)) :
    Unanswered g p part (.unwritable error)

theorem answer_of_unanswered {part : String} (threshold : Log.Threshold) (h : Unanswered g p part fault) :
    (answer g threshold p).1 = some fault ∧ (answer g threshold p).2.output = p.output.write part := by
  unfold answer
  rw [nextLine_eq]
  cases h with
  | read fails =>
    rw [fails, Output.write_empty]
    exact ⟨rfl, rfl⟩
  | write next front short fails =>
    simp only [next, verdict_recognize, answerLine_verdictOn, fails, Option.map_some, true_and]

theorem exists_unanswered (h : (answer g threshold p).1 = some fault) : ∃ part, Unanswered g p part fault := by
  unfold answer at h
  rw [nextLine_eq] at h
  cases hline : lineAt p.source 0 with
  | error error =>
    rw [hline] at h
    cases h
    exact ⟨"", .read hline⟩
  | ok line =>
    simp only [hline, verdict_recognize, answerLine_verdictOn] at h
    obtain ⟨error, hfault, rfl⟩ := Option.map_eq_some_iff.1 h
    obtain ⟨part, hfront, hshort, hfails⟩ := Output.exists_part hfault
    exact ⟨part, .write hline hfront hshort hfails⟩

/-! ## All queries -/

/-- a loop stops at a query that is not answered, those before it having been answered -/
theorem answerAll_eq_some_iff {left : Nat} : answerAll g threshold left p = (some fault, p') ↔
    ∃ n < left, ∃ q, answerAll g threshold n p = (none, q) ∧ answer g threshold q = (some fault, p') := by
  induction left generalizing p with
  | zero => simp [answerAll]
  | succ left ih =>
    rcases hanswer : answer g threshold p with ⟨_ | fault', q⟩
    · -- the first query is answered, so the loop goes on as one over the other queries
      have hstep (n : Nat) : answerAll g threshold (n + 1) p = answerAll g threshold n q := by rw [answerAll, hanswer]
      rw [hstep, ih]
      constructor
      · rintro ⟨n, hn, q', hq'⟩
        exact ⟨n + 1, Nat.succ_lt_succ hn, q', by rwa [hstep]⟩
      · rintro ⟨n, hn, q', hbefore, hq'⟩
        cases n with
        | zero =>
          cases hbefore
          rw [hanswer] at hq'
          cases hq'
        | succ n => exact ⟨n, Nat.lt_of_succ_lt_succ hn, q', hstep n ▸ hbefore, hq'⟩
    · -- the loop stops here, and so do all loops over at least one query
      have hstep (n : Nat) : answerAll g threshold (n + 1) p = (some fault', q) := by rw [answerAll, hanswer]
      rw [hstep]
      constructor
      · intro hfault
        exact ⟨0, Nat.succ_pos _, p, rfl, hanswer.trans hfault⟩
      · rintro ⟨n, -, q', hbefore, hq'⟩
        cases n with
        | zero =>
          cases hbefore
          exact hanswer.symm.trans hq'
        | succ n =>
          rw [hstep] at hbefore
          cases hbefore

/-! ## The first action that fails -/

variable {source : ς} {output : Output} {count : Nat} {first part : String} {lines : List String}

/-- the first lines after the count have been read, and their answers taken -/
structure Answers (g : Grammar Char) (source : ς) (output : Output) (lines : List String) : Prop where
  read : ∀ i line, lines[i]? = some line → lineAt (opened source) (1 + i) = .ok line
  takes : output.Takes (lines.map (answerTo g))

/-- a run over a number of queries stops: some lines have been answered, and the action that comes next fails. That is to read
one more line, to write its answer, of which a part from the front may be taken, or, after the last answer, to flush the
output. -/
inductive Stops (g : Grammar Char) (source : ς) (output : Output) (count : Nat) :
    List String → (part : String) → Fault → Prop where
  | read {lines : List String} {error : SourceError} (more : lines.length < count)
    (answered : Answers g source output lines) (fails : lineAt (opened source) (1 + lines.length) = .error error) :
    Stops g source output count lines "" (.unreadable error)
  | write {lines : List String} {line part : String} {error : IoError} (more : lines.length < count)
    (answered : Answers g source output lines) (next : lineAt (opened source) (1 + lines.length) = .ok line)
    (front : part.toList <+: (answerTo g line).toList) (short : part ≠ answerTo g line)
    (fails : (output.write (String.join (lines.map (answerTo g)))).writeAll (answerTo g line).toList =
      (some error, (output.write (String.join (lines.map (answerTo g)))).write part)) :
    Stops g source output count lines part (.unwritable error)
  | flush {lines : List String} {error : IoError} (all : lines.length = count)
    (answered : Answers g source output lines) (fails : output.flushFault = some error) :
    Stops g source output count lines "" (.unwritable error)

/-- a loop that meets no fault has answered as many lines as it was to -/
theorem answerAll_opened_eq_none_iff :
    answerAll g threshold count { source := after (opened source) 1, output } = (none, p') ↔
      ∃ lines, lines.length = count ∧ Answers g source output lines ∧ p' = finished g threshold source output lines := by
  simp only [answerAll_eq_none_iff, lineAt_after]
  constructor
  · rintro ⟨lines, hlength, hread, htakes, rfl⟩
    exact ⟨lines, hlength, ⟨hread, htakes⟩, rfl⟩
  · rintro ⟨lines, hlength, ⟨hread, htakes⟩, rfl⟩
    exact ⟨lines, hlength, hread, htakes, rfl⟩

theorem stops_iff_of_lt (threshold : Log.Threshold) (more : lines.length < count) (answered : Answers g source output lines) :
    Stops g source output count lines part fault ↔ Unanswered g (finished g threshold source output lines) part fault := by
  have hline : lineAt (finished g threshold source output lines).source 0 = lineAt (opened source) (1 + lines.length) := by
    rw [source_finished, lineAt_after, Nat.add_zero]
  have houtput : (finished g threshold source output lines).output =
      output.write (String.join (lines.map (answerTo g))) := output_finished
  constructor
  · intro h
    cases h with
    | read _ _ fails => exact .read (hline.trans fails)
    | write _ _ next front short fails =>
      rw [← houtput] at fails
      exact .write (hline.trans next) front short fails
    | flush all => exact absurd all (Nat.ne_of_lt more)
  · intro h
    cases h with
    | read fails => exact .read more answered (hline.symm.trans fails)
    | write next front short fails =>
      rw [houtput] at fails
      exact .write more answered (hline.symm.trans next) front short fails

theorem stops_iff_of_eq (all : lines.length = count) (answered : Answers g source output lines) :
    Stops g source output count lines part fault ↔ part = "" ∧ output.flushFault.map .unwritable = some fault := by
  rw [Option.map_eq_some_iff]
  constructor
  · intro h
    cases h with
    | read more => exact absurd all (Nat.ne_of_lt more)
    | write more => exact absurd all (Nat.ne_of_lt more)
    | flush _ _ fails => exact ⟨rfl, _, fails, rfl⟩
  · rintro ⟨rfl, error, fails, rfl⟩
    exact .flush all answered fails

theorem Stops.answers (h : Stops g source output count lines part fault) : Answers g source output lines := by
  cases h <;> assumption

theorem Stops.length_le (h : Stops g source output count lines part fault) : lines.length ≤ count := by
  cases h with
  | read more => exact Nat.le_of_lt more
  | write more => exact Nat.le_of_lt more
  | flush all => exact Nat.le_of_eq all

section Accepted

variable (hfirst : lineAt (opened source) 0 = .ok first) (hcount : Text.Writes (Text.trimChars first.toList) count)

include hfirst hcount

theorem runOpen_of_count : runOpen g threshold { source := opened source, output } =
    match answerAll g threshold count { source := after (opened source) 1, output } with
    | (some fault, p) => (some fault, p)
    | (none, p) => (p.output.flushFault.map .unwritable, p) := by
  unfold runOpen
  rw [nextLine_eq, hfirst]
  have hcount' := Text.count?_eq_some_iff.2 hcount
  rcases hall : answerAll g threshold count { source := after (opened source) 1, output } with ⟨_ | fault, p⟩ <;>
    simp only [hcount', hall]

theorem exists_stops_of_runOpen (h : runOpen g threshold { source := opened source, output } = (some fault, p')) :
    ∃ lines part, Stops g source output count lines part fault := by
  rw [runOpen_of_count hfirst hcount] at h
  rcases hall : answerAll g threshold count { source := after (opened source) 1, output } with ⟨_ | fault', q⟩
  · obtain ⟨lines, hlength, hanswers, rfl⟩ := answerAll_opened_eq_none_iff.1 hall
    rw [hall] at h
    obtain ⟨hflush, -⟩ := Prod.mk.inj h
    rw [output_finished] at hflush
    exact ⟨lines, "", (stops_iff_of_eq hlength hanswers).2 ⟨rfl, hflush⟩⟩
  · rw [hall] at h
    cases h
    obtain ⟨n, hn, q, hbefore, hanswer⟩ := answerAll_eq_some_iff.1 hall
    obtain ⟨lines, rfl, hanswers, rfl⟩ := answerAll_opened_eq_none_iff.1 hbefore
    obtain ⟨part, hpart⟩ := exists_unanswered (congrArg Prod.fst hanswer)
    exact ⟨lines, part, (stops_iff_of_lt threshold hn hanswers).2 hpart⟩

theorem runOpen_of_stops (h : Stops g source output count lines part fault) :
    ∃ p', runOpen g threshold { source := opened source, output } = (some fault, p') ∧
      p'.output = output.write (String.join (lines.map (answerTo g)) ++ part) := by
  rw [runOpen_of_count hfirst hcount]
  have hbefore : answerAll g threshold lines.length { source := after (opened source) 1, output } =
      (none, finished g threshold source output lines) :=
    answerAll_opened_eq_none_iff.2 ⟨lines, rfl, h.answers, rfl⟩
  rcases Nat.lt_or_eq_of_le h.length_le with hlt | heq
  · obtain ⟨hfault, houtput⟩ := answer_of_unanswered threshold ((stops_iff_of_lt threshold hlt h.answers).1 h)
    have hall := answerAll_eq_some_iff.2 ⟨_, hlt, _, hbefore, Prod.ext hfault rfl⟩
    refine ⟨_, by rw [hall], ?_⟩
    rw [houtput, output_finished, Output.write_write]
  · obtain ⟨rfl, hflush⟩ := (stops_iff_of_eq heq h.answers).1 h
    refine ⟨finished g threshold source output lines, ?_, ?_⟩
    · rw [← heq, hbefore]
      simp only [output_finished]
      exact Prod.ext hflush rfl
    · rw [output_finished, String.append_empty]

end Accepted

/-! ## A run that stops -/

/-- a run has ended with a fault, and added to the output the answers to some lines, a part of one more and nothing else -/
structure Outcome.Stopped (g : Grammar Char) (before : Output) (o : Outcome ς) (lines : List String) (part : String)
    (fault : Fault) : Prop where
  result : o.result = .error fault
  output : o.output = before.write (String.join (lines.map (answerTo g)) ++ part)

omit [LineSource ς] in
/-- without lines nothing is written -/
theorem stopped_nil_iff {o : Outcome ς} : o.Stopped g output [] "" fault ↔ o.result = .error fault ∧ o.output = output := by
  constructor
  · rintro ⟨hresult, houtput⟩
    exact ⟨hresult, houtput.trans output.write_empty⟩
  · rintro ⟨hresult, houtput⟩
    exact ⟨hresult, houtput.trans output.write_empty.symm⟩

theorem stopped_of_start_error {error : SourceError} (h : (start source).1 = .error error) :
    (run g threshold source output).Stopped g output [] "" (.unreadable error) := by
  rw [stopped_nil_iff]
  unfold run
  rcases hstart : start source with ⟨result, t⟩
  rw [hstart] at h
  obtain rfl : result = .error error := h
  exact ⟨rfl, rfl⟩

section Opened

variable (hopen : (start source).1 = .ok ())

include hopen

theorem run_of_runOpen (h : runOpen g threshold { source := opened source, output } = (some fault, p')) :
    (run g threshold source output).result = .error fault ∧ (run g threshold source output).output = p'.output := by
  rw [run_of_opens hopen, h]
  exact ⟨rfl, rfl⟩

theorem stopped_of_unreadable_count {error : SourceError} (h : lineAt (opened source) 0 = .error error) :
    (run g threshold source output).Stopped g output [] "" (.unreadable error) := by
  have hrun : runOpen g threshold { source := opened source, output } =
      (some (.unreadable error), { source := after (opened source) 1, output }) := by
    unfold runOpen
    rw [nextLine_eq, h]
  exact stopped_nil_iff.2 (run_of_runOpen hopen hrun)

theorem stopped_of_no_count (hfirst : lineAt (opened source) 0 = .ok first)
    (h : ¬∃ count, Text.Writes (Text.trimChars first.toList) count) :
    (run g threshold source output).Stopped g output [] "" (.invalidCount first) := by
  have hrun : runOpen g threshold { source := opened source, output } =
      (some (.invalidCount first), { source := after (opened source) 1, output }) := by
    unfold runOpen
    rw [nextLine_eq, hfirst]
    simp only [Text.count?_eq_none_iff.2 h]
  exact stopped_nil_iff.2 (run_of_runOpen hopen hrun)

section Accepted

variable (hfirst : lineAt (opened source) 0 = .ok first) (hcount : Text.Writes (Text.trimChars first.toList) count)

include hfirst hcount

theorem stopped_of_stops (h : Stops g source output count lines part fault) :
    (run g threshold source output).Stopped g output lines part fault := by
  obtain ⟨p', hrun, houtput⟩ := runOpen_of_stops hfirst hcount h
  obtain ⟨hresult, hsame⟩ := run_of_runOpen hopen hrun
  exact ⟨hresult, hsame.trans houtput⟩

theorem exists_stops (h : (run g threshold source output).result = .error fault) :
    ∃ lines part, Stops g source output count lines part fault := by
  rw [run_of_opens hopen] at h
  rcases hrun : runOpen g threshold { source := opened source, output } with ⟨_ | fault', p'⟩
  · rw [hrun] at h
    cases h
  · rw [hrun] at h
    cases h
    exact exists_stops_of_runOpen hfirst hcount hrun

end Accepted

end Opened

/-! ## Faults of their own -/

theorem utf8ByteSize_answerLine (verdict : Verdict) :
    3 ≤ (answerLine verdict).utf8ByteSize ∧ (answerLine verdict).utf8ByteSize ≤ 4 := by
  unfold answerLine
  split <;> decide

theorem utf8ByteSize_answerTo (g : Grammar Char) (line : String) :
    3 ≤ (answerTo g line).utf8ByteSize ∧ (answerTo g line).utf8ByteSize ≤ 4 := by
  rw [← answerLine_verdictOn]
  exact utf8ByteSize_answerLine _

/-- whole answers are as long as so many threes and fours -/
theorem utf8ByteSize_answers (verdicts : List Verdict) :
    3 * verdicts.length ≤ (String.join (verdicts.map answerLine)).utf8ByteSize ∧
      (String.join (verdicts.map answerLine)).utf8ByteSize ≤ 4 * verdicts.length := by
  induction verdicts with
  | nil => simp
  | cons verdict verdicts ih =>
    have hline := utf8ByteSize_answerLine verdict
    rw [List.map_cons, String.join_cons, String.utf8ByteSize_append, List.length_cons]
    omega

/-- a source that ends too soon -/
theorem stops_of_gives (h : Gives source (first :: lines)) (more : lines.length < count)
    (htakes : output.Takes (lines.map (answerTo g))) : Stops g source output count lines "" (.unreadable .endOfInput) := by
  refine .read more ⟨fun i line hi => ?_, htakes⟩ ?_
  · rw [h.lineAt_opened, Nat.add_comm, List.getElem?_cons_succ, hi]
    rfl
  · rw [h.lineAt_opened, Nat.add_comm, List.getElem?_cons_succ, List.getElem?_length]
    rfl

/-- an output that refuses lines past its limit holds the answers to as many lines as fit in -/
theorem exists_stops_of_limited {limit : Nat} {error : IoError} (hlimit : output.Limited limit error)
    (hle : lines.length ≤ count) (hread : ∀ i line, lines[i]? = some line → lineAt (opened source) (1 + i) = .ok line)
    (hsize : limit < (output.text ++ String.join (lines.map (answerTo g))).utf8ByteSize) :
    ∃ taken, taken <+: lines ∧ Stops g source output count taken "" (.unwritable error) ∧
      ∀ front, front <+: lines →
        ((output.text ++ String.join (front.map (answerTo g))).utf8ByteSize ≤ limit ↔ front <+: taken) := by
  have hrefused : ¬output.Takes (lines.map (answerTo g)) := by
    rw [hlimit.takes_iff]
    exact Nat.not_le.2 hsize
  obtain ⟨answers, answer, later, hanswers, htakes, hfails⟩ := Output.exists_refused hrefused
  obtain ⟨taken, rest, rfl, rfl, hrest⟩ := List.map_eq_append_iff.1 hanswers
  obtain ⟨line, rest, rfl, rfl, rfl⟩ := List.map_eq_cons_iff.1 hrest
  refine ⟨taken, List.prefix_append _ _, ?_, fun front hfront => ?_⟩
  · have hline : (taken ++ line :: rest)[taken.length]? = some line := by
      rw [List.getElem?_append_right (Nat.le_refl _), Nat.sub_self, List.getElem?_cons_zero]
    have hempty : "" ≠ answerTo g line := by
      intro h
      have := (utf8ByteSize_answerTo g line).1
      rw [← h] at this
      exact absurd this (by decide)
    refine .write ?_ ⟨fun i line' hi => ?_, htakes⟩ (hread _ _ hline) List.nil_prefix hempty ?_
    · rw [List.length_append, List.length_cons] at hle
      omega
    · refine hread i line' ?_
      rwa [List.getElem?_append_left (List.getElem?_eq_some_iff.1 hi).1]
    · rw [Output.write_empty]
      have hlimit' := hlimit.write htakes
      exact hlimit'.writeAll_of_lt (mt hlimit'.fault?_eq_none_iff.2 hfails)
  · rw [← hlimit.takes_iff, Output.takes_front_iff htakes hfails (hanswers ▸ hfront.map _)]
    constructor
    · intro h
      exact List.prefix_of_prefix_length_le hfront (List.prefix_append _ _) (by simpa using h.length_le)
    · intro h
      exact h.map _

/-- what a run without fault writes begins with the answers to its first lines -/
theorem answers_of_completes {rest : List String} (h : Completes g source .unbounded (lines ++ rest)) :
    (run g threshold source .unbounded).output.text =
      String.join (lines.map (answerTo g)) ++ String.join (rest.map (answerTo g)) := by
  rw [run_of_completes h, output_finished, List.map_append, String.join_append]
  exact String.empty_append

variable (g threshold source output)

/-- **Where a run stops, and what it has written.** Until the count has been read nothing is written, and a line that is no
count is reported as it is. From then on the fault is that of the first action that fails, and what has been written are the
answers to the lines before it, as a run without fault writes them too, and after them the part of the next answer that was
taken before writing it failed. When its answers are taken, a source that ends too soon is reported after the answer to its
last line. An output that refuses lines past its limit holds the answers to as many lines as fit in, and one that cannot be
flushed holds them all. -/
theorem run_stops :
    (∀ error, (start source).1 = .error error →
      (run g threshold source output).Stopped g output [] "" (.unreadable error)) ∧
    ((start source).1 = .ok () →
      (∀ error, lineAt (opened source) 0 = .error error →
        (run g threshold source output).Stopped g output [] "" (.unreadable error)) ∧
      ∀ first, lineAt (opened source) 0 = .ok first →
        ((¬∃ count, Text.Writes (Text.trimChars first.toList) count) →
          (run g threshold source output).Stopped g output [] "" (.invalidCount first)) ∧
        ∀ count, Text.Writes (Text.trimChars first.toList) count →
          (∀ fault, (run g threshold source output).result = .error fault →
            ∃ lines part, Stops g source output count lines part fault) ∧
          (∀ lines part fault, Stops g source output count lines part fault →
            (run g threshold source output).Stopped g output lines part fault) ∧
          (∀ lines, Gives source (first :: lines) → lines.length < count → output.Takes (lines.map (answerTo g)) →
            (run g threshold source output).Stopped g output lines "" (.unreadable .endOfInput)) ∧
          (∀ limit error lines, output.Limited limit error → lines.length ≤ count →
            (∀ i line, lines[i]? = some line → lineAt (opened source) (1 + i) = .ok line) →
            limit < (output.text ++ String.join (lines.map (answerTo g))).utf8ByteSize →
            ∃ taken, taken <+: lines ∧
              (run g threshold source output).Stopped g output taken "" (.unwritable error) ∧
              ∀ front, front <+: lines →
                ((output.text ++ String.join (front.map (answerTo g))).utf8ByteSize ≤ limit ↔ front <+: taken)) ∧
          ∀ lines error, lines.length = count → Answers g source output lines → output.flushFault = some error →
            (run g threshold source output).Stopped g output lines "" (.unwritable error)) ∧
    ∀ (ς' : Type) [LineSource ς'] (s' : ς') (threshold' : Log.Threshold) (lines rest : List String),
      Completes g s' .unbounded (lines ++ rest) → (run g threshold' s' .unbounded).output.text =
        String.join (lines.map (answerTo g)) ++ String.join (rest.map (answerTo g)) := by
  refine ⟨fun error => stopped_of_start_error, fun hopen => ⟨fun error => stopped_of_unreadable_count hopen, ?_⟩, ?_⟩
  · intro first hfirst
    refine ⟨stopped_of_no_count hopen hfirst, fun count hcount => ?_⟩
    have hstopped {lines : List String} {part : String} {fault : Fault} (h : Stops g source output count lines part fault) :
        (run g threshold source output).Stopped g output lines part fault := stopped_of_stops hopen hfirst hcount h
    refine ⟨fun fault => exists_stops hopen hfirst hcount, fun lines part fault => hstopped, ?_, ?_, ?_⟩
    · intro lines hgives hmore htakes
      exact hstopped (stops_of_gives hgives hmore htakes)
    · intro limit error lines hlimit hle hread hsize
      obtain ⟨taken, htaken, hstops, hlongest⟩ := exists_stops_of_limited hlimit hle hread hsize
      exact ⟨taken, htaken, hstopped hstops, hlongest⟩
    · intro lines error hall hanswers hflush
      exact hstopped (.flush hall hanswers hflush)
  · intro ς' _ s' threshold' lines rest h
    exact answers_of_completes h

/-- an output that holds five bytes and refuses lines past them -/
def smallOutput : Output := .bounded 5 ⟨"no room"⟩

/-- five bytes have room for one of two answers, whichever they are; and of three queries only one is there -/
theorem run_stops_sample : (start sampleQueries).1 = .ok () ∧ lineAt (opened sampleQueries) 0 = .ok " +2 " ∧
    Text.Writes (Text.trimChars " +2 ".toList) 2 ∧ smallOutput.Limited 5 ⟨"no room"⟩ ∧
    (∃ taken, taken <+: ["\tab", "ba"] ∧ ["\tab"] <+: taken ∧
      (run Grammar.sample none sampleQueries smallOutput).Stopped Grammar.sample smallOutput taken ""
        (.unwritable ⟨"no room"⟩)) ∧
    (run Grammar.sample none (TextSource.ofText "3\nab") .unbounded).Stopped Grammar.sample .unbounded ["ab"] ""
      (.unreadable .endOfInput) := by
  have hfirst : lineAt (opened sampleQueries) 0 = .ok " +2 " := by cbv
  have hcount : Text.Writes (Text.trimChars " +2 ".toList) 2 := Text.count?_eq_some_iff.1 (by cbv)
  have hlimit : smallOutput.Limited 5 ⟨"no room"⟩ := ⟨rfl, Nat.zero_le _⟩
  have hab := utf8ByteSize_answerTo Grammar.sample "\tab"
  have hba := utf8ByteSize_answerTo Grammar.sample "ba"
  have hone : (smallOutput.text ++ String.join (["\tab"].map (answerTo Grammar.sample))).utf8ByteSize ≤ 5 := by
    have hfits : (answerTo Grammar.sample "\tab").utf8ByteSize ≤ 5 := by omega
    simpa [smallOutput, Output.bounded] using hfits
  have htwo : 5 < (smallOutput.text ++ String.join (["\tab", "ba"].map (answerTo Grammar.sample))).utf8ByteSize := by
    have hmore : 5 < (answerTo Grammar.sample "\tab").utf8ByteSize + (answerTo Grammar.sample "ba").utf8ByteSize := by
      omega
    simpa [smallOutput, Output.bounded, String.utf8ByteSize_append] using hmore
  have hthree : Text.Writes (Text.trimChars "3".toList) 3 := Text.count?_eq_some_iff.1 (by cbv)
  have hlines : (TextSource.ofText "3\nab").lines = ["3", "ab"] := by cbv
  have hgives : Gives (TextSource.ofText "3\nab") ["3", "ab"] := hlines ▸ TextSource.gives_ofText "3\nab"
  obtain ⟨-, hrun, -⟩ := run_stops Grammar.sample none sampleQueries smallOutput
  obtain ⟨-, -, -, hbounded, -⟩ := ((hrun rfl).2 _ hfirst).2 2 hcount
  obtain ⟨-, hshort, -⟩ := run_stops Grammar.sample none (TextSource.ofText "3\nab") .unbounded
  obtain ⟨-, -, hmissing, -⟩ := ((hshort rfl).2 "3" (hgives.lineAt_opened 0)).2 3 hthree
  obtain ⟨taken, htaken, hstopped, hlongest⟩ := hbounded 5 _ _ hlimit (Nat.le_refl _) completes_sample.read htwo
  have htab : ["\tab"] <+: taken := (hlongest _ ⟨["ba"], rfl⟩).1 hone
  exact ⟨rfl, hfirst, hcount, hlimit, ⟨taken, htaken, htab, hstopped⟩,
    hmissing _ hgives (by decide) (Output.takes_unbounded _)⟩

/-! ## An answer that is cut off -/

theorem answerTo_sample : answerTo Grammar.sample "ab" = "YES\n" := by
  have hword : (Text.trim "ab").toList = ['a', 'b'] := by cbv
  have hverdict : verdictOn Grammar.sample "ab" = .accepted := by
    unfold verdictOn Grammar.checkText
    rw [hword]
    rcases Grammar.check_of_terminals (Grammar.lawful_of_ofDeclarations Grammar.ofDeclarations_sample)
      Grammar.classify_sample with ⟨-, haccepted⟩ | ⟨hnot, -⟩
    · exact haccepted
    · rw [Grammar.filterMap_ids_sample] at hnot
      exact absurd Grammar.derives_sample_ab hnot
  rw [answerTo, if_pos hverdict]

theorem writes_two : Text.Writes (Text.trimChars "2".toList) 2 := Text.count?_eq_some_iff.1 (by cbv)

/-- when an output has room for five characters, a second answer is cut off after the first of its four -/
theorem stopped_slice_sample : (run Grammar.sample none (TextSource.ofText "2\nab\nab") (.slice 5)).Stopped Grammar.sample
    (.slice 5) ["ab"] "Y" (.unwritable .writeZero) := by
  have hgives : Gives (TextSource.ofText "2\nab\nab") ["2", "ab", "ab"] :=
    (by cbv : (TextSource.ofText "2\nab\nab").lines = ["2", "ab", "ab"]) ▸ TextSource.gives_ofText "2\nab\nab"
  have hnext : lineAt (opened (TextSource.ofText "2\nab\nab")) (1 + 1) = .ok "ab" := hgives.lineAt_opened 2
  refine stopped_of_stops rfl (hgives.lineAt_opened 0) writes_two (.write (by decide) ⟨?_, ?_⟩ hnext ?_ ?_ ?_)
  · simp [forall_getElem?_cons, hgives.lineAt_opened]
  · rw [List.map_singleton, Output.takes_cons, answerTo_sample]
    exact ⟨by cbv, Output.takes_nil⟩
  · rw [answerTo_sample]
    decide
  · rw [answerTo_sample]
    decide
  · rw [List.map_singleton, answerTo_sample]
    cbv

/-- an output that takes nothing fails before the missing query is asked for -/
theorem stopped_bounded_sample : (run Grammar.sample none (TextSource.ofText "2\nab") (.bounded 0 ⟨"sink full"⟩)).Stopped
    Grammar.sample (.bounded 0 ⟨"sink full"⟩) [] "" (.unwritable ⟨"sink full"⟩) := by
  have hgives : Gives (TextSource.ofText "2\nab") ["2", "ab"] :=
    (by cbv : (TextSource.ofText "2\nab").lines = ["2", "ab"]) ▸ TextSource.gives_ofText "2\nab"
  have hnext : lineAt (opened (TextSource.ofText "2\nab")) (1 + 0) = .ok "ab" := hgives.lineAt_opened 1
  refine stopped_of_stops rfl (hgives.lineAt_opened 0) writes_two (.write (by decide) ⟨?_, ?_⟩ hnext ?_ ?_ ?_)
  · simp
  · exact Output.takes_nil
  · exact List.nil_prefix
  · rw [answerTo_sample]
    decide
  · rw [List.map_nil, answerTo_sample]
    cbv

/-- A run can leave a part of an answer, so that what it has written is no list of answers. And an output that takes nothing
is reported before a source with too few queries is. -/
theorem run_cuts_answer :
    ((run Grammar.sample none (TextSource.ofText "2\nab\nab") (.slice 5)).result = .error (.unwritable .writeZero) ∧
      (run Grammar.sample none (TextSource.ofText "2\nab\nab") (.slice 5)).output.text = "YES\nY" ∧
      ∀ verdicts : List Verdict, "YES\nY" ≠ String.join (verdicts.map answerLine)) ∧
    (run Grammar.sample none (TextSource.ofText "2\nab") (.bounded 0 ⟨"sink full"⟩)).result =
        .error (.unwritable ⟨"sink full"⟩) ∧
      (run Grammar.sample none (TextSource.ofText "2\nab") (.bounded 0 ⟨"sink full"⟩)).output.text = "" := by
  have hjoin (verdicts : List Verdict) : "YES\nY" ≠ String.join (verdicts.map answerLine) := by
    -- five is no sum of threes and fours
    intro h
    obtain ⟨hlow, hhigh⟩ := utf8ByteSize_answers verdicts
    have hfive : (String.join (verdicts.map answerLine)).utf8ByteSize = 5 := by rw [← h]; decide
    omega
  refine ⟨⟨stopped_slice_sample.result, ?_, hjoin⟩, stopped_bounded_sample.result, ?_⟩
  · rw [stopped_slice_sample.output, List.map_singleton, answerTo_sample]
    rfl
  · rw [stopped_bounded_sample.output, List.map_nil]
    rfl

end Query

end CfgMembership
