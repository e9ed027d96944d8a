/-
What a run over a query list writes and counts.

A query that is read and whose answer is taken changes a run in one way (`Progress.answered`, `answer_eq_none_iff`), and a
loop over queries does that for each line in turn (`answerAll_eq_none_iff`). `Completes` says when a run meets no fault, and
`run_completes` what it has then read, written and counted.
-/
import Mathlib
import CfgMembership.Query
import CfgMembership.Proofs.Grammar.Lawful
import CfgMembership.Proofs.Source
import CfgMembership.Proofs.Text.Count

namespace CfgMembership

open LineSource

namespace Output

variable {out : Output} {line : String} {lines : List String} {left : List Char}

theorem write_empty (out : Output) : out.write "" = out := by simp [write]

theorem write_write (out : Output) (a b : String) : (out.write a).write b = out.write (a ++ b) := by
  simp [write, String.append_assoc]

/-- what is written is a front part of the text, and all of it just when there is no fault -/
theorem writeAll_spec (out : Output) (left : List Char) : ∃ part, part <+: left ∧
    (out.writeAll left).2 = out.write (String.ofList part) ∧ ((out.writeAll left).1 = none ↔ part = left) := by
  fun_induction writeAll out left with
  | case1 out => exact ⟨[], List.prefix_refl _, (write_empty out).symm, by simp⟩
  | case2 out left hne error _ => exact ⟨[], List.nil_prefix, (write_empty out).symm, by simpa [eq_comm] using hne⟩
  | case3 out left hne _ => exact ⟨[], List.nil_prefix, (write_empty out).symm, by simpa [eq_comm] using hne⟩
  | case4 out left hne n _ ih =>
    obtain ⟨part, ⟨rest, hrest⟩, htext, hall⟩ := ih
    have hsplit : left.take (n + 1) ++ left.drop (n + 1) = left := List.take_append_drop (n + 1) left
    refine ⟨left.take (n + 1) ++ part, ⟨rest, by rw [List.append_assoc, hrest, hsplit]⟩, ?_, ?_⟩
    · rw [htext, write_write, String.ofList_append]
    · rw [hall]
      constructor
      · intro heq
        rw [heq, hsplit]
      · intro heq
        exact List.append_cancel_left (heq.trans hsplit.symm)

theorem writeAll_of_taken (h : out.fault? line = none) : out.writeAll line.toList = (none, out.write line) := by
  obtain ⟨part, -, htext, hall⟩ := out.writeAll_spec line.toList
  rw [hall.1 h, String.ofList_toList] at htext
  exact Prod.ext h htext

/-- of a text that is not taken as a whole, a part from the front is taken, which may be empty -/
theorem exists_part {error : IoError} (h : out.fault? line = some error) : ∃ part : String,
    part.toList <+: line.toList ∧ part ≠ line ∧ out.writeAll line.toList = (some error, out.write part) := by
  obtain ⟨part, hpart, htext, hall⟩ := out.writeAll_spec line.toList
  refine ⟨String.ofList part, by rwa [String.toList_ofList], ?_, Prod.ext h htext⟩
  rintro rfl
  have hnone := hall.2 (String.toList_ofList).symm
  rw [fault?, hnone] at h
  cases h

/-- a text that one write takes is taken -/
theorem fault?_of_take (h : out.take out.text line = .ok line.length) : out.fault? line = none := by
  rw [fault?, writeAll]
  split
  · rfl
  · rename_i hne
    obtain ⟨n, hn⟩ := Nat.exists_eq_succ_of_ne_zero (mt List.length_eq_zero_iff.1 hne)
    rw [String.ofList_toList, h, ← String.length_toList, hn]
    simp only
    rw [List.drop_of_length_le (Nat.le_of_eq hn), writeAll, if_pos rfl]

/-- nothing is taken of a text whose first write fails -/
theorem writeAll_of_error {error : IoError} (hne : line ≠ "") (h : out.take out.text line = .error error) :
    out.writeAll line.toList = (some error, out) := by
  rw [writeAll, if_neg (mt String.toList_eq_nil_iff.1 hne), String.ofList_toList, h]

/-- lines of text are taken one after the other -/
def Takes (out : Output) (lines : List String) : Prop :=
  ∀ i line, lines[i]? = some line → (out.write (String.join (lines.take i))).fault? line = none

theorem takes_nil : out.Takes [] := by simp [Takes]

theorem takes_cons : out.Takes (line :: lines) ↔ out.fault? line = none ∧ (out.write line).Takes lines := by
  unfold Takes
  rw [forall_getElem?_cons]
  simp only [List.take_zero, List.take_succ_cons, String.join_nil, String.join_cons, write_empty, write_write]

theorem takes_unbounded (lines : List String) : unbounded.Takes lines := fun _ _ _ => fault?_of_take rfl

end Output

namespace Query

variable {ς : Type} [LineSource ς] {g : Grammar Char} {threshold : Log.Threshold} {p p' : Progress ς} {line : String}
  {lines : List String}

/-! ## Counting -/

/-- a verdict counts once, and in the total -/
theorem foldl_record (m : Metrics) (verdicts : List Verdict) : verdicts.foldl Metrics.record m =
    ⟨m.total + verdicts.length, m.accepted + verdicts.count .accepted, m.rejected + verdicts.count .rejected,
      m.malformed + verdicts.countP (· matches .malformed _)⟩ := by
  induction verdicts generalizing m with
  | nil => rfl
  | cons v verdicts ih =>
    rw [List.foldl_cons, ih]
    cases v <;> simp [Metrics.record] <;> omega

/-- the total is the sum of the others -/
def Metrics.Balanced (m : Metrics) : Prop := m.total = m.accepted + m.rejected + m.malformed

theorem Metrics.Balanced.record {m : Metrics} (h : m.Balanced) (v : Verdict) : (m.record v).Balanced := by
  unfold Balanced at h ⊢
  cases v <;> simp only [Metrics.record] <;> omega

theorem Metrics.Balanced.foldl_record {m : Metrics} (h : m.Balanced) (verdicts : List Verdict) :
    (verdicts.foldl Metrics.record m).Balanced := by
  induction verdicts generalizing m with
  | nil => exact h
  | cons v verdicts ih => exact ih (h.record v)

theorem Metrics.total_record (m : Metrics) (v : Verdict) : (m.record v).total = m.total + 1 := by
  cases v <;> rfl

/-! ## One query -/

/-- the verdict on a line is that on the word between the blanks at its ends -/
def verdictOn (g : Grammar Char) (line : String) : Verdict := g.checkText (Text.trim line)

def answerTo (g : Grammar Char) (line : String) : String := if verdictOn g line = .accepted then "YES\n" else "NO\n"

theorem answerLine_verdictOn (g : Grammar Char) (line : String) : answerLine (verdictOn g line) = answerTo g line := by
  unfold answerTo
  cases verdictOn g line <;> rfl

/-- a run after one more line has been read and answered -/
def Progress.answered (g : Grammar Char) (threshold : Log.Threshold) (p : Progress ς) (line : String) : Progress ς where
  source := after p.source 1
  output := p.output.write (answerTo g line)
  metrics := p.metrics.record (verdictOn g line)
  log := p.log ++ (entries g threshold (Text.trim line) (g.recognize (Text.trim line).toList)).toArray

section Answered

variable (g threshold) (p : Progress ς) (line : String)

@[simp] theorem source_answered : (p.answered g threshold line).source = after p.source 1 := rfl

@[simp] theorem output_answered : (p.answered g threshold line).output = p.output.write (answerTo g line) := rfl

@[simp] theorem metrics_answered : (p.answered g threshold line).metrics = p.metrics.record (verdictOn g line) := by
  simp only [Progress.answered]

end Answered

theorem verdict_recognize (g : Grammar Char) (line : String) :
    (g.recognize (Text.trim line).toList).verdict g = verdictOn g line := by
  unfold verdictOn Grammar.checkText Grammar.check
  rfl

theorem answer_eq_none_iff : answer g threshold p = (none, p') ↔
    ∃ line, lineAt p.source 0 = .ok line ∧ p.output.fault? (answerTo g line) = none ∧ p' = p.answered g threshold line := by
  unfold answer
  rw [nextLine_eq]
  cases lineAt p.source 0 with
  | error error => simp
  | ok line =>
    simp only [verdict_recognize, answerLine_verdictOn, Except.ok.injEq, exists_eq_left']
    cases hfault : p.output.fault? (answerTo g line) with
    | some error =>
      obtain ⟨part, -, -, hwrite⟩ := Output.exists_part hfault
      simp [hwrite]
    | none =>
      simp only [Output.writeAll_of_taken hfault, Option.map_none, Prod.mk.injEq, true_and, eq_comm]
      rfl

theorem metrics_answer (g : Grammar Char) (threshold : Log.Threshold) (p : Progress ς) :
    (answer g threshold p).2.metrics = p.metrics ∨ ∃ v, (answer g threshold p).2.metrics = p.metrics.record v := by
  unfold answer
  split
  · exact .inl rfl
  · rename_i line source _
    exact .inr ⟨verdictOn g line, by simp only [verdict_recognize]⟩

/-! ## All queries -/

/-- a loop meets no fault when there are as many lines as are left and their answers are taken -/
theorem answerAll_eq_none_iff {left : Nat} : answerAll g threshold left p = (none, p') ↔
    ∃ lines : List String, lines.length = left ∧ (∀ i line, lines[i]? = some line → lineAt p.source i = .ok line) ∧
      p.output.Takes (lines.map (answerTo g)) ∧ p' = lines.foldl (Progress.answered g threshold) p := by
  induction left generalizing p with
  | zero =>
    simp only [answerAll, List.length_eq_zero_iff, Prod.mk.injEq, true_and]
    constructor
    · rintro rfl
      exact ⟨[], rfl, by simp, Output.takes_nil, rfl⟩
    · rintro ⟨_, rfl, -, -, rfl⟩
      rfl
  | succ left ih =>
    have hstep : answerAll g threshold (left + 1) p = (none, p') ↔
        ∃ q, answer g threshold p = (none, q) ∧ answerAll g threshold left q = (none, p') := by
      rw [answerAll]
      rcases answer g threshold p with ⟨_ | fault, q⟩ <;> simp
    simp only [hstep, answer_eq_none_iff, ih]
    constructor
    · rintro ⟨_, ⟨line, hline, htaken, rfl⟩, lines, hlength, hlines, htakes, rfl⟩
      refine ⟨line :: lines, by simp [hlength], forall_getElem?_cons.2 ⟨hline, fun i l hl => ?_⟩,
        Output.takes_cons.2 ⟨htaken, htakes⟩, List.foldl_cons.symm⟩
      rw [← hlines i l hl, source_answered, lineAt_after, Nat.add_comm]
    · rintro ⟨lines, hlength, hlines, htakes, rfl⟩
      obtain ⟨line, lines, rfl⟩ := List.exists_cons_of_length_eq_add_one hlength
      obtain ⟨hline, hrest⟩ := forall_getElem?_cons.1 hlines
      obtain ⟨htaken, htakes⟩ := Output.takes_cons.1 htakes
      refine ⟨_, ⟨line, hline, htaken, rfl⟩, lines, by simpa using hlength, fun i l hl => ?_, htakes, List.foldl_cons⟩
      rw [← hrest i l hl, source_answered, lineAt_after, Nat.add_comm]

/-- whether or not a loop meets a fault, it counts no query twice -/
theorem metrics_answerAll (g : Grammar Char) (threshold : Log.Threshold) (left : Nat) (h : p.metrics.Balanced) :
    (answerAll g threshold left p).2.metrics.Balanced ∧
      (answerAll g threshold left p).2.metrics.total ≤ p.metrics.total + left := by
  induction left generalizing p with
  | zero => exact ⟨h, Nat.le_refl _⟩
  | succ left ih =>
    have hq : (answer g threshold p).2.metrics.Balanced ∧
        (answer g threshold p).2.metrics.total ≤ p.metrics.total + 1 := by
      rcases metrics_answer g threshold p with hsame | ⟨v, hv⟩
      · rw [hsame]
        exact ⟨h, Nat.le_succ _⟩
      · rw [hv, Metrics.total_record]
        exact ⟨h.record v, Nat.le_refl _⟩
    rw [answerAll]
    rcases hanswer : answer g threshold p with ⟨_ | fault, q⟩
    · rw [hanswer] at hq
      obtain ⟨hbalanced, hle⟩ := ih hq.1
      exact ⟨hbalanced, Nat.le_trans hle (by omega)⟩
    · rw [hanswer] at hq
      exact ⟨hq.1, Nat.le_trans hq.2 (by omega)⟩

section Fold

variable (g threshold) (p : Progress ς) (lines : List String)

theorem source_foldl_answered : (lines.foldl (Progress.answered g threshold) p).source = after p.source lines.length := by
  induction lines generalizing p with
  | nil => rfl
  | cons line lines ih =>
    rw [List.foldl_cons, ih, source_answered, after_after, List.length_cons, Nat.add_comm]

theorem output_foldl_answered : (lines.foldl (Progress.answered g threshold) p).output =
    p.output.write (String.join (lines.map (answerTo g))) := by
  induction lines generalizing p with
  | nil => exact p.output.write_empty.symm
  | cons line lines ih =>
    rw [List.foldl_cons, ih, output_answered, Output.write_write, List.map_cons, String.join_cons]

theorem metrics_foldl_answered : (lines.foldl (Progress.answered g threshold) p).metrics =
    (lines.map (verdictOn g)).foldl Metrics.record p.metrics := by
  induction lines generalizing p with
  | nil => rfl
  | cons line lines ih => rw [List.foldl_cons, ih, metrics_answered, List.map_cons, List.foldl_cons]

end Fold

/-! ## What a run depends on -/

section Agree

variable {ς' : Type} [LineSource ς'] {q : Progress ς'} (g : Grammar Char) {threshold threshold' : Log.Threshold}

/-- runs under way that differ in the kinds of their sources and in what they log only: the sources will give the same lines,
and the logs are equal if the same is logged -/
structure Progress.Agree (threshold threshold' : Log.Threshold) (p : Progress ς) (q : Progress ς') : Prop where
  lineAt : ∀ n, lineAt p.source n = lineAt q.source n
  output : p.output = q.output
  metrics : p.metrics = q.metrics
  log : threshold = threshold' → p.log = q.log

/-- both have read the same line -/
theorem Progress.Agree.next (h : p.Agree threshold threshold' q) :
    ({ p with source := after p.source 1 } : Progress ς).Agree threshold threshold' { q with source := after q.source 1 } where
  lineAt n := by rw [lineAt_after, lineAt_after, h.lineAt]
  output := h.output
  metrics := h.metrics
  log := h.log

theorem answer_agree (h : p.Agree threshold threshold' q) : ∃ fault p' q', answer g threshold p = (fault, p') ∧
    answer g threshold' q = (fault, q') ∧ p'.Agree threshold threshold' q' := by
  unfold answer
  rw [nextLine_eq, nextLine_eq, ← h.lineAt 0]
  cases lineAt p.source 0 with
  | error error => exact ⟨_, _, _, rfl, rfl, h.next⟩
  | ok line =>
    have hlog (hsame : threshold = threshold') :
        p.log ++ (entries g threshold (Text.trim line) (g.recognize (Text.trim line).toList)).toArray =
          q.log ++ (entries g threshold' (Text.trim line) (g.recognize (Text.trim line).toList)).toArray := by
      rw [h.log hsame, hsame]
    simp only [← h.output, ← h.metrics]
    exact ⟨_, _, _, rfl, rfl, h.next.lineAt, rfl, rfl, hlog⟩

theorem answerAll_agree (left : Nat) (h : p.Agree threshold threshold' q) : ∃ fault p' q',
    answerAll g threshold left p = (fault, p') ∧ answerAll g threshold' left q = (fault, q') ∧
      p'.Agree threshold threshold' q' := by
  induction left generalizing p q with
  | zero => exact ⟨none, p, q, rfl, rfl, h⟩
  | succ left ih =>
    obtain ⟨fault, p', q', hp, hq, hagree⟩ := answer_agree g h
    rw [answerAll, answerAll, hp, hq]
    cases fault with
    | none => exact ih hagree
    | some fault => exact ⟨some fault, p', q', rfl, rfl, hagree⟩

theorem runOpen_agree (h : p.Agree threshold threshold' q) : ∃ fault p' q', runOpen g threshold p = (fault, p') ∧
    runOpen g threshold' q = (fault, q') ∧ p'.Agree threshold threshold' q' := by
  unfold runOpen
  rw [nextLine_eq, nextLine_eq, ← h.lineAt 0]
  cases lineAt p.source 0 with
  | error error => exact ⟨_, _, _, rfl, rfl, h.next⟩
  | ok line =>
    simp only
    split
    · exact ⟨_, _, _, rfl, rfl, h.next⟩
    · rename_i count _
      obtain ⟨fault, p', q', hp, hq, hagree⟩ := answerAll_agree g count h.next
      rw [hp, hq]
      cases fault with
      | none => exact ⟨_, p', q', rfl, by rw [hagree.output], hagree⟩
      | some fault => exact ⟨_, p', q', rfl, rfl, hagree⟩

/-- all that a run learns from its source is whether it can be opened, and its lines -/
theorem run_congr (threshold threshold' : Log.Threshold) {source : ς} {source' : ς'} (hstart : (start source).1 = (start source').1)
    (hlines : ∀ n, lineAt (opened source) n = lineAt (opened source') n) (output : Output) :
    (run g threshold source output).result = (run g threshold' source' output).result ∧
      (run g threshold source output).output = (run g threshold' source' output).output ∧
        (threshold = threshold' → (run g threshold source output).log = (run g threshold' source' output).log) := by
  unfold run
  unfold opened at hlines
  rcases hs : start source with ⟨result, s⟩
  rcases hs' : start source' with ⟨result', s'⟩
  rw [hs, hs'] at hstart hlines
  obtain rfl : result = result' := hstart
  cases result with
  | error error => exact ⟨rfl, rfl, fun _ => rfl⟩
  | ok _ =>
    have hopened : ({ source := s, output } : Progress ς).Agree threshold threshold' { source := s', output } :=
      ⟨hlines, rfl, rfl, fun _ => rfl⟩
    obtain ⟨fault, p', q', hp, hq, hagree⟩ := runOpen_agree g hopened
    simp only [hp, hq, hagree.output, hagree.metrics, true_and]
    exact fun hsame => by rw [hagree.log hsame]

/-- what a run gives and writes does not depend on what is logged -/
theorem run_agree (threshold threshold' : Log.Threshold) (source : ς) (output : Output) :
    (run g threshold source output).result = (run g threshold' source output).result ∧
      (run g threshold source output).output = (run g threshold' source output).output := by
  have hagree := run_congr g threshold threshold' (rfl : (start source).1 = (start source).1) (fun _ => rfl) output
  exact ⟨hagree.1, hagree.2.1⟩

end Agree

/-! ## A run -/

/-- a run over a source meets no fault: the source can be opened, its first line is the count of the lines after it that are
asked for, all of them can be read, each answer is taken, and so is the end of the output -/
structure Completes (g : Grammar Char) (source : ς) (output : Output) (lines : List String) : Prop where
  opens : (start source).1 = .ok ()
  count : ∃ first, lineAt (opened source) 0 = .ok first ∧ Text.Writes (Text.trimChars first.toList) lines.length
  read : ∀ i line, lines[i]? = some line → lineAt (opened source) (1 + i) = .ok line
  takes : output.Takes (lines.map (answerTo g))
  flushed : output.flushFault = none

theorem runOpen_eq_none_iff : runOpen g threshold p = (none, p') ↔
    ∃ first count, lineAt p.source 0 = .ok first ∧ Text.Writes (Text.trimChars first.toList) count ∧
      answerAll g threshold count { p with source := after p.source 1 } = (none, p') ∧ p'.output.flushFault = none := by
  unfold runOpen
  rw [nextLine_eq]
  cases lineAt p.source 0 with
  | error error => simp
  | ok first =>
    simp only [Except.ok.injEq, exists_and_left, exists_eq_left', ← Text.count?_eq_some_iff]
    cases Text.count? (Text.trimChars first.toList) with
    | none => simp
    | some count =>
      simp only [Option.some.injEq, exists_eq_left']
      rcases answerAll g threshold count { p with source := after p.source 1 } with ⟨_ | fault, q⟩
      · simp only [Prod.mk.injEq, Option.map_eq_none_iff, true_and]
        constructor
        · rintro ⟨hflush, rfl⟩
          exact ⟨rfl, hflush⟩
        · rintro ⟨rfl, hflush⟩
          exact ⟨hflush, rfl⟩
      · simp

variable {source : ς} {output : Output}

def finished (g : Grammar Char) (threshold : Log.Threshold) (source : ς) (output : Output) (lines : List String) :
    Progress ς :=
  lines.foldl (Progress.answered g threshold) { source := after (opened source) 1, output }

theorem answerTo_eq_yes_iff : answerTo g line = "YES\n" ↔ verdictOn g line = .accepted := by
  unfold answerTo
  split <;> simp_all

theorem output_finished : (finished g threshold source output lines).output =
    output.write (String.join (lines.map (answerTo g))) :=
  output_foldl_answered g threshold _ lines

theorem source_finished : (finished g threshold source output lines).source =
    after (opened source) (1 + lines.length) := by
  rw [finished, source_foldl_answered, after_after]

/-- each line counts once, by its verdict -/
theorem metrics_finished : (finished g threshold source output lines).metrics =
    ⟨lines.length, (lines.map (answerTo g)).count "YES\n", lines.countP (fun line => verdictOn g line = .rejected),
      lines.countP (fun line => verdictOn g line matches .malformed _)⟩ := by
  rw [finished, metrics_foldl_answered, foldl_record]
  simp only [Nat.zero_add, List.length_map, List.count, List.countP_map, Function.comp_def, Metrics.mk.injEq, true_and,
    and_true]
  refine ⟨List.countP_congr fun line _ => ?_, List.countP_congr fun line _ => ?_⟩
  · simp [answerTo_eq_yes_iff]
  · simp

theorem runOpen_opened_eq_none_iff (hopen : (start source).1 = .ok ()) :
    runOpen g threshold { source := opened source, output } = (none, p') ↔
      ∃ lines, Completes g source output lines ∧ p' = finished g threshold source output lines := by
  simp only [runOpen_eq_none_iff, answerAll_eq_none_iff, lineAt_after]
  constructor
  · rintro ⟨first, _, hfirst, hcount, ⟨lines, rfl, hlines, htakes, rfl⟩, hflush⟩
    rw [output_foldl_answered] at hflush
    exact ⟨lines, ⟨hopen, ⟨first, hfirst, hcount⟩, hlines, htakes, hflush⟩, rfl⟩
  · rintro ⟨lines, h, rfl⟩
    obtain ⟨first, hfirst, hcount⟩ := h.count
    refine ⟨first, _, hfirst, hcount, ⟨lines, rfl, h.read, h.takes, rfl⟩, ?_⟩
    rw [output_finished]
    exact h.flushed

/-- a run opens its source, answers the queries and closes the source, whether or not it met a fault -/
theorem run_of_opens (hopen : (start source).1 = .ok ()) : run g threshold source output =
    match runOpen g threshold { source := opened source, output } with
    | (none, p) => ⟨.ok p.metrics, p.output, p.log.toList, finish p.source⟩
    | (some fault, p) => ⟨.error fault, p.output, p.log.toList, finish p.source⟩ := by
  unfold run opened
  rcases hstart : start source with ⟨result, t⟩
  rw [hstart] at hopen
  obtain rfl : result = .ok () := hopen
  simp only
  rcases runOpen g threshold { source := t, output } with ⟨_ | fault, p⟩ <;> rfl

theorem run_of_completes (h : Completes g source output lines) : run g threshold source output =
    ⟨.ok (finished g threshold source output lines).metrics, (finished g threshold source output lines).output,
      (finished g threshold source output lines).log.toList, finish (finished g threshold source output lines).source⟩ := by
  rw [run_of_opens h.opens, (runOpen_opened_eq_none_iff h.opens).2 ⟨lines, h, rfl⟩]

theorem opens_of_run_eq_ok {m : Metrics} (h : (run g threshold source output).result = .ok m) :
    (start source).1 = .ok () := by
  unfold run at h
  split at h
  · cases h
  · rename_i hstart
    rw [hstart]

theorem exists_completes {m : Metrics} (h : (run g threshold source output).result = .ok m) :
    ∃ lines, Completes g source output lines := by
  have hopen := opens_of_run_eq_ok h
  rw [run_of_opens hopen] at h
  rcases hrun : runOpen g threshold { source := opened source, output } with ⟨_ | fault, p⟩
  · obtain ⟨lines, hlines, -⟩ := (runOpen_opened_eq_none_iff hopen).1 hrun
    exact ⟨lines, hlines⟩
  · rw [hrun] at h
    cases h

variable (g threshold source output)

/-- **What a run writes and counts.** A run succeeds just when it meets no fault. It has then read the count and as many
lines after it, and no more; it has written one answer for each of them; and it has counted each once. However far a run
gets, no count is as large as the limit of counts. -/
theorem run_completes :
    ((∃ m, (run g threshold source output).result = .ok m) ↔ ∃ lines, Completes g source output lines) ∧
    (∀ lines, Completes g source output lines → ∃ m, (run g threshold source output).result = .ok m ∧
      (run g threshold source output).output = output.write (String.join (lines.map (answerTo g))) ∧
      (run g threshold source output).source = finish (after (opened source) (1 + lines.length)) ∧
      m.total = lines.length ∧ m.total = m.accepted + m.rejected + m.malformed ∧
      m.accepted = (lines.map (answerTo g)).count "YES\n" ∧
      m.rejected = lines.countP (fun line => verdictOn g line = .rejected) ∧
      m.malformed = lines.countP (fun line => verdictOn g line matches .malformed _)) ∧
    ∀ left < Text.countLimit, ∀ s : ς, ∃ m, (answerAll g threshold left { source := s, output }).2.metrics = m ∧
      m.total = m.accepted + m.rejected + m.malformed ∧ m.total < Text.countLimit := by
  refine ⟨⟨fun ⟨m, hm⟩ => exists_completes hm, ?_⟩, ?_, ?_⟩
  · rintro ⟨lines, h⟩
    rw [run_of_completes h]
    exact ⟨_, rfl⟩
  · intro lines h
    rw [run_of_completes h]
    have hbalanced : (finished g threshold source output lines).metrics.Balanced := by
      have hzero : ({} : Metrics).Balanced := rfl
      rw [finished, metrics_foldl_answered]
      exact hzero.foldl_record _
    refine ⟨_, rfl, output_finished, ?_, ?_, hbalanced, ?_⟩
    · rw [source_finished]
    · rw [metrics_finished]
    · rw [metrics_finished]
      exact ⟨rfl, rfl, rfl⟩
  · intro left hleft s
    have hzero : ({ source := s, output } : Progress ς).metrics.Balanced := rfl
    obtain ⟨hbalanced, hle⟩ := metrics_answerAll g threshold left hzero
    exact ⟨_, rfl, hbalanced, Nat.lt_of_le_of_lt (by simpa using hle) hleft⟩

/-- a list of two queries, with a line after them -/
def sampleQueries : TextSource := .ofText " +2 \n\tab\nba\nab"

theorem completes_sample : Completes Grammar.sample sampleQueries .unbounded ["\tab", "ba"] where
  opens := rfl
  count := ⟨" +2 ", by cbv, Text.count?_eq_some_iff.1 (by cbv)⟩
  read := by
    simp only [forall_getElem?_cons]
    exact ⟨by cbv, by cbv, by simp⟩
  takes := Output.takes_unbounded _
  flushed := rfl

theorem run_completes_sample : Completes Grammar.sample sampleQueries .unbounded ["\tab", "ba"] ∧
    ∃ m, (run Grammar.sample none sampleQueries .unbounded).result = .ok m ∧ m.total = 2 ∧
      (run Grammar.sample none sampleQueries .unbounded).output =
        Output.unbounded.write (String.join (["\tab", "ba"].map (answerTo Grammar.sample))) := by
  obtain ⟨m, hm, houtput, -, htotal, -⟩ := (run_completes Grammar.sample none sampleQueries .unbounded).2.1 _ completes_sample
  exact ⟨completes_sample, m, hm, htotal, houtput⟩

end Query

end CfgMembership
