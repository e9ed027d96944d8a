/-
Reading a description line by line.

`Describes` says which lines make up a description, and `Due` which line is to be read next as what, all lines before it
being in order. `read_eq_ok_iff`: a description is read just when the lines make it up. `read_eq_error_iff`: otherwise the
fault is that of the line that is due and not in order.
-/
import CfgMembership.Proofs.Description.Line
import CfgMembership.Proofs.Source

namespace CfgMembership.Description

open LineSource

/-! ## Lines in order -/

structure Header (line? : Nat → Option String) (c : Counts) (nonTerminals terminals : List Char) : Prop where
  counts : ∃ line ∈ line? 0, IsCounts line c
  nonTerminals : ∃ line ∈ line? 1, IsAlphabet .nonTerminal c.nonTerminals line nonTerminals
  terminals : ∃ line ∈ line? 2, IsAlphabet .terminal c.terminals line terminals

/-- the line of the rule with a number, counted from 0, is in order -/
def HasRule (line? : Nat → Option String) (nonTerminals terminals : List Char) (i : Nat) (rule : Rule) : Prop :=
  ∃ line ∈ line? (3 + i), IsRule nonTerminals terminals line rule

/-- all lines of a description: after the first three comes a line for each rule, and then the start symbol -/
structure Describes (line? : Nat → Option String) (c : Counts) (d : Description) : Prop extends
    Header line? c d.nonTerminals d.terminals where
  length : d.rules.length = c.rules
  rules : ∀ i rule, d.rules[i]? = some rule → HasRule line? d.nonTerminals d.terminals i rule
  start : ∃ line ∈ line? (3 + c.rules), IsStart d.nonTerminals line d.start

section Front

variable {line? line?' : Nat → Option String} {c : Counts} {nonTerminals terminals : List Char}

theorem Header.congr (h : Header line? c nonTerminals terminals) (hsame : ∀ n < 3, line?' n = line? n) :
    Header line?' c nonTerminals terminals where
  counts := (hsame 0 (by decide)).symm ▸ h.counts
  nonTerminals := (hsame 1 (by decide)).symm ▸ h.nonTerminals
  terminals := (hsame 2 (by decide)).symm ▸ h.terminals

/-- what comes after the start symbol does not matter -/
theorem Describes.congr {d : Description} (h : Describes line? c d) (hsame : ∀ n < 4 + c.rules, line?' n = line? n) :
    Describes line?' c d where
  toHeader := h.toHeader.congr fun n hn => hsame n (by omega)
  length := h.length
  rules i rule hi := by
    have hlt := (List.getElem?_eq_some_iff.1 hi).1
    have hlength := h.length
    unfold HasRule
    rw [hsame (3 + i) (by omega)]
    exact h.rules i rule hi
  start := by
    rw [hsame (3 + c.rules) (by omega)]
    exact h.start

end Front

inductive Role where
  | counts
  | alphabet (which : Alphabet) (declared : Nat)
  | rule (nonTerminals terminals : List Char) (i : Nat)
  | start (nonTerminals : List Char)

/-- the line with a number is due in a role: it is to be read as that, and all lines before it are in order -/
inductive Due (line? : Nat → Option String) : Nat → Role → Prop where
  | counts : Due line? 0 .counts
  | nonTerminals {c : Counts} (hcounts : ∃ line ∈ line? 0, IsCounts line c) :
    Due line? 1 (.alphabet .nonTerminal c.nonTerminals)
  | terminals {c : Counts} {nonTerminals : List Char} (hcounts : ∃ line ∈ line? 0, IsCounts line c)
    (hnonTerminals : ∃ line ∈ line? 1, IsAlphabet .nonTerminal c.nonTerminals line nonTerminals) :
    Due line? 2 (.alphabet .terminal c.terminals)
  | rule {c : Counts} {nonTerminals terminals : List Char} {i : Nat} (header : Header line? c nonTerminals terminals)
    (hlt : i < c.rules) (before : ∀ j < i, ∃ rule, HasRule line? nonTerminals terminals j rule) :
    Due line? (3 + i) (.rule nonTerminals terminals i)
  | start {c : Counts} {nonTerminals terminals : List Char} (header : Header line? c nonTerminals terminals)
    (rules : ∀ j < c.rules, ∃ rule, HasRule line? nonTerminals terminals j rule) :
    Due line? (3 + c.rules) (.start nonTerminals)

/-- the fault when there is no line to be read in a role. In messages, rules are numbered from 1. -/
def Role.unreadable : Role → SourceError → Fault
  | .rule _ _ i, error => .badRule (i + 1) (.unreadable error)
  | _, error => .unreadable error

/-- what is wrong with what was read in a role -/
inductive FaultIn : Role → Except SourceError String → Fault → Prop where
  | unreadable {role : Role} {error : SourceError} : FaultIn role (.error error) (role.unreadable error)
  | counts {line : String} {fault : Fault} (h : CountsFault line fault) : FaultIn .counts (.ok line) fault
  | alphabet {which : Alphabet} {declared : Nat} {line : String} {fault : Fault}
    (h : AlphabetFault which declared line fault) : FaultIn (.alphabet which declared) (.ok line) fault
  | rule {nonTerminals terminals : List Char} {i : Nat} {line : String} {fault : RuleFault}
    (h : RuleFaultOn nonTerminals terminals line fault) :
    FaultIn (.rule nonTerminals terminals i) (.ok line) (.badRule (i + 1) fault)
  | start {nonTerminals : List Char} {line : String} {fault : Fault} (h : StartFault nonTerminals line fault) :
    FaultIn (.start nonTerminals) (.ok line) fault

/-! ## One line after the other -/

variable {ς : Type} [LineSource ς] {α β : Type} {s s' : ς} {fault : Fault}

/-- the lines of a source that can be read -/
def lines? (s : ς) (n : Nat) : Option String := (lineAt s n).toOption

theorem mem_lines? {n : Nat} {line : String} : line ∈ lines? s n ↔ lineAt s n = .ok line := by
  unfold lines?
  cases lineAt s n <;> simp [Except.toOption]

theorem lines?_after (s : ς) (m n : Nat) : lines? (after s m) n = lines? s (m + n) := by
  simp only [lines?, lineAt_after]

def outcome (r : Reading ς α) (s : ς) : Except Fault α × ς := r.run s

section Steps

variable {r : Reading ς α} {f : α → Reading ς β}

omit [LineSource ς] in
theorem outcome_bind (r : Reading ς α) (f : α → Reading ς β) (s : ς) : outcome (r >>= f) s =
    match outcome r s with
    | (.ok a, t) => outcome (f a) t
    | (.error fault, t) => (.error fault, t) := by
  unfold outcome ExceptT.run
  simp only [bind, ExceptT.bind, ExceptT.mk, StateT.bind, ExceptT.bindCont]
  cases r s with
  | mk x t => cases x <;> rfl

omit [LineSource ς] in
theorem outcome_bind_eq_ok_iff {b : β} :
    outcome (r >>= f) s = (.ok b, s') ↔ ∃ a t, outcome r s = (.ok a, t) ∧ outcome (f a) t = (.ok b, s') := by
  rw [outcome_bind]
  split
  · rename_i a t hr
    simp [hr]
  · rename_i e t hr
    simp [hr]

omit [LineSource ς] in
theorem outcome_bind_eq_error_iff : (outcome (r >>= f) s).1 = .error fault ↔
    (outcome r s).1 = .error fault ∨ ∃ a t, outcome r s = (.ok a, t) ∧ (outcome (f a) t).1 = .error fault := by
  rw [outcome_bind]
  split
  · rename_i a t hr
    simp [hr]
  · rename_i e t hr
    simp [hr]

variable {parse : String → Except Fault α}

theorem outcome_readLine : outcome (readLine parse : Reading ς α) s =
    (match lineAt s 0 with
      | .error error => .error (.unreadable error)
      | .ok line => parse line, after s 1) := by
  simp only [outcome, ExceptT.run, readLine, nextLine_eq]
  cases lineAt s 0 <;> rfl

theorem outcome_readLine_eq_ok_iff {a : α} : outcome (readLine parse : Reading ς α) s = (.ok a, s') ↔
    (∃ line ∈ lines? s 0, parse line = .ok a) ∧ s' = after s 1 := by
  simp only [mem_lines?]
  rw [outcome_readLine]
  cases lineAt s 0 with
  | error e => simp
  | ok line => simp [eq_comm]

theorem faultIn_error_iff {role : Role} {error : SourceError} :
    FaultIn role (.error error) fault ↔ fault = role.unreadable error := by
  constructor
  · intro h
    cases h
    rfl
  · rintro rfl
    exact .unreadable

/-- a line read by itself fails as it does in its role -/
theorem outcome_readLine_eq_error_iff {role : Role} (hrole : ∀ error, role.unreadable error = .unreadable error)
    (hparse : ∀ line fault, parse line = .error fault ↔ FaultIn role (.ok line) fault) :
    (outcome (readLine parse : Reading ς α) s).1 = .error fault ↔ FaultIn role (lineAt s 0) fault := by
  rw [outcome_readLine]
  cases lineAt s 0 with
  | error e =>
    rw [faultIn_error_iff, hrole]
    simp [eq_comm]
  | ok line => exact hparse line fault

theorem readCounts_eq_error_iff :
    (outcome (readLine counts : Reading ς Counts) s).1 = .error fault ↔ FaultIn .counts (lineAt s 0) fault := by
  refine outcome_readLine_eq_error_iff (fun _ => rfl) fun line fault => counts_eq_error_iff.trans ⟨.counts, fun h => ?_⟩
  cases h
  assumption

theorem readAlphabet_eq_error_iff {which : Alphabet} {declared : Nat} :
    (outcome (readLine (alphabet which declared) : Reading ς _) s).1 = .error fault ↔
      FaultIn (.alphabet which declared) (lineAt s 0) fault := by
  refine outcome_readLine_eq_error_iff (fun _ => rfl) fun line fault => alphabet_eq_error_iff.trans ⟨.alphabet, fun h => ?_⟩
  cases h
  assumption

theorem readStart_eq_error_iff {nonTerminals : List Char} :
    (outcome (readLine (startSymbol nonTerminals) : Reading ς _) s).1 = .error fault ↔
      FaultIn (.start nonTerminals) (lineAt s 0) fault := by
  refine outcome_readLine_eq_error_iff (fun _ => rfl) fun line fault => startSymbol_eq_error_iff.trans ⟨.start, fun h => ?_⟩
  cases h
  assumption

end Steps

/-! ## Rules -/

variable {nonTerminals terminals : List Char}

def ruleOf (nonTerminals terminals : List Char) (number : Nat) : Except SourceError String → Except Fault Rule
  | .error error => .error (.badRule number (.unreadable error))
  | .ok line =>
    match rule nonTerminals terminals line with
    | .error fault => .error (.badRule number fault)
    | .ok rule => .ok rule

theorem ruleOf_eq_ok_iff (number : Nat) {i : Nat} {r : Rule} : ruleOf nonTerminals terminals number (lineAt s i) = .ok r ↔
    ∃ line ∈ lines? s i, IsRule nonTerminals terminals line r := by
  simp only [mem_lines?, ← rule_eq_ok_iff]
  cases lineAt s i with
  | error error => simp [ruleOf]
  | ok line =>
    simp only [ruleOf, Except.ok.injEq, exists_eq_left']
    cases rule nonTerminals terminals line with
    | error fault => simp
    | ok r => simp

theorem ruleOf_eq_error_iff {i : Nat} {read : Except SourceError String} :
    ruleOf nonTerminals terminals (i + 1) read = .error fault ↔ FaultIn (.rule nonTerminals terminals i) read fault := by
  constructor
  · intro h
    unfold ruleOf at h
    split at h
    · cases h
      exact .unreadable
    · split at h
      · rename_i hrule
        cases h
        exact .rule (rule_eq_error_iff.1 hrule)
      · cases h
  · intro h
    cases h with
    | unreadable => rfl
    | rule h => simp only [ruleOf, rule_eq_error_iff.2 h]

theorem readRules_succ (number left : Nat) (before : Array Rule) (s : ς) :
    readRules nonTerminals terminals number (left + 1) before s =
      match ruleOf nonTerminals terminals number (lineAt s 0) with
      | .error fault => (.error fault, after s 1)
      | .ok rule => readRules nonTerminals terminals (number + 1) left (before.push rule) (after s 1) := by
  rw [readRules, nextLine_eq]
  unfold ruleOf
  cases lineAt s 0 with
  | error error => rfl
  | ok line =>
    simp only
    cases rule nonTerminals terminals line <;> rfl

theorem readRules_eq_ok_iff {number left : Nat} {before : Array Rule} {rules : List Rule} :
    readRules nonTerminals terminals number left before s = (.ok rules, s') ↔
      (∃ new, new.length = left ∧ (∀ i r, new[i]? = some r → ∃ line ∈ lines? s i, IsRule nonTerminals terminals line r) ∧
        rules = before.toList ++ new) ∧ s' = after s left := by
  induction left generalizing s number before with
  | zero =>
    simp only [readRules, Prod.mk.injEq, Except.ok.injEq, List.length_eq_zero_iff, after_zero]
    constructor
    · rintro ⟨rfl, rfl⟩
      exact ⟨⟨[], rfl, by simp, by simp⟩, rfl⟩
    · rintro ⟨⟨_, rfl, -, rfl⟩, rfl⟩
      simp
  | succ left ih =>
    rw [readRules_succ]
    cases hfirst : ruleOf nonTerminals terminals number (lineAt s 0) with
    | error f =>
      simp only [Prod.mk.injEq, reduceCtorEq, false_and, false_iff]
      rintro ⟨⟨new, hlength, hnew, -⟩, -⟩
      obtain ⟨r, new, rfl⟩ := List.exists_cons_of_length_eq_add_one hlength
      have hr := (ruleOf_eq_ok_iff number).2 (forall_getElem?_cons.1 hnew).1
      rw [hfirst] at hr
      cases hr
    | ok r =>
      simp only [ih, lines?_after]
      refine and_congr_left' ⟨?_, ?_⟩
      · rintro ⟨new, hlength, hnew, hrules⟩
        refine ⟨r :: new, by simp [hlength], forall_getElem?_cons.2 ⟨(ruleOf_eq_ok_iff number).1 hfirst, ?_⟩, by simp [hrules]⟩
        intro i r' hr'
        rw [Nat.add_comm]
        exact hnew i r' hr'
      · rintro ⟨new, hlength, hnew, hrules⟩
        obtain ⟨r', new, rfl⟩ := List.exists_cons_of_length_eq_add_one hlength
        obtain ⟨hr', hrest⟩ := forall_getElem?_cons.1 hnew
        have hsame := (ruleOf_eq_ok_iff number).2 hr'
        rw [hfirst] at hsame
        cases hsame
        refine ⟨new, by simpa using hlength, fun i r' hr' => ?_, by simp [hrules]⟩
        rw [Nat.add_comm]
        exact hrest i r' hr'

theorem readRules_eq_error_iff {i left : Nat} {before : Array Rule} :
    (readRules nonTerminals terminals (i + 1) left before s).1 = .error fault ↔
      ∃ j < left, (∀ k < j, ∃ r, ∃ line ∈ lines? s k, IsRule nonTerminals terminals line r) ∧
        FaultIn (.rule nonTerminals terminals (i + j)) (lineAt s j) fault := by
  induction left generalizing s i before with
  | zero => simp [readRules]
  | succ left ih =>
    rw [readRules_succ, Nat.exists_lt_succ_left]
    simp only [Nat.forall_lt_succ_left, Nat.not_lt_zero, false_imp_iff, implies_true, true_and, Nat.add_zero,
      ← ruleOf_eq_error_iff]
    cases hfirst : ruleOf nonTerminals terminals (i + 1) (lineAt s 0) with
    | error f =>
      simp only [Except.error.injEq]
      refine (or_iff_left ?_).symm
      rintro ⟨j, -, ⟨⟨r, hr⟩, -⟩, -⟩
      rw [← ruleOf_eq_ok_iff (i + 1), hfirst] at hr
      cases hr
    | ok r =>
      have hr : ∃ r, ∃ line ∈ lines? s 0, IsRule nonTerminals terminals line r :=
        ⟨r, (ruleOf_eq_ok_iff (i + 1)).1 hfirst⟩
      simp only [ih, hr, true_and, reduceCtorEq, false_or, lineAt_after, lines?_after, Nat.add_comm 1, ruleOf_eq_error_iff,
        Nat.add_right_comm i 1, ← Nat.add_assoc]

/-! ## The whole description -/

theorem outcome_readRules (number left : Nat) (before : Array Rule) (s : ς) :
    outcome (ExceptT.mk (readRules nonTerminals terminals number left before)) s =
      readRules nonTerminals terminals number left before s := rfl

theorem readLines_eq_ok_iff {d : Description} : (outcome readLines s).1 = .ok d ↔ ∃ c, Describes (lines? s) c d := by
  have hread : (outcome readLines s).1 = .ok d ↔ ∃ s', outcome readLines s = (.ok d, s') := by
    constructor
    · intro h
      exact ⟨_, Prod.ext h rfl⟩
    · rintro ⟨s', h⟩
      rw [h]
  rw [hread]
  simp only [readLines, outcome_bind_eq_ok_iff, outcome_readLine_eq_ok_iff, outcome_readRules, readRules_eq_ok_iff,
    counts_eq_ok_iff, alphabet_eq_ok_iff, startSymbol_eq_ok_iff]
  constructor
  · rintro ⟨s', c, _, ⟨hcounts, rfl⟩, nts, _, ⟨hnts, rfl⟩, ts, _, ⟨hts, rfl⟩, rules, _, ⟨⟨new, hlength, hrules, rfl⟩, rfl⟩,
      start, _, ⟨hstart, rfl⟩, h⟩
    cases h
    simp only [after_after, lines?_after, Nat.reduceAdd, Nat.add_zero] at hnts hts hrules hstart
    exact ⟨c, ⟨hcounts, hnts, hts⟩, hlength, hrules, hstart⟩
  · rintro ⟨c, h⟩
    refine ⟨_, c, _, ⟨h.counts, rfl⟩, d.nonTerminals, _, ⟨?_, rfl⟩, d.terminals, _, ⟨?_, rfl⟩, d.rules, _,
      ⟨⟨d.rules, h.length, ?_, rfl⟩, rfl⟩, d.start, _, ⟨?_, rfl⟩, rfl⟩
    all_goals simp only [after_after, lines?_after, Nat.reduceAdd, Nat.add_zero]
    · exact h.nonTerminals
    · exact h.terminals
    · exact h.rules
    · exact h.start

omit [LineSource ς] in
theorem outcome_pure {a : α} : outcome (pure a : Reading ς α) s = (.ok a, s) := rfl

theorem readLines_eq_error_iff : (outcome readLines s).1 = .error fault ↔
    ∃ k role, Due (lines? s) k role ∧ FaultIn role (lineAt s k) fault := by
  simp only [readLines, outcome_bind_eq_error_iff, outcome_readLine_eq_ok_iff, outcome_readRules, readRules_eq_ok_iff,
    readCounts_eq_error_iff, readAlphabet_eq_error_iff, readStart_eq_error_iff, counts_eq_ok_iff, alphabet_eq_ok_iff,
    outcome_pure]
  constructor
  · rintro (h | ⟨c, _, ⟨hcounts, rfl⟩, h | ⟨nts, _, ⟨hnts, rfl⟩, h | ⟨ts, _, ⟨hts, rfl⟩, h | ⟨_, _, ⟨⟨rules, hlength, hrules, -⟩,
      rfl⟩, h | ⟨_, _, -, h⟩⟩⟩⟩⟩)
    · exact ⟨0, _, .counts, h⟩
    · simp only [lineAt_after, Nat.add_zero] at h
      exact ⟨1, _, .nonTerminals hcounts, h⟩
    · simp only [after_after, lineAt_after, lines?_after, Nat.reduceAdd, Nat.add_zero] at hnts h
      exact ⟨2, _, .terminals hcounts hnts, h⟩
    · obtain ⟨j, hlt, hbefore, hfault⟩ := (readRules_eq_error_iff (i := 0)).1 h
      simp only [after_after, lineAt_after, lines?_after, Nat.reduceAdd, Nat.add_zero, Nat.zero_add] at hnts hts hbefore hfault
      exact ⟨3 + j, _, .rule ⟨hcounts, hnts, hts⟩ hlt hbefore, hfault⟩
    · simp only [after_after, lineAt_after, lines?_after, Nat.reduceAdd, Nat.add_zero] at hnts hts hrules h
      exact ⟨3 + c.rules, _, .start ⟨hcounts, hnts, hts⟩ (exists_list_iff.1 ⟨rules, hlength, hrules⟩), h⟩
    · cases h
  · rintro ⟨k, role, hdue, hfault⟩
    cases hdue with
    | counts => exact .inl hfault
    | nonTerminals hcounts =>
      refine .inr ⟨_, _, ⟨hcounts, rfl⟩, .inl ?_⟩
      rwa [lineAt_after]
    | @terminals c nts hcounts hnts =>
      refine .inr ⟨_, _, ⟨hcounts, rfl⟩, .inr ⟨nts, _, ⟨?_, rfl⟩, .inl ?_⟩⟩
      · rwa [lines?_after]
      · rwa [after_after, lineAt_after]
    | @rule c nts ts i header hlt before =>
      refine .inr ⟨_, _, ⟨header.counts, rfl⟩, .inr ⟨nts, _, ⟨?_, rfl⟩, .inr ⟨ts, _, ⟨?_, rfl⟩, .inl ?_⟩⟩⟩
      · simpa only [lines?_after] using header.nonTerminals
      · simpa only [after_after, lines?_after] using header.terminals
      · refine (readRules_eq_error_iff (i := 0)).2 ⟨i, hlt, ?_, ?_⟩
        · simp only [after_after, lines?_after, Nat.reduceAdd]
          exact before
        · rwa [after_after, after_after, lineAt_after, Nat.zero_add]
    | @start c nts ts header rules =>
      obtain ⟨new, hlength, hnew⟩ := exists_list_iff.2 rules
      refine .inr ⟨_, _, ⟨header.counts, rfl⟩, .inr ⟨nts, _, ⟨?_, rfl⟩, .inr ⟨ts, _, ⟨?_, rfl⟩, .inr ⟨_, _,
        ⟨⟨new, hlength, ?_, rfl⟩, rfl⟩, .inl ?_⟩⟩⟩⟩
      · simpa only [lines?_after] using header.nonTerminals
      · simpa only [after_after, lines?_after] using header.terminals
      · simp only [after_after, lines?_after, Nat.reduceAdd]
        exact hnew
      · simpa only [after_after, lineAt_after, Nat.reduceAdd, Nat.add_zero] using hfault

/-! ## Opening and closing -/

/-- a source that cannot be opened is not read -/
theorem read_of_start_error {error : SourceError} (h : (LineSource.start s).1 = .error error) :
    (read s).1 = .error (.unreadable error) := by
  unfold read
  rcases hstart : LineSource.start s with ⟨result, t⟩
  rw [hstart] at h
  obtain rfl : result = .error error := h
  rfl

theorem read_of_start (hopen : (LineSource.start s).1 = .ok ()) : (read s).1 = (outcome readLines (opened s)).1 := by
  unfold read opened
  rcases hstart : LineSource.start s with ⟨result, t⟩
  rw [hstart] at hopen
  obtain rfl : result = .ok () := hopen
  rfl

variable {d : Description}

/-- a description is read when the lines make it up -/
theorem read_eq_ok_iff (hopen : (LineSource.start s).1 = .ok ()) :
    (read s).1 = .ok d ↔ ∃ c, Describes (lines? (opened s)) c d := by
  rw [read_of_start hopen, readLines_eq_ok_iff]

/-- what has been read is in the lines, wherever they came from -/
theorem describes_of_read (h : (read s).1 = .ok d) : ∃ c, Describes (lines? (opened s)) c d := by
  cases hopen : (LineSource.start s).1 with
  | error error =>
    rw [read_of_start_error hopen] at h
    cases h
  | ok => exact (read_eq_ok_iff hopen).1 h

/-- reading stops with the fault of the line that is due and not in order -/
theorem read_eq_error_iff (hopen : (LineSource.start s).1 = .ok ()) : (read s).1 = .error fault ↔
    ∃ k role, Due (lines? (opened s)) k role ∧ FaultIn role (lineAt (opened s) k) fault := by
  rw [read_of_start hopen, readLines_eq_error_iff]

/-- all that reading learns from a source is whether it can be opened, and its lines -/
theorem read_congr {ς' : Type} [LineSource ς'] {t : ς'} (hstart : (LineSource.start s).1 = (LineSource.start t).1)
    (hlines : ∀ n, lineAt (opened s) n = lineAt (opened t) n) : (read s).1 = (read t).1 := by
  have hlineAt : lineAt (opened s) = lineAt (opened t) := funext hlines
  have hsame : lines? (opened s) = lines? (opened t) := funext fun n => by rw [lines?, lines?, hlines]
  cases hs : (LineSource.start s).1 with
  | error error =>
    rw [read_of_start_error hs, read_of_start_error (hstart.symm.trans hs)]
  | ok _ =>
    have ht := hstart.symm.trans hs
    cases hread : (read s).1 with
    | ok d =>
      rw [eq_comm, read_eq_ok_iff ht, ← hsame]
      exact (read_eq_ok_iff hs).1 hread
    | error fault =>
      rw [eq_comm, read_eq_error_iff ht, ← hsame, ← hlineAt]
      exact (read_eq_error_iff hs).1 hread

end CfgMembership.Description
