/-
Which fault is reported when a description cannot be read.

Reading goes from line to line, so the fault is that of the first line that is not in order and no later line counts
(`read_fault`). What the faults say follows from the line at which they arise: the number of a rule, the illegal character,
the count of different characters, or the error of the source.

No line has the fault that a description makes no grammar, and a description that has been read does make one: the checks of
the lines leave nothing for those of the declarations to find (`read_ne_badGrammar`).
-/
import CfgMembership.Proofs.Description.Grammar

namespace CfgMembership

namespace Description

open LineSource CfgMembership.Text

/-! ## Lines that are due -/

/-- which line is due, and as what, depends on the lines before it only -/
theorem Due.congr {line? line?' : Nat → Option String} {k : Nat} {role : Role} (h : Due line? k role)
    (hsame : ∀ n < k, line?' n = line? n) : Due line?' k role := by
  cases h with
  | counts => exact .counts
  | nonTerminals hcounts => exact .nonTerminals ((hsame 0 (by decide)).symm ▸ hcounts)
  | terminals hcounts hnonTerminals =>
    exact .terminals ((hsame 0 (by decide)).symm ▸ hcounts) ((hsame 1 (by decide)).symm ▸ hnonTerminals)
  | rule header hlt before =>
    refine .rule (header.congr fun n hn => hsame n (by omega)) hlt fun j hj => ?_
    unfold HasRule
    rw [hsame (3 + j) (by omega)]
    exact before j hj
  | start header rules =>
    refine .start (header.congr fun n hn => hsame n (by omega)) fun j hj => ?_
    unfold HasRule
    rw [hsame (3 + j) (by omega)]
    exact rules j hj

/-! ## Where faults arise -/

section FaultIn

variable {role : Role} {read : Except SourceError String} {which : Alphabet} {error : SourceError}
  {nonTerminals terminals : List Char} {i number declared actual : Nat} {c : Char}

/-- only lines of rules give the fault of a rule -/
theorem FaultIn.badRule_inv {reason : RuleFault} (h : FaultIn role read (.badRule number reason)) :
    ∃ nonTerminals terminals i, role = .rule nonTerminals terminals i ∧ number = i + 1 := by
  cases read with
  | error error =>
    rw [faultIn_error_iff] at h
    cases role with
    | rule =>
      cases h
      exact ⟨_, _, _, rfl, rfl⟩
    | counts | alphabet | start => cases h
  | ok line =>
    cases h with
    | rule h => exact ⟨_, _, _, rfl, rfl⟩
    | counts h => cases h
    | alphabet h => cases h with | word h => cases h
    | start h => cases h with | word h => cases h

/-- no line is at fault for what only the declarations together could be -/
theorem FaultIn.ne_badGrammar {fault : Fault} {declared : Grammar.Fault} (h : FaultIn role read fault) :
    fault ≠ .badGrammar declared := by
  rintro rfl
  cases read with
  | error error =>
    rw [faultIn_error_iff] at h
    cases role <;> cases h
  | ok line =>
    cases h with
    | counts h => cases h
    | alphabet h => cases h with | word h => cases h
    | start h => cases h with | word h => cases h

theorem FaultIn.eq_badRule {fault : Fault} (h : FaultIn (.rule nonTerminals terminals i) read fault) :
    ∃ reason, fault = .badRule (i + 1) reason := by
  cases h with
  | unreadable => exact ⟨_, rfl⟩
  | rule h => exact ⟨_, rfl⟩

/-- an illegal character is found on an alphabet line of one word -/
theorem faultIn_badCharacter_iff : FaultIn role read (.badCharacter which c) ↔
    (∃ declared, role = .alphabet which declared) ∧ ∃ line before after, read = .ok line ∧
      Spells line.toList [before ++ c :: after] ∧ (∀ x ∈ before, which.Legal x) ∧ ¬which.Legal c := by
  constructor
  · intro h
    cases read with
    | error error =>
      rw [faultIn_error_iff] at h
      cases role <;> cases h
    | ok line =>
      cases h with
      | alphabet h =>
        cases h with
        | badCharacter hword hbefore hc => exact ⟨⟨_, rfl⟩, _, _, _, rfl, hword, hbefore, hc⟩
        | word h => cases h
      | counts h => cases h
      | start h => cases h with | word h => cases h
  · rintro ⟨⟨declared, rfl⟩, line, before, after, rfl, hword, hbefore, hc⟩
    exact .alphabet (.badCharacter hword hbefore hc)

/-- a wrong number of characters is found on an alphabet line of one word of legal characters -/
theorem faultIn_badSize_iff : FaultIn role read (.badSize which declared actual) ↔
    role = .alphabet which declared ∧ ∃ line word, read = .ok line ∧ Spells line.toList [word] ∧
      (∀ c ∈ word, which.Legal c) ∧ actual = word.toFinset.card ∧ actual ≠ declared := by
  constructor
  · intro h
    cases read with
    | error error =>
      rw [faultIn_error_iff] at h
      cases role <;> cases h
    | ok line =>
      cases h with
      | alphabet h =>
        cases h with
        | badSize hword hlegal hne => exact ⟨rfl, _, _, rfl, hword, hlegal, rfl, hne⟩
        | word h => cases h
      | counts h => cases h
      | start h => cases h with | word h => cases h
  · rintro ⟨rfl, line, word, rfl, hword, hlegal, rfl, hne⟩
    exact .alphabet (.badSize hword hlegal hne)

/-- the error of the source is reported as it is for lines that are not of rules -/
theorem faultIn_unreadable_iff : FaultIn role read (.unreadable error) ↔
    read = .error error ∧ ∀ nonTerminals terminals i, role ≠ .rule nonTerminals terminals i := by
  cases read with
  | error error' =>
    rw [faultIn_error_iff]
    cases role <;> simp [Role.unreadable, eq_comm]
  | ok line =>
    simp only [reduceCtorEq, false_and, iff_false]
    intro h
    cases h with
    | counts h => cases h
    | alphabet h => cases h with | word h => cases h
    | start h => cases h with | word h => cases h

end FaultIn

variable {ς : Type} [LineSource ς] {s : ς} {nonTerminals terminals : List Char} {i n : Nat}

/-- what is read as a rule either is one or has a fault -/
theorem exists_faultIn_rule_iff : (∃ fault, FaultIn (.rule nonTerminals terminals i) (lineAt s n) fault) ↔
    ¬∃ rule, ∃ line ∈ lines? s n, IsRule nonTerminals terminals line rule := by
  simp only [← ruleOf_eq_error_iff, ← ruleOf_eq_ok_iff (i + 1)]
  cases ruleOf nonTerminals terminals (i + 1) (lineAt s n) <;> simp

/-- the checks of a reader stop at a line, or at opening the source -/
theorem read_ne_error_badGrammar (s : ς) (declared : Grammar.Fault) : (read s).1 ≠ .error (.badGrammar declared) := by
  intro h
  cases hopen : (LineSource.start s).1 with
  | error error =>
    rw [read_of_start_error hopen] at h
    cases h
  | ok =>
    obtain ⟨k, role, -, hfault⟩ := (read_eq_error_iff hopen).1 h
    exact hfault.ne_badGrammar rfl

/-- what has been read is sound, wherever it came from -/
theorem sound_of_read {d : Description} (h : (read s).1 = .ok d) : d.Sound := by
  obtain ⟨c, hd⟩ := describes_of_read h
  exact hd.sound

end Description

/-! ## The fault of a description -/

namespace Grammar

open Description LineSource CfgMembership.Text

variable {ς : Type} [LineSource ς] {s : ς} (threshold : Log.Threshold)

theorem read_eq_error_iff (hopen : (LineSource.start s).1 = .ok ()) {fault : Description.Fault} :
    (read threshold s).result = .error fault ↔
      ∃ k role, Due (lines? (opened s)) k role ∧ FaultIn role (lineAt (opened s) k) fault := by
  rw [result_read, bind_eq_error_iff, Description.read_eq_error_iff hopen, or_iff_left]
  rintro ⟨d, hd, hfault⟩
  obtain ⟨c, h⟩ := (Description.read_eq_ok_iff hopen).1 hd
  obtain ⟨g, hg, -⟩ := h.sound.exists_grammar
  rw [hg] at hfault
  cases hfault

/-- the fault at a line depends on what the source gave up to that line -/
theorem read_eq_error_of_same {ς' : Type} [LineSource ς'] {s' : ς'} (hopen : (LineSource.start s').1 = .ok ()) {k : Nat}
    {role : Role} {fault : Description.Fault} (hdue : Due (lines? (opened s)) k role)
    (hfault : FaultIn role (lineAt (opened s) k) fault) (hsame : ∀ n ≤ k, lineAt (opened s') n = lineAt (opened s) n) :
    (read threshold s').result = .error fault := by
  refine (read_eq_error_iff threshold hopen).2 ⟨k, role, hdue.congr fun n hn => ?_, ?_⟩
  · simp only [lines?, hsame n (Nat.le_of_lt hn)]
  · rwa [hsame k (Nat.le_refl k)]

theorem exists_badRule_iff (hopen : (LineSource.start s).1 = .ok ()) {number : Nat} :
    (∃ reason, (read threshold s).result = .error (.badRule number reason)) ↔
      ∃ c nonTerminals terminals i, Header (lines? (opened s)) c nonTerminals terminals ∧ number = i + 1 ∧ i < c.rules ∧
        (∀ j < i, ∃ rule, HasRule (lines? (opened s)) nonTerminals terminals j rule) ∧
        ¬∃ rule, HasRule (lines? (opened s)) nonTerminals terminals i rule := by
  simp only [read_eq_error_iff threshold hopen]
  constructor
  · rintro ⟨reason, k, role, hdue, hfault⟩
    obtain ⟨nonTerminals, terminals, i, rfl, rfl⟩ := hfault.badRule_inv
    cases hdue with
    | @rule c _ _ _ header hlt before =>
      exact ⟨c, nonTerminals, terminals, i, header, rfl, hlt, before, exists_faultIn_rule_iff.1 ⟨_, hfault⟩⟩
  · rintro ⟨c, nonTerminals, terminals, i, header, rfl, hlt, before, hnone⟩
    obtain ⟨fault, hfault⟩ := exists_faultIn_rule_iff.2 hnone
    obtain ⟨reason, rfl⟩ := hfault.eq_badRule
    exact ⟨reason, _, _, .rule header hlt before, hfault⟩

/-- **The fault is that of the first line that is not in order.** Whatever follows that line, and whatever the source is,
the same answers up to it give the same fault. The fault of a rule has the number of the first rule that is not in order,
the first three lines and all rules before it being so. An illegal character is reported before a wrong number of characters,
and an error of the source as it is, except at rules. -/
theorem read_fault (hopen : (LineSource.start s).1 = .ok ()) :
    (∀ fault, (read threshold s).result = .error fault ↔
      ∃ k role, Due (lines? (opened s)) k role ∧ FaultIn role (lineAt (opened s) k) fault) ∧
    (∀ k role fault, Due (lines? (opened s)) k role → FaultIn role (lineAt (opened s) k) fault →
      ∀ (ς' : Type) [LineSource ς'] (s' : ς') (threshold' : Log.Threshold), (LineSource.start s').1 = .ok () →
        (∀ n ≤ k, lineAt (opened s') n = lineAt (opened s) n) → (read threshold' s').result = .error fault) ∧
    (∀ number, (∃ reason, (read threshold s).result = .error (.badRule number reason)) ↔
      ∃ c nonTerminals terminals i, Header (lines? (opened s)) c nonTerminals terminals ∧ number = i + 1 ∧ i < c.rules ∧
        (∀ j < i, ∃ rule, HasRule (lines? (opened s)) nonTerminals terminals j rule) ∧
        ¬∃ rule, HasRule (lines? (opened s)) nonTerminals terminals i rule) ∧
    (∀ which c, (read threshold s).result = .error (.badCharacter which c) ↔
      ∃ k declared, Due (lines? (opened s)) k (.alphabet which declared) ∧
        ∃ line before after, lineAt (opened s) k = .ok line ∧ Spells line.toList [before ++ c :: after] ∧
          (∀ x ∈ before, which.Legal x) ∧ ¬which.Legal c) ∧
    (∀ which declared actual, (read threshold s).result = .error (.badSize which declared actual) ↔
      ∃ k, Due (lines? (opened s)) k (.alphabet which declared) ∧
        ∃ line word, lineAt (opened s) k = .ok line ∧ Spells line.toList [word] ∧ (∀ c ∈ word, which.Legal c) ∧
          actual = word.toFinset.card ∧ actual ≠ declared) ∧
    ∀ error, (read threshold s).result = .error (.unreadable error) ↔
      ∃ k role, Due (lines? (opened s)) k role ∧ (∀ nonTerminals terminals i, role ≠ .rule nonTerminals terminals i) ∧
        lineAt (opened s) k = .error error := by
  refine ⟨fun fault => read_eq_error_iff threshold hopen, ?_, fun number => exists_badRule_iff threshold hopen, ?_, ?_, ?_⟩
  · intro k role fault hdue hfault ς' _ s' threshold' hopen' hsame
    exact read_eq_error_of_same threshold' hopen' hdue hfault hsame
  · intro which c
    simp only [read_eq_error_iff threshold hopen, faultIn_badCharacter_iff]
    constructor
    · rintro ⟨k, _, hdue, ⟨declared, rfl⟩, hline⟩
      exact ⟨k, declared, hdue, hline⟩
    · rintro ⟨k, declared, hdue, hline⟩
      exact ⟨k, _, hdue, ⟨declared, rfl⟩, hline⟩
  · intro which declared actual
    simp only [read_eq_error_iff threshold hopen, faultIn_badSize_iff]
    constructor
    · rintro ⟨k, _, hdue, rfl, hline⟩
      exact ⟨k, hdue, hline⟩
    · rintro ⟨k, hdue, hline⟩
      exact ⟨k, _, hdue, rfl, hline⟩
  · intro error
    simp only [read_eq_error_iff threshold hopen, faultIn_unreadable_iff]
    refine exists_congr fun k => exists_congr fun role => and_congr_right fun _ => and_comm

/-- the second of five rules has no arrow; what comes after it is never read -/
theorem read_fault_sample : (LineSource.start (TextSource.ofText "1 1 5\nS\na\nS -> a\nS = a\nX")).1 = .ok () ∧
    ∃ k role, Due (lines? (opened (TextSource.ofText "1 1 5\nS\na\nS -> a\nS = a\nX"))) k role ∧
      FaultIn role (lineAt (opened (TextSource.ofText "1 1 5\nS\na\nS -> a\nS = a\nX")) k) (.badRule 2 (.badArrow "=")) :=
  ⟨rfl, ((read_fault none rfl).1 _).1 (by cbv)⟩

/-- **Reading leaves nothing for the declarations to fail at.** Whatever a source gives, and wherever it fails, the result is
never that a description makes no grammar. Each description that is read is sound: no symbol is in both alphabets, the rules
and the start symbol use declared symbols only, and the declarations make the grammar that is the result. -/
theorem read_ne_badGrammar (s : ς) : (∀ fault, (read threshold s).result ≠ .error (.badGrammar fault)) ∧
    ∀ d, (Description.read s).1 = .ok d → d.Sound ∧
      ∃ g, ofDeclarations d.declarations = .ok g ∧ (read threshold s).result = .ok g := by
  have hread {d : Description} (hd : (Description.read s).1 = .ok d) :
      ∃ g, ofDeclarations d.declarations = .ok g ∧ (read threshold s).result = .ok g := by
    obtain ⟨g, hg⟩ := exists_ofDeclarations_iff.2 (sound_of_read hd).consistent
    refine ⟨g, hg, ?_⟩
    rw [result_read, hd]
    exact Description.grammar_of_ofDeclarations hg
  refine ⟨fun fault hfault => ?_, fun d hd => ⟨sound_of_read hd, hread hd⟩⟩
  rw [result_read, bind_eq_error_iff] at hfault
  rcases hfault with hfault | ⟨d, hd, hfault⟩
  · exact Description.read_ne_error_badGrammar s fault hfault
  · obtain ⟨g, hg, -⟩ := hread hd
    rw [Description.grammar_of_ofDeclarations hg] at hfault
    cases hfault

theorem read_ne_badGrammar_sample : (Description.read (TextSource.ofText sampleText)).1 = .ok sampleDescription ∧
    ∃ g, ofDeclarations sampleDescription.declarations = .ok g ∧
      (read none (TextSource.ofText sampleText)).result = .ok g :=
  ⟨read_sampleText, ((read_ne_badGrammar none _).2 _ read_sampleText).2⟩

end Grammar

end CfgMembership
