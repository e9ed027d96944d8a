/-
The lines of a description: what each kind of line looks like, and what is wrong with a line that does not.

For every kind of line there is a predicate on a line in order (`IsCounts`, `IsAlphabet`, `IsRule`, `IsStart`) and a
relation between any other line and its fault (`CountsFault`, `AlphabetFault`, `RuleFaultOn`, `StartFault`). The functions
that read lines are characterised by them, success and fault alike.
-/
import Mathlib
import CfgMembership.Description.Reading
import CfgMembership.Proofs.Text.Count
import CfgMembership.Proofs.Text.Word

namespace CfgMembership.Description

open CfgMembership.Text

section Except

variable {ε α β : Type} {x : Except ε α} {f : α → Except ε β}

theorem bind_eq_ok_iff {b : β} : (x >>= f) = .ok b ↔ ∃ a, x = .ok a ∧ f a = .ok b := by
  cases x with
  | error e => simp [bind, Except.bind]
  | ok a => simp [bind, Except.bind]

theorem bind_eq_error_iff {e : ε} : (x >>= f) = .error e ↔ x = .error e ∨ ∃ a, x = .ok a ∧ f a = .error e := by
  cases x with
  | error e' => simp [bind, Except.bind]
  | ok a => simp [bind, Except.bind]

theorem map_eq_ok_iff {g : α → β} {b : β} : x.map g = .ok b ↔ ∃ a, x = .ok a ∧ g a = b := by
  cases x <;> simp [Except.map]

theorem map_eq_error_iff {g : α → β} {e : ε} : x.map g = .error e ↔ x = .error e := by
  cases x <;> simp [Except.map]

end Except

/-! ## Characters -/

/-- the characters of an alphabet, written out -/
def Alphabet.Legal : Alphabet → Char → Prop
  | .nonTerminal, c => 'A' ≤ c ∧ c ≤ 'Z'
  | .terminal, c => c ∈ "0123456789()[]\x7b\x7dabcdefghijklmnopqrstuvwxyz+-=/*".toList

instance (which : Alphabet) (c : Char) : Decidable (which.Legal c) :=
  match which with
  | .nonTerminal => inferInstanceAs (Decidable ('A' ≤ c ∧ c ≤ 'Z'))
  | .terminal => inferInstanceAs (Decidable (_ ∈ _))

/-- all terminals are ASCII characters, and on those the two ways to say which are terminals agree -/
theorem Alphabet.allows_ascii :
    ∀ n < 128, Alphabet.terminal.allows (Char.ofNat n) = decide (Alphabet.terminal.Legal (Char.ofNat n)) := by
  decide +kernel

theorem Alphabet.lt_of_legal_terminal {c : Char} (h : Alphabet.terminal.Legal c) : c.toNat < 128 := by
  have hall : ("0123456789()[]\x7b\x7dabcdefghijklmnopqrstuvwxyz+-=/*".toList.all fun c => c.toNat < 128) = true := by decide
  simpa using List.all_eq_true.1 hall c h

theorem Alphabet.lt_of_allows_terminal {c : Char} (h : Alphabet.terminal.allows c = true) : c.toNat < 128 := by
  have hall : ("()[]\x7b\x7d+-=/*".toList.all fun c => c.toNat < 128) = true := by decide
  simp only [allows, Bool.or_eq_true, List.contains_iff_mem] at h
  rcases h with (hdigit | hlower) | hmem
  · simp only [Char.isDigit, Bool.and_eq_true, decide_eq_true_eq, UInt32.le_iff_toNat_le] at hdigit
    exact Nat.lt_of_le_of_lt hdigit.2 (by decide)
  · simp only [Char.isLower, Bool.and_eq_true, decide_eq_true_eq, UInt32.le_iff_toNat_le] at hlower
    exact Nat.lt_of_le_of_lt hlower.2 (by decide)
  · simpa using List.all_eq_true.1 hall c hmem

/-- the characters that an alphabet may hold are the legal ones -/
theorem Alphabet.allows_iff {which : Alphabet} (c : Char) : which.allows c = true ↔ which.Legal c := by
  cases which with
  | nonTerminal => simp [allows, Legal]
  | terminal =>
    have hascii (hlt : c.toNat < 128) : terminal.allows c = true ↔ terminal.Legal c := by
      have hsame := allows_ascii c.toNat hlt
      rw [Char.ofNat_toNat] at hsame
      simp [hsame]
    exact ⟨fun h => (hascii (lt_of_allows_terminal h)).1 h, fun h => (hascii (lt_of_legal_terminal h)).2 h⟩

/-! ## Counts -/

/-- three counts at the beginning of the first line -/
def IsCounts (line : String) (counts : Counts) : Prop :=
  ∃ first second third rest, Spells line.toList (first :: second :: third :: rest) ∧
    Writes first counts.nonTerminals ∧ Writes second counts.terminals ∧ Writes third counts.rules

/-- what is wrong with a first line: of the three counts, some are there, and the next is missing or no count -/
inductive CountsFault (line : String) : Fault → Prop where
  | missing {words : List (List Char)} (hwords : Spells line.toList words) (hcounts : ∀ w ∈ words, ∃ n, Writes w n)
    (hlt : words.length < 3) : CountsFault line (.missingCount line)
  | invalid {before rest : List (List Char)} {word : List Char} (hwords : Spells line.toList (before ++ word :: rest))
    (hcounts : ∀ w ∈ before, ∃ n, Writes w n) (hlt : before.length < 3) (hword : ¬∃ n, Writes word n) :
    CountsFault line (.invalidCount (String.ofList word))

variable {line : String} {fault : Fault}

theorem nextCount_eq_ok_iff {words rest : List (List Char)} {n : Nat} :
    nextCount line words = .ok (n, rest) ↔ ∃ word, words = word :: rest ∧ Writes word n := by
  cases words with
  | nil => simp [nextCount]
  | cons word words =>
    simp only [nextCount, ← count?_eq_some_iff]
    cases hcount : count? word with
    | none => simp [hcount]
    | some count =>
      simp [hcount]
      tauto

theorem nextCount_eq_error_iff {words : List (List Char)} :
    nextCount line words = .error fault ↔ (words = [] ∧ fault = .missingCount line) ∨
      ∃ word rest, words = word :: rest ∧ (¬∃ n, Writes word n) ∧ fault = .invalidCount (String.ofList word) := by
  cases words with
  | nil => simp [nextCount, eq_comm]
  | cons word words =>
    simp only [nextCount, ← count?_eq_none_iff]
    cases hcount : count? word with
    | none => simp [hcount, eq_comm]
    | some count => simp [hcount]

theorem counts_eq_ok_iff {c : Counts} : counts line = .ok c ↔ IsCounts line c := by
  simp only [counts, bind_eq_ok_iff, Prod.exists, nextCount_eq_ok_iff, pure, Except.pure, Except.ok.injEq]
  constructor
  · rintro ⟨n, _, ⟨first, hfirst, hn⟩, t, _, ⟨second, rfl, ht⟩, r, rest, ⟨third, rfl, hr⟩, rfl⟩
    exact ⟨first, second, third, rest, words_eq_iff.1 hfirst, hn, ht, hr⟩
  · rintro ⟨first, second, third, rest, hwords, hn, ht, hr⟩
    exact ⟨_, _, ⟨first, words_eq_iff.2 hwords, hn⟩, _, _, ⟨second, rfl, ht⟩, _, _, ⟨third, rfl, hr⟩, rfl⟩

/-- a first line is at fault when the next count after less than three is -/
theorem countsFault_iff : CountsFault line fault ↔ ∃ before rest, words line.toList = before ++ rest ∧
    (∀ w ∈ before, ∃ n, Writes w n) ∧ before.length < 3 ∧ nextCount line rest = .error fault := by
  simp only [nextCount_eq_error_iff]
  constructor
  · intro h
    cases h with
    | @missing words hwords hcounts hlt =>
      exact ⟨words, [], by rw [hwords.words_eq, List.append_nil], hcounts, hlt, .inl ⟨rfl, rfl⟩⟩
    | @invalid before rest word hwords hcounts hlt hword =>
      exact ⟨before, word :: rest, hwords.words_eq, hcounts, hlt, .inr ⟨word, rest, rfl, hword, rfl⟩⟩
  · rintro ⟨before, _, hwords, hcounts, hlt, ⟨rfl, rfl⟩ | ⟨word, rest, rfl, hword, rfl⟩⟩
    · rw [List.append_nil] at hwords
      exact .missing (words_eq_iff.1 hwords) hcounts hlt
    · exact .invalid (words_eq_iff.1 hwords) hcounts hlt hword

theorem counts_eq_error_iff : counts line = .error fault ↔ CountsFault line fault := by
  simp only [countsFault_iff, counts, bind_eq_error_iff, Prod.exists, nextCount_eq_ok_iff, pure, Except.pure,
    reduceCtorEq, and_false, exists_false, or_false]
  constructor
  · rintro (h | ⟨n, _, ⟨first, hfirst, hn⟩, h | ⟨t, _, ⟨second, rfl, ht⟩, h⟩⟩)
    · exact ⟨[], _, rfl, by simp, by simp, h⟩
    · exact ⟨[first], _, hfirst, by simpa using ⟨n, hn⟩, by simp, h⟩
    · exact ⟨[first, second], _, hfirst, by simpa using ⟨⟨n, hn⟩, t, ht⟩, by simp, h⟩
  · rintro ⟨before, rest, hwords, hcounts, hlt, h⟩
    match before, hlt with
    | [], _ => exact .inl (hwords ▸ h)
    | [first], _ =>
      obtain ⟨n, hn⟩ := hcounts first (by simp)
      exact .inr ⟨n, _, ⟨first, hwords, hn⟩, .inl h⟩
    | [first, second], _ =>
      obtain ⟨n, hn⟩ := hcounts first (by simp)
      obtain ⟨t, ht⟩ := hcounts second (by simp)
      exact .inr ⟨n, _, ⟨first, hwords, hn⟩, .inr ⟨t, _, ⟨second, rfl, ht⟩, h⟩⟩

/-! ## Single words -/

/-- what is wrong with a line that is not one word -/
inductive WordFault (line : String) : Fault → Prop where
  | missing (hwords : Spells line.toList []) : WordFault line .missingWord
  | unexpected {word next : List Char} {rest : List (List Char)} (hwords : Spells line.toList (word :: next :: rest)) :
    WordFault line (.unexpectedInput (String.ofList word))

theorem singleWord_eq_ok_iff {word : List Char} : singleWord line = .ok word ↔ Spells line.toList [word] := by
  rw [← words_eq_iff]
  unfold singleWord
  split <;> simp_all

theorem singleWord_eq_error_iff : singleWord line = .error fault ↔ WordFault line fault := by
  have hspells := spells_words line.toList
  unfold singleWord
  constructor
  · intro h
    split at h
    · rename_i hwords
      cases h
      exact .missing (hwords ▸ hspells)
    · cases h
    · rename_i hwords
      cases h
      exact .unexpected (hwords ▸ hspells)
  · intro h
    cases h with
    | missing hwords => rw [hwords.words_eq]
    | unexpected hwords => rw [hwords.words_eq]

/-! ## Alphabets -/

/-- one word of legal characters, with the number of different ones that was declared; its symbols are these characters in
the order in which they first occur -/
def IsAlphabet (which : Alphabet) (declared : Nat) (line : String) (symbols : List Char) : Prop :=
  ∃ word, Spells line.toList [word] ∧ (∀ c ∈ word, which.Legal c) ∧ word.toFinset.card = declared ∧
    symbols = word.eraseDups

/-- what is wrong with an alphabet line: it is not one word, or has an illegal character, or else not as many different
characters as were declared -/
inductive AlphabetFault (which : Alphabet) (declared : Nat) (line : String) : Fault → Prop where
  | word {fault : Fault} (h : WordFault line fault) : AlphabetFault which declared line fault
  | badCharacter {before after : List Char} {c : Char} (hword : Spells line.toList [before ++ c :: after])
    (hbefore : ∀ x ∈ before, which.Legal x) (hc : ¬which.Legal c) :
    AlphabetFault which declared line (.badCharacter which c)
  | badSize {word : List Char} (hword : Spells line.toList [word]) (hlegal : ∀ c ∈ word, which.Legal c)
    (hne : word.toFinset.card ≠ declared) :
    AlphabetFault which declared line (.badSize which declared word.toFinset.card)

theorem distinct_append_singleton (cs : List Char) (c : Char) :
    distinct (cs ++ [c]) = if c ∈ distinct cs then distinct cs else distinct cs ++ [c] := by
  simp [distinct]

theorem mem_distinct {cs : List Char} {c : Char} : c ∈ distinct cs ↔ c ∈ cs := by
  induction cs using List.reverseRecOn with
  | nil => simp [distinct]
  | append_singleton cs d ih =>
    rw [distinct_append_singleton, List.mem_append, List.mem_singleton, ← ih]
    split
    · rename_i hd
      exact ⟨.inl, fun h => h.elim id fun heq => heq ▸ hd⟩
    · rw [List.mem_append, List.mem_singleton]

theorem nodup_distinct (cs : List Char) : (distinct cs).Nodup := by
  induction cs using List.reverseRecOn with
  | nil => simp [distinct]
  | append_singleton cs d ih =>
    rw [distinct_append_singleton]
    split
    · exact ih
    · rename_i hd
      simpa using List.Nodup.concat hd ih

theorem distinct_eq_eraseDups (cs : List Char) : distinct cs = cs.eraseDups := by
  induction cs using List.reverseRecOn with
  | nil => simp [distinct]
  | append_singleton cs d ih =>
    rw [distinct_append_singleton, List.eraseDups_append, ← ih]
    by_cases hd : d ∈ cs
    · simp [mem_distinct, hd, List.removeAll]
    · simp [mem_distinct, hd, List.removeAll, List.eraseDups_cons]

theorem length_distinct (cs : List Char) : (distinct cs).length = cs.toFinset.card := by
  rw [← List.toFinset_card_of_nodup (nodup_distinct cs)]
  congr 1
  ext c
  simp [mem_distinct]

variable {which : Alphabet} {declared : Nat} {word : List Char}

section Find

variable {p : Char → Bool} {P : Char → Prop} (hp : ∀ c, p c = true ↔ P c)

include hp

theorem find?_not_eq_none_iff : (word.find? fun c => !p c) = none ↔ ∀ c ∈ word, P c := by
  simp [List.find?_eq_none, hp]

/-- the first character without a property is the one that all before it have -/
theorem find?_not_eq_some_iff {c : Char} : (word.find? fun c => !p c) = some c ↔
    ∃ before after, word = before ++ c :: after ∧ (∀ x ∈ before, P x) ∧ ¬P c := by
  simp only [List.find?_eq_some_iff_append, Bool.not_not, Bool.not_eq_true', ← Bool.not_eq_true, hp]
  constructor
  · rintro ⟨hc, before, after, hword, hbefore⟩
    exact ⟨before, after, hword, hbefore, hc⟩
  · rintro ⟨before, after, hword, hbefore, hc⟩
    exact ⟨hc, before, after, hword, hbefore⟩

end Find

theorem alphabet_eq_ok_iff {symbols : List Char} :
    alphabet which declared line = .ok symbols ↔ IsAlphabet which declared line symbols := by
  simp only [alphabet, bind_eq_ok_iff, singleWord_eq_ok_iff, IsAlphabet]
  refine exists_congr fun word => and_congr_right fun _ => ?_
  split
  · rename_i c hfind
    obtain ⟨before, after, rfl, -, hc⟩ := (find?_not_eq_some_iff which.allows_iff).1 hfind
    simp only [reduceCtorEq, false_iff, not_and]
    intro hlegal
    exact absurd (hlegal c (by simp)) hc
  · rename_i hfind
    rw [and_iff_right ((find?_not_eq_none_iff which.allows_iff).1 hfind), length_distinct, distinct_eq_eraseDups]
    split
    · rename_i hsize
      simp [hsize, eq_comm]
    · rename_i hsize
      simp [hsize]

theorem alphabet_eq_error_iff : alphabet which declared line = .error fault ↔ AlphabetFault which declared line fault := by
  simp only [alphabet, bind_eq_error_iff, singleWord_eq_ok_iff, singleWord_eq_error_iff]
  constructor
  · rintro (h | ⟨word, hword, h⟩)
    · exact .word h
    · split at h
      · rename_i c hfind
        cases h
        obtain ⟨before, after, rfl, hbefore, hc⟩ := (find?_not_eq_some_iff which.allows_iff).1 hfind
        exact .badCharacter hword hbefore hc
      · rename_i hfind
        split at h
        · cases h
        · rename_i hsize
          cases h
          rw [length_distinct] at hsize ⊢
          exact .badSize hword ((find?_not_eq_none_iff which.allows_iff).1 hfind) hsize
  · intro h
    cases h with
    | word h => exact .inl h
    | badCharacter hword hbefore hc =>
      refine .inr ⟨_, hword, ?_⟩
      rw [(find?_not_eq_some_iff which.allows_iff).2 ⟨_, _, rfl, hbefore, hc⟩]
    | badSize hword hlegal hne =>
      refine .inr ⟨_, hword, ?_⟩
      rw [(find?_not_eq_none_iff which.allows_iff).2 hlegal]
      simp only [length_distinct]
      rw [if_neg hne]

/-! ## Rules -/

/-- a declared non-terminal, the arrow and at most one word, all of whose characters are declared -/
def IsRule (nonTerminals terminals : List Char) (line : String) (r : Rule) : Prop :=
  ∃ bodies, Spells line.toList ([r.head] :: "->".toList :: bodies) ∧ bodies.length ≤ 1 ∧ r.body = bodies.flatten ∧
    r.head ∈ nonTerminals ∧ ∀ c ∈ r.body, c ∈ nonTerminals ∨ c ∈ terminals

/-- what is wrong with a rule line, looked at from left to right, and at the characters of the body last -/
inductive RuleFaultOn (nonTerminals terminals : List Char) (line : String) : RuleFault → Prop where
  | empty (hwords : Spells line.toList []) : RuleFaultOn nonTerminals terminals line .empty
  | badHead {word : List Char} {rest : List (List Char)} (hwords : Spells line.toList (word :: rest))
    (hword : ¬∃ c ∈ nonTerminals, word = [c]) : RuleFaultOn nonTerminals terminals line (.badHead (String.ofList word))
  | noArrow {head : Char} (hwords : Spells line.toList [[head]]) (hhead : head ∈ nonTerminals) :
    RuleFaultOn nonTerminals terminals line .noArrow
  | badArrow {head : Char} {word : List Char} {rest : List (List Char)}
    (hwords : Spells line.toList ([head] :: word :: rest)) (hhead : head ∈ nonTerminals) (hword : word ≠ "->".toList) :
    RuleFaultOn nonTerminals terminals line (.badArrow (String.ofList word))
  | trailing {head : Char} {body next : List Char} {rest : List (List Char)}
    (hwords : Spells line.toList ([head] :: "->".toList :: body :: next :: rest)) (hhead : head ∈ nonTerminals) :
    RuleFaultOn nonTerminals terminals line .trailing
  | undeclared {head c : Char} {before after : List Char}
    (hwords : Spells line.toList [[head], "->".toList, before ++ c :: after]) (hhead : head ∈ nonTerminals)
    (hbefore : ∀ x ∈ before, x ∈ nonTerminals ∨ x ∈ terminals) (hc : ¬(c ∈ nonTerminals ∨ c ∈ terminals)) :
    RuleFaultOn nonTerminals terminals line (.undeclared c)

variable {nonTerminals terminals : List Char}

theorem declared?_eq_some_iff {c : Char} : declared? nonTerminals word = some c ↔ c ∈ nonTerminals ∧ word = [c] := by
  unfold declared?
  split
  · rename_i d
    simp only [Option.ite_none_right_eq_some, List.contains_iff_mem, Option.some.injEq, List.cons.injEq, and_true]
    constructor
    · rintro ⟨hd, rfl⟩
      exact ⟨hd, rfl⟩
    · rintro ⟨hc, rfl⟩
      exact ⟨hc, rfl⟩
  · rename_i hne
    simp only [reduceCtorEq, false_iff, not_and]
    exact fun _ hword => hne c hword

theorem declared?_eq_none_iff : declared? nonTerminals word = none ↔ ¬∃ c ∈ nonTerminals, word = [c] := by
  simp only [Option.eq_none_iff_forall_ne_some, ne_eq, declared?_eq_some_iff, not_exists]

theorem declared_iff (c : Char) : (nonTerminals.contains c || terminals.contains c) = true ↔
    c ∈ nonTerminals ∨ c ∈ terminals := by
  simp

theorem ruleBody_eq_ok_iff {body body' : List Char} : ruleBody nonTerminals terminals body = .ok body' ↔
    body' = body ∧ ∀ c ∈ body, c ∈ nonTerminals ∨ c ∈ terminals := by
  unfold ruleBody
  split
  · rename_i c hfind
    obtain ⟨before, after, rfl, -, hc⟩ := (find?_not_eq_some_iff declared_iff).1 hfind
    simp only [reduceCtorEq, false_iff, not_and]
    intro _ hall
    exact absurd (hall c (by simp)) hc
  · rename_i hfind
    have hall := (find?_not_eq_none_iff declared_iff).1 hfind
    rw [and_iff_left hall, Except.ok.injEq, eq_comm]

theorem ruleBody_eq_error_iff {body : List Char} {fault : RuleFault} :
    ruleBody nonTerminals terminals body = .error fault ↔ ∃ before c after, body = before ++ c :: after ∧
      (∀ x ∈ before, x ∈ nonTerminals ∨ x ∈ terminals) ∧ ¬(c ∈ nonTerminals ∨ c ∈ terminals) ∧
      fault = .undeclared c := by
  unfold ruleBody
  split
  · rename_i c hfind
    rw [Except.error.injEq]
    constructor
    · rintro rfl
      obtain ⟨before, after, hbody, hbefore, hc⟩ := (find?_not_eq_some_iff declared_iff).1 hfind
      exact ⟨before, c, after, hbody, hbefore, hc, rfl⟩
    · rintro ⟨before, c', after, hbody, hbefore, hc, rfl⟩
      have hfind' := (find?_not_eq_some_iff declared_iff).2 ⟨before, after, hbody, hbefore, hc⟩
      rw [hfind, Option.some.injEq] at hfind'
      rw [hfind']
  · rename_i hfind
    simp only [reduceCtorEq, false_iff, not_exists, not_and]
    rintro before c after rfl - hc -
    exact hc ((find?_not_eq_none_iff declared_iff).1 hfind c (by simp))

/-- a declared non-terminal at the beginning of a rule is its head -/
theorem declared?_singleton {head : Char} (h : head ∈ nonTerminals) : declared? nonTerminals [head] = some head :=
  declared?_eq_some_iff.2 ⟨h, rfl⟩

theorem rule_of_isRule {r : Rule} (h : IsRule nonTerminals terminals line r) : rule nonTerminals terminals line = .ok r := by
  obtain ⟨bodies, hwords, hlength, hbody, hhead, hall⟩ := h
  unfold rule
  rw [hwords.words_eq]
  simp only [declared?_singleton hhead]
  match bodies, hlength with
  | [], _ =>
    obtain ⟨head, _⟩ := r
    obtain rfl := hbody
    rfl
  | [body], _ =>
    rw [List.flatten_singleton] at hbody
    exact map_eq_ok_iff.2 ⟨r.body, ruleBody_eq_ok_iff.2 ⟨hbody, hbody ▸ hall⟩, rfl⟩

theorem rule_of_ruleFaultOn {fault : RuleFault} (h : RuleFaultOn nonTerminals terminals line fault) :
    rule nonTerminals terminals line = .error fault := by
  unfold rule
  cases h with
  | empty hwords => rw [hwords.words_eq]
  | badHead hwords hword =>
    rw [hwords.words_eq]
    simp only [declared?_eq_none_iff.2 hword]
  | noArrow hwords hhead =>
    rw [hwords.words_eq]
    simp only [declared?_singleton hhead]
  | badArrow hwords hhead hword =>
    rw [hwords.words_eq]
    simp only [declared?_singleton hhead]
    exact if_pos hword
  | trailing hwords hhead =>
    rw [hwords.words_eq]
    simp only [declared?_singleton hhead]
    rfl
  | undeclared hwords hhead hbefore hc =>
    rw [hwords.words_eq]
    simp only [declared?_singleton hhead]
    exact map_eq_error_iff.2 (ruleBody_eq_error_iff.2 ⟨_, _, _, rfl, hbefore, hc, rfl⟩)

/-- nothing but a rule is without fault -/
theorem isRule_or_ruleFaultOn (nonTerminals terminals : List Char) (line : String) :
    (∃ r, IsRule nonTerminals terminals line r) ∨ ∃ fault, RuleFaultOn nonTerminals terminals line fault := by
  have hwords := spells_words line.toList
  generalize words line.toList = ws at hwords
  rcases ws with _ | ⟨head, rest⟩
  · exact .inr ⟨_, .empty hwords⟩
  by_cases hhead : ∃ c ∈ nonTerminals, head = [c]
  swap
  · exact .inr ⟨_, .badHead hwords hhead⟩
  obtain ⟨c, hc, rfl⟩ := hhead
  rcases rest with _ | ⟨arrow, bodies⟩
  · exact .inr ⟨_, .noArrow hwords hc⟩
  by_cases harrow : arrow = "->".toList
  swap
  · exact .inr ⟨_, .badArrow hwords hc harrow⟩
  subst harrow
  rcases bodies with _ | ⟨body, _ | ⟨next, rest⟩⟩
  · exact .inl ⟨⟨c, []⟩, [], hwords, by simp, rfl, hc, by simp⟩
  · cases hbody : ruleBody nonTerminals terminals body with
    | ok body' =>
      obtain ⟨rfl, hall⟩ := ruleBody_eq_ok_iff.1 hbody
      exact .inl ⟨⟨c, body'⟩, [body'], hwords, by simp, by simp, hc, hall⟩
    | error fault =>
      obtain ⟨before, x, after, rfl, hbefore, hx, rfl⟩ := ruleBody_eq_error_iff.1 hbody
      exact .inr ⟨_, .undeclared hwords hc hbefore hx⟩
  · exact .inr ⟨_, .trailing hwords hc⟩

theorem rule_eq_ok_iff {r : Rule} : rule nonTerminals terminals line = .ok r ↔ IsRule nonTerminals terminals line r := by
  refine ⟨fun h => ?_, rule_of_isRule⟩
  obtain ⟨r', hr'⟩ | ⟨fault, hfault⟩ := isRule_or_ruleFaultOn nonTerminals terminals line
  · rw [rule_of_isRule hr'] at h
    cases h
    exact hr'
  · rw [rule_of_ruleFaultOn hfault] at h
    cases h

theorem rule_eq_error_iff {fault : RuleFault} :
    rule nonTerminals terminals line = .error fault ↔ RuleFaultOn nonTerminals terminals line fault := by
  refine ⟨fun h => ?_, rule_of_ruleFaultOn⟩
  obtain ⟨r, hr⟩ | ⟨fault', hfault'⟩ := isRule_or_ruleFaultOn nonTerminals terminals line
  · rw [rule_of_isRule hr] at h
    cases h
  · rw [rule_of_ruleFaultOn hfault'] at h
    cases h
    exact hfault'

/-! ## The start symbol -/

/-- one word, which is a declared non-terminal -/
def IsStart (nonTerminals : List Char) (line : String) (c : Char) : Prop :=
  Spells line.toList [[c]] ∧ c ∈ nonTerminals

/-- what is wrong with a start line: it is not one word, or that is no declared non-terminal -/
inductive StartFault (nonTerminals : List Char) (line : String) : Fault → Prop where
  | word {fault : Fault} (h : WordFault line fault) : StartFault nonTerminals line fault
  | badStart {word : List Char} (hword : Spells line.toList [word]) (hstart : ¬∃ c ∈ nonTerminals, word = [c]) :
    StartFault nonTerminals line (.badStart (String.ofList word))

theorem startSymbol_eq_ok_iff {c : Char} : startSymbol nonTerminals line = .ok c ↔ IsStart nonTerminals line c := by
  simp only [startSymbol, bind_eq_ok_iff, singleWord_eq_ok_iff]
  constructor
  · rintro ⟨word, hword, h⟩
    split at h
    · rename_i d hd
      cases h
      obtain ⟨hmem, rfl⟩ := declared?_eq_some_iff.1 hd
      exact ⟨hword, hmem⟩
    · cases h
  · rintro ⟨hword, hmem⟩
    refine ⟨[c], hword, ?_⟩
    rw [declared?_singleton hmem]

theorem startSymbol_eq_error_iff : startSymbol nonTerminals line = .error fault ↔ StartFault nonTerminals line fault := by
  simp only [startSymbol, bind_eq_error_iff, singleWord_eq_ok_iff, singleWord_eq_error_iff]
  constructor
  · rintro (h | ⟨word, hword, h⟩)
    · exact .word h
    · split at h
      · cases h
      · rename_i hnone
        cases h
        exact .badStart hword (declared?_eq_none_iff.1 hnone)
  · intro h
    cases h with
    | word h => exact .inl h
    | badStart hword hstart =>
      refine .inr ⟨_, hword, ?_⟩
      rw [declared?_eq_none_iff.2 hstart]

end CfgMembership.Description
