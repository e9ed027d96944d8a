/-
What grammar a description stands for.

A description that has been read is sound (`Describes.sound`), and sound descriptions make grammars: `Realizes` says which
symbols the grammar of a description has, with what numbers, kinds and bodies. `read_text_iff` is the outcome:
a text is read as a grammar just when its lines describe one, no line after the start symbol counts, and the grammar is the
one described.
-/
import CfgMembership.Proofs.Description.Reading
import CfgMembership.Proofs.Grammar.Contents

namespace CfgMembership

namespace Description

/-! ## Sound descriptions -/

/-- no symbol is declared twice, and the rules and the start symbol use what is declared -/
structure Sound (d : Description) : Prop where
  nodup : (d.nonTerminals ++ d.terminals).Nodup
  rules : ∀ rule ∈ d.rules, rule.head ∈ d.nonTerminals ∧ ∀ c ∈ rule.body, c ∈ d.nonTerminals ∨ c ∈ d.terminals
  start : d.start ∈ d.nonTerminals

/-- no character may be in both alphabets -/
theorem Alphabet.not_legal_terminal {c : Char} (h : Alphabet.nonTerminal.Legal c) : ¬Alphabet.terminal.Legal c := by
  have hall : ("0123456789()[]\x7b\x7dabcdefghijklmnopqrstuvwxyz+-=/*".toList.all
      fun c => ¬Alphabet.nonTerminal.Legal c) = true := by decide
  intro hc
  exact of_decide_eq_true (List.all_eq_true.1 hall c hc) h

theorem IsAlphabet.nodup {which : Alphabet} {declared : Nat} {line : String} {symbols : List Char}
    (h : IsAlphabet which declared line symbols) : symbols.Nodup := by
  obtain ⟨word, -, -, -, rfl⟩ := h
  rw [← distinct_eq_eraseDups]
  exact nodup_distinct word

theorem IsAlphabet.legal {which : Alphabet} {declared : Nat} {line : String} {symbols : List Char}
    (h : IsAlphabet which declared line symbols) : ∀ c ∈ symbols, which.Legal c := by
  obtain ⟨word, -, hlegal, -, rfl⟩ := h
  intro c hc
  exact hlegal c (List.mem_eraseDups.1 hc)

theorem Describes.sound {line? : Nat → Option String} {c : Counts} {d : Description} (h : Describes line? c d) :
    d.Sound where
  nodup := by
    obtain ⟨_, -, hnts⟩ := h.nonTerminals
    obtain ⟨_, -, hts⟩ := h.terminals
    refine List.nodup_append.2 ⟨hnts.nodup, hts.nodup, ?_⟩
    rintro c hc _ hc' rfl
    exact Alphabet.not_legal_terminal (hnts.legal c hc) (hts.legal c hc')
  rules rule hrule := by
    obtain ⟨i, hi⟩ := List.getElem?_of_mem hrule
    obtain ⟨-, -, -, -, -, -, hhead, hbody⟩ := h.rules i rule hi
    exact ⟨hhead, hbody⟩
  start := by
    obtain ⟨-, -, -, hstart⟩ := h.start
    exact hstart

/-! ## Their declarations -/

variable {d : Description}

theorem start?_declarations (d : Description) : Declaration.start? d.declarations = some d.start := by
  unfold declarations
  rw [Declaration.start?_concat]
  rfl

theorem productions_declarations (d : Description) :
    Declaration.productions d.declarations = d.rules.map fun rule => (rule.head, rule.body) := by
  simp [declarations, Declaration.productions, List.filterMap_append, List.filterMap_map, Function.comp_def,
    Declaration.production?]

theorem nonTerminal_mem_declarations {c : Char} : .nonTerminal c ∈ d.declarations ↔ c ∈ d.nonTerminals := by
  simp [declarations]

theorem terminal_mem_declarations {c : Char} : .terminal c ∈ d.declarations ↔ c ∈ d.terminals := by
  simp [declarations]

theorem production_mem_declarations {head : Char} {body : List Char} :
    .production head body ∈ d.declarations ↔ ⟨head, body⟩ ∈ d.rules := by
  rw [← Declaration.mem_productions, productions_declarations, List.mem_map]
  constructor
  · rintro ⟨rule, hrule, h⟩
    cases h
    exact hrule
  · intro hrule
    exact ⟨_, hrule, rfl⟩

theorem eraseDups_of_nodup {cs : List Char} (h : cs.Nodup) : cs.eraseDups = cs := by
  induction cs with
  | nil => rfl
  | cons c cs ih =>
    obtain ⟨hc, hcs⟩ := List.nodup_cons.1 h
    have hother : cs.filter (fun c' => !c' == c) = cs := by
      rw [List.filter_eq_self]
      intro c' hc'
      simp only [Bool.not_eq_true', beq_eq_false_iff_ne]
      rintro rfl
      exact hc hc'
    rw [List.eraseDups_cons, hother, ih hcs]

/-- what comes after is mentioned before -/
theorem Sound.symbols_declarations (h : d.Sound) :
    Declaration.symbols d.declarations = d.nonTerminals ++ d.terminals := by
  have hmentions : d.declarations.flatMap Declaration.mentions =
      (d.nonTerminals ++ d.terminals) ++ (d.rules.flatMap (fun rule => rule.head :: rule.body) ++ [d.start]) := by
    simp [declarations, List.flatMap_append, List.flatMap_map, Declaration.mentions]
  have hold : (d.rules.flatMap (fun rule => rule.head :: rule.body) ++ [d.start]).removeAll (d.nonTerminals ++ d.terminals)
      = [] := by
    have hmem : ∀ c ∈ d.rules.flatMap (fun rule => rule.head :: rule.body) ++ [d.start],
        c ∈ d.nonTerminals ++ d.terminals := by
      intro c hc
      rw [List.mem_append]
      rcases List.mem_append.1 hc with hc | hc
      · obtain ⟨rule, hrule, hc⟩ := List.mem_flatMap.1 hc
        obtain ⟨hhead, hbody⟩ := h.rules rule hrule
        rcases List.mem_cons.1 hc with rfl | hc
        · exact .inl hhead
        · exact hbody c hc
      · rw [List.mem_singleton.1 hc]
        exact .inl h.start
    rw [List.removeAll, List.filter_eq_nil_iff]
    intro c hc
    simp [hmem c hc]
  rw [Declaration.symbols, hmentions, List.eraseDups_append, eraseDups_of_nodup h.nodup, hold, List.eraseDups_nil,
    List.append_nil]

theorem Sound.consistent (h : d.Sound) : Declaration.Consistent d.declarations where
  start := ⟨d.start, d.start?_declarations, nonTerminal_mem_declarations.2 h.start⟩
  kinds c hterminal := by
    rw [terminal_mem_declarations] at hterminal
    rw [nonTerminal_mem_declarations]
    exact fun hc => List.disjoint_of_nodup_append h.nodup hc hterminal
  productions head body hrule := by
    simp only [nonTerminal_mem_declarations, terminal_mem_declarations]
    exact h.rules _ (production_mem_declarations.1 hrule)

end Description

/-! ## The grammar of a description -/

namespace Grammar

/-- a grammar is the one described: its symbols are the non-terminals and then the terminals, numbered in that order, one
number more stands for the augmented start symbol, and the bodies of a symbol are those of its rules -/
structure Realizes (g : Grammar Char) (d : Description) : Prop where
  symbols : g.table.Lists (d.nonTerminals ++ d.terminals)
  nonTerminal_iff : ∀ id, g.kind id = .nonTerminal ↔ id < d.nonTerminals.length ∨ id = g.augmentedStart
  terminal_iff : ∀ id, g.kind id = .terminal ↔ d.nonTerminals.length ≤ id ∧ id < g.augmentedStart
  bodies_eq : ∀ c, g.bodies c = (d.rules.filter (·.head == c)).map fun rule => rule.body.map some
  start : g.table.id? d.start = some g.start
  lawful : g.Lawful

end Grammar

namespace Description

variable {d : Description}

section Position

variable {xs ys : List Char} {i : Nat}

/-- which positions of two lists that share no entry are those of the first, and which those of the second -/
theorem exists_mem_left_iff (h : xs.Disjoint ys) : (∃ c ∈ xs, (xs ++ ys)[i]? = some c) ↔ i < xs.length := by
  constructor
  · rintro ⟨c, hc, hi⟩
    by_contra hge
    rw [List.getElem?_append_right (Nat.not_lt.1 hge)] at hi
    exact h hc (List.mem_of_getElem? hi)
  · intro hlt
    exact ⟨xs[i], List.getElem_mem hlt, by rw [List.getElem?_append_left hlt, List.getElem?_eq_getElem hlt]⟩

theorem exists_mem_right_iff (h : xs.Disjoint ys) :
    (∃ c ∈ ys, (xs ++ ys)[i]? = some c) ↔ xs.length ≤ i ∧ i < xs.length + ys.length := by
  constructor
  · rintro ⟨c, hc, hi⟩
    have hlt := (List.getElem?_eq_some_iff.1 hi).1
    rw [List.length_append] at hlt
    refine ⟨Nat.not_lt.1 fun hlt => ?_, hlt⟩
    rw [List.getElem?_append_left hlt] at hi
    exact h (List.mem_of_getElem? hi) hc
  · rintro ⟨hge, hlt⟩
    have hlt' : i - xs.length < ys.length := by omega
    exact ⟨ys[i - xs.length], List.getElem_mem hlt', by
      rw [List.getElem?_append_right hge, List.getElem?_eq_getElem hlt']⟩

end Position

theorem Sound.realizes (h : d.Sound) {g : Grammar Char} (hg : g.Represents d.declarations) : g.Realizes d := by
  have hsymbols : g.table.Lists (d.nonTerminals ++ d.terminals) := h.symbols_declarations ▸ hg.table
  have hsize : g.augmentedStart = d.nonTerminals.length + d.terminals.length := by
    rw [← List.length_append, ← hsymbols.size_eq]
    rfl
  have hdisjoint : d.nonTerminals.Disjoint d.terminals := List.disjoint_of_nodup_append h.nodup
  refine ⟨hsymbols, fun id => ?_, fun id => ?_, fun c => ?_, ?_, hg.lawful⟩
  · simp only [hg.nonTerminal_iff, nonTerminal_mem_declarations, hsymbols.id?, exists_mem_left_iff hdisjoint]
  · simp only [hg.terminal_iff, terminal_mem_declarations, hsymbols.id?, exists_mem_right_iff hdisjoint, hsize]
  · rw [hg.bodies_eq, productions_declarations, List.filter_map, List.map_map]
    rfl
  · obtain ⟨s, hs, hid⟩ := hg.start
    rw [start?_declarations, Option.some.injEq] at hs
    rwa [hs]

theorem grammar_of_ofDeclarations {g : Grammar Char} (hg : Grammar.ofDeclarations d.declarations = .ok g) :
    d.grammar = .ok g := by
  rw [Description.grammar, hg]

theorem Sound.exists_grammar (h : d.Sound) : ∃ g, d.grammar = .ok g ∧ g.Realizes d := by
  obtain ⟨g, hg⟩ := Grammar.exists_ofDeclarations_iff.2 h.consistent
  exact ⟨g, grammar_of_ofDeclarations hg, h.realizes (Grammar.represents_of_ofDeclarations hg)⟩

end Description

/-! ## Reading a grammar -/

namespace Grammar

open Description LineSource

variable {ς : Type} [LineSource ς] {s : ς} (threshold : Log.Threshold)

/-- what is read does not depend on what is logged -/
theorem result_read (s : ς) : (read threshold s).result = (Description.read s).1 >>= Description.grammar := by
  unfold read
  rcases Description.read s with ⟨_ | d, t⟩ <;> rfl

/-- all that is read depends on is whether the source can be opened, and its lines -/
theorem read_congr {ς' : Type} [LineSource ς'] {t : ς'} (hstart : (LineSource.start s).1 = (LineSource.start t).1)
    (hlines : ∀ n, lineAt (opened s) n = lineAt (opened t) n) :
    (read threshold s).result = (read threshold t).result ∧ (read threshold s).log = (read threshold t).log := by
  have hsame := Description.read_congr hstart hlines
  unfold read
  rcases hs : Description.read s with ⟨result, s'⟩
  rcases ht : Description.read t with ⟨result', t'⟩
  rw [hs, ht] at hsame
  obtain rfl : result = result' := hsame
  cases result <;> exact ⟨rfl, rfl⟩

theorem result_read_of_describes (hopen : (LineSource.start s).1 = .ok ()) {c : Counts} {d : Description}
    (h : Describes (lines? (opened s)) c d) : (read threshold s).result = d.grammar := by
  rw [result_read, (read_eq_ok_iff hopen).2 ⟨c, h⟩]
  rfl

theorem exists_read_iff (hopen : (LineSource.start s).1 = .ok ()) :
    (∃ g, (read threshold s).result = .ok g) ↔ ∃ c d, Describes (lines? (opened s)) c d := by
  constructor
  · rintro ⟨g, hg⟩
    rw [result_read, bind_eq_ok_iff] at hg
    obtain ⟨d, hd, -⟩ := hg
    obtain ⟨c, h⟩ := (read_eq_ok_iff hopen).1 hd
    exact ⟨c, d, h⟩
  · rintro ⟨c, d, h⟩
    obtain ⟨g, hg, -⟩ := h.sound.exists_grammar
    exact ⟨g, (result_read_of_describes threshold hopen h).trans hg⟩

theorem lines?_of_gives {text : String} (h : Gives s (TextSource.ofText text).lines) :
    lines? (opened s) = TextSource.line? text := by
  funext n
  unfold lines? TextSource.line?
  rw [h.lineAt_opened]
  cases (TextSource.ofText text).lines[n]? <;> rfl

/-- **What makes a text a grammar.** A source of the lines of a text is read as a grammar just when the lines describe one;
the grammar is then the one described, and is read from every text that begins with the same lines up to the start symbol. -/
theorem read_text_iff {text : String} (h : Gives s (TextSource.ofText text).lines) :
    ((∃ g, (read threshold s).result = .ok g) ↔ ∃ c d, Describes (TextSource.line? text) c d) ∧
      ∀ c d, Describes (TextSource.line? text) c d → ∃ g, (read threshold s).result = .ok g ∧ g.Realizes d ∧
        ∀ (ς' : Type) [LineSource ς'] (s' : ς') (text' : String) (threshold' : Log.Threshold),
          Gives s' (TextSource.ofText text').lines →
          (∀ n < 4 + c.rules, TextSource.line? text' n = TextSource.line? text n) →
          (read threshold' s').result = .ok g := by
  refine ⟨lines?_of_gives h ▸ exists_read_iff threshold h.opens, fun c d hd => ?_⟩
  obtain ⟨g, hg, hrealizes⟩ := hd.sound.exists_grammar
  refine ⟨g, ?_, hrealizes, fun ς' _ s' text' threshold' h' hsame => ?_⟩
  · rw [← hg]
    exact result_read_of_describes threshold h.opens (lines?_of_gives h ▸ hd)
  · rw [← hg]
    exact result_read_of_describes threshold' h'.opens (lines?_of_gives h' ▸ hd.congr hsame)

/-- two rules of `S` are the same, and what comes after the start symbol is no part of the description -/
def sampleText : String := "1 2 3 counts\nS\nbab\nS -> aSb\n S  ->\nS -> aSb\r\nS\nmore"

def sampleDescription : Description := ⟨['S'], ['b', 'a'], [⟨'S', ['a', 'S', 'b']⟩, ⟨'S', []⟩, ⟨'S', ['a', 'S', 'b']⟩], 'S'⟩

theorem read_sampleText : (Description.read (TextSource.ofText sampleText)).1 = .ok sampleDescription := by cbv

theorem describes_sample : ∃ c, Describes (TextSource.line? sampleText) c sampleDescription := by
  rw [← lines?_of_gives (TextSource.gives_ofText sampleText)]
  exact (read_eq_ok_iff rfl).1 read_sampleText

theorem read_text_sample : Gives (TextSource.ofText sampleText) (TextSource.ofText sampleText).lines ∧
    ∃ g, (read none (TextSource.ofText sampleText)).result = .ok g ∧ g.Realizes sampleDescription := by
  obtain ⟨c, hc⟩ := describes_sample
  obtain ⟨g, hg, hrealizes, -⟩ := (read_text_iff none (TextSource.gives_ofText sampleText)).2 c _ hc
  exact ⟨TextSource.gives_ofText sampleText, g, hg, hrealizes⟩

end Grammar

end CfgMembership
