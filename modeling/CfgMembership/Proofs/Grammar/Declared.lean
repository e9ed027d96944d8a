/-
What declarations generate, by their symbols.

`Declaration.Step` replaces a symbol by the body of a production declared for it, so that numbers play no part, and
`Declaration.Generates` says which words come from the start symbol marked last. `Builder.Records` relates a builder
to the declarations it took in, and `generates_iff` says that a grammar generates the words that its declarations
generate.
-/
import Mathlib.Data.List.Forall2
import Mathlib.Logic.Relation
import CfgMembership.Proofs.Grammar.Lawful

namespace CfgMembership

variable {σ : Type} [BEq σ]

/-! ## Derivation by declarations -/

namespace Declaration

/-- the symbol that a declaration marks as start -/
def marked? : Declaration σ → Option σ
  | .start s => some s
  | _ => none

def production? : Declaration σ → Option (σ × List σ)
  | .production lhs rhs => some (lhs, rhs)
  | _ => none

/-- the start symbol, which is the one marked last -/
def start? (ds : List (Declaration σ)) : Option σ := (ds.filterMap marked?).getLast?

def productions (ds : List (Declaration σ)) : List (σ × List σ) := ds.filterMap production?

omit [BEq σ] in
theorem start?_concat (ds : List (Declaration σ)) (d : Declaration σ) :
    start? (ds ++ [d]) = d.marked?.or (start? ds) := by
  unfold start?
  rw [List.filterMap_append, List.getLast?_append]
  cases hd : d.marked? <;> simp [hd]

omit [BEq σ] in
theorem productions_concat (ds : List (Declaration σ)) (d : Declaration σ) :
    productions (ds ++ [d]) = productions ds ++ d.production?.toList := by
  unfold productions
  rw [List.filterMap_append]
  cases hd : d.production? <;> simp [hd]

omit [BEq σ] in
theorem mem_productions {ds : List (Declaration σ)} {lhs : σ} {rhs : List σ} :
    (lhs, rhs) ∈ productions ds ↔ .production lhs rhs ∈ ds := by
  unfold productions
  rw [List.mem_filterMap]
  constructor
  · rintro ⟨d, hd, hproduction⟩
    cases d <;> simp [production?] at hproduction
    obtain ⟨rfl, rfl⟩ := hproduction
    exact hd
  · intro h
    exact ⟨_, h, rfl⟩

/-- a symbol gives way to the body of a production declared for it -/
inductive Step (ds : List (Declaration σ)) : List σ → List σ → Prop where
  | replace {s lhs : σ} {rhs : List σ} (before after : List σ) (mem : .production lhs rhs ∈ ds) (same : s == lhs) :
    Step ds (before ++ s :: after) (before ++ rhs ++ after)

/-- steps lead from the start symbol marked last to a word -/
def Generates (ds : List (Declaration σ)) (word : List σ) : Prop :=
  ∃ start form, start? ds = some start ∧ Relation.ReflTransGen (Step ds) [start] form ∧ form == word

end Declaration

namespace Grammar

variable [Hashable σ]

/-! ## What a builder took in -/

/-- the same production, by numbers and by symbols -/
def Matches (t : SymbolTable σ) (p : Production) (declared : σ × List σ) : Prop :=
  t.id? declared.1 = some p.lhs ∧ t.Encodes declared.2 p.rhs

namespace Builder

variable {b : Builder σ} {ds : List (Declaration σ)}

/-- a builder holds what was declared -/
structure Records (b : Builder σ) (ds : List (Declaration σ)) : Prop where
  faithful : b.table.Faithful
  start : b.start.map some = (Declaration.start? ds).map b.table.id?
  productions : List.Forall₂ (Matches b.table) b.productions.toList (Declaration.productions ds)

theorem records_empty : (empty : Builder σ).Records [] where
  faithful := SymbolTable.faithful_empty
  start := rfl
  productions := .nil

/-- a table that keeps the numbers records the same -/
theorem Records.withTable (h : b.Records ds) {table : SymbolTable σ} (hkeeps : b.table.Keeps table)
    (hfaithful : table.Faithful) : ({ b with table } : Builder σ).Records ds where
  faithful := hfaithful
  start := by
    have hstart := h.start
    show b.start.map some = (Declaration.start? ds).map table.id?
    cases hs : Declaration.start? ds with
    | none => rwa [hs] at hstart
    | some s =>
      rw [hs] at hstart
      obtain ⟨id, hb, hid⟩ := Option.map_eq_some_iff.1 hstart
      rw [hb, Option.map_some, Option.map_some, hkeeps s id hid.symm]
  productions := h.productions.imp fun _ _ hp => ⟨hkeeps _ _ hp.1, hp.2.of_keeps hkeeps⟩

/-- what a symbol was declared as is not recorded -/
theorem Records.concat (h : b.Records ds) {d : Declaration σ} (hmarked : d.marked? = none)
    (hproduction : d.production? = none) : b.Records (ds ++ [d]) where
  faithful := h.faithful
  start := by
    rw [Declaration.start?_concat, hmarked]
    exact h.start
  productions := by
    rw [Declaration.productions_concat, hproduction, Option.toList_none, List.append_nil]
    exact h.productions

variable [EquivBEq σ] [LawfulHashable σ]

theorem Records.withIntern (h : b.Records ds) (hb : b.Bounded) (s : σ) :
    ({ b with table := (b.table.intern s).2 } : Builder σ).Records ds :=
  h.withTable (SymbolTable.keeps_intern _ s) (h.faithful.intern hb.table s)

theorem Records.declare (h : b.Records ds) (hb : b.Bounded) (d : Declaration σ) :
    (b.declare d).Records (ds ++ [d]) := by
  cases d with
  | terminal s =>
    have hs := (h.withIntern hb s).concat (d := .terminal s) rfl rfl
    exact ⟨hs.faithful, hs.start, hs.productions⟩
  | nonTerminal s =>
    have hs := (h.withIntern hb s).concat (d := .nonTerminal s) rfl rfl
    exact ⟨hs.faithful, hs.start, hs.productions⟩
  | start s =>
    have hs := h.withIntern hb s
    refine ⟨hs.faithful, ?_, ?_⟩
    · rw [Declaration.start?_concat]
      exact congrArg some (SymbolTable.id?_intern_self b.table s).symm
    · rw [Declaration.productions_concat]
      show List.Forall₂ (Matches (b.table.intern s).2) b.productions.toList (Declaration.productions ds ++ [])
      rw [List.append_nil]
      exact hs.productions
  | production lhs rhs =>
    have hlhs := SymbolTable.keeps_intern b.table lhs
    have hrhs := SymbolTable.keeps_internAll (b.table.intern lhs).2 rhs
    have hboth := h.withTable (hlhs.trans hrhs) ((h.faithful.intern hb.table lhs).internAll (hb.table.intern lhs) rhs)
    have hnew : Matches ((b.table.intern lhs).2.internAll rhs).2
        ⟨(b.table.intern lhs).1, ((b.table.intern lhs).2.internAll rhs).1⟩ (lhs, rhs) :=
      ⟨hrhs lhs _ (SymbolTable.id?_intern_self b.table lhs), SymbolTable.encodes_internAll _ rhs⟩
    refine ⟨hboth.faithful, ?_, ?_⟩
    · rw [Declaration.start?_concat]
      exact hboth.start
    · rw [Declaration.productions_concat]
      simp only [Builder.declare, addProduction, Array.toList_push]
      exact List.rel_append hboth.productions (.cons hnew .nil)

theorem Records.declareAll (h : b.Records ds) (hb : b.Bounded) (more : List (Declaration σ)) :
    (b.declareAll more).Records (ds ++ more) := by
  induction more generalizing b ds with
  | nil => rwa [List.append_nil]
  | cons d more ih =>
    have := ih (h.declare hb d) (hb.declare d)
    rwa [List.append_assoc] at this

/-! ## Steps by symbols and by numbers -/

/-- entries of lists that match pairwise have their match -/
theorem exists_of_forall₂ {α β : Type} {R : α → β → Prop} {as : List α} {bs : List β} (h : List.Forall₂ R as bs) :
    (∀ a ∈ as, ∃ b ∈ bs, R a b) ∧ ∀ b ∈ bs, ∃ a ∈ as, R a b := by
  induction h with
  | nil => simp
  | cons hab _ ih =>
    constructor
    · rintro _ (_ | ⟨_, ha⟩)
      · exact ⟨_, List.mem_cons_self, hab⟩
      · obtain ⟨b, hb, hr⟩ := ih.1 _ ha
        exact ⟨b, List.mem_cons_of_mem _ hb, hr⟩
    · rintro _ (_ | ⟨_, hb⟩)
      · exact ⟨_, List.mem_cons_self, hab⟩
      · obtain ⟨a, ha, hr⟩ := ih.2 _ hb
        exact ⟨a, List.mem_cons_of_mem _ ha, hr⟩

variable {start : Nat} {form : List σ} {ids : List Nat}

theorem Records.step (h : b.Records ds) (hb : b.Bounded) {form' : List σ} (hids : b.table.Encodes form ids)
    (hstep : Declaration.Step ds form form') :
    ∃ ids', b.table.Encodes form' ids' ∧ (b.grammar start).Step ids ids' := by
  cases hstep with
  | @replace s lhs rhs before after mem same =>
    obtain ⟨front, id, back, rfl, hbefore, hs, hafter⟩ := hids.split
    obtain ⟨p, hp, hlhs, hrhs⟩ := (exists_of_forall₂ h.productions).2 _ (Declaration.mem_productions.2 mem)
    rw [SymbolTable.id?_congr same, hlhs] at hs
    cases hs
    refine ⟨front ++ p.rhs ++ back, (hbefore.append hrhs).append hafter, .replace front back ?_⟩
    exact (mem_productionsOf hb).2 ⟨mem_allProductions.2 (.inl (Array.mem_def.2 hp)), rfl⟩

omit [EquivBEq σ] [LawfulHashable σ] in
theorem Records.step_symbols (h : b.Records ds) (hb : b.Bounded) {ids' : List Nat} (hids : b.table.Encodes form ids)
    (hstep : (b.grammar start).Step ids ids') :
    ∃ form', b.table.Encodes form' ids' ∧ Declaration.Step ds form form' := by
  cases hstep with
  | @replace lhs p front back mem =>
    obtain ⟨before, s, after, rfl, hbefore, hs, hafter⟩ := hids.split_ids
    obtain ⟨hall, rfl⟩ := (mem_productionsOf hb).1 mem
    rcases mem_allProductions.1 hall with hp | rfl
    · obtain ⟨⟨lhs, rhs⟩, hdeclared, hlhs, hrhs⟩ := (exists_of_forall₂ h.productions).1 _ (Array.mem_def.1 hp)
      refine ⟨before ++ rhs ++ after, (hbefore.append hrhs).append hafter, ?_⟩
      exact .replace before after (Declaration.mem_productions.1 hdeclared) (h.faithful s lhs _ hs hlhs)
    · -- no symbol has the number of the augmented start symbol
      exact absurd (hb.table s _ hs) (Nat.lt_irrefl _)

/-- what is derived by numbers from a form in symbols is what is derived by symbols -/
theorem Records.derives_iff (h : b.Records ds) (hb : b.Bounded) {target : List Nat} (hids : b.table.Encodes form ids) :
    (b.grammar start).Derives ids target ↔
      ∃ form', b.table.Encodes form' target ∧ Relation.ReflTransGen (Declaration.Step ds) form form' := by
  constructor
  · intro hd
    induction hd generalizing form with
    | refl => exact ⟨form, hids, .refl⟩
    | step first _ ih =>
      obtain ⟨second, hsecond, hstep⟩ := h.step_symbols hb hids first
      obtain ⟨form', hform', hrest⟩ := ih hsecond
      exact ⟨form', hform', .head hstep hrest⟩
  · rintro ⟨form', hform', hd⟩
    induction hd using Relation.ReflTransGen.head_induction_on generalizing ids with
    | refl =>
      obtain rfl := hids.unique hform'
      exact .refl ids
    | head first _ ih =>
      obtain ⟨second, hsecond, hstep⟩ := h.step hb hids first
      exact .step hstep (ih hsecond)

end Builder

/-- the symbols of a word of terminals have numbers -/
theorem encodes_of_terminals {g : Grammar σ} {word : List σ} (hw : ∀ s ∈ word, g.classify s = .terminal) :
    g.table.Encodes word (word.filterMap g.table.id?) := by
  refine SymbolTable.encodes_filterMap fun s hs => ?_
  obtain ⟨id, hid, -⟩ := classify_eq_terminal_iff.1 (hw s hs)
  exact ⟨id, hid⟩

/-- **A grammar generates what its declarations generate.** -/
theorem generates_iff [Written σ] [EquivBEq σ] [LawfulHashable σ] {ds : List (Declaration σ)} {g : Grammar σ}
    (h : ofDeclarations ds = .ok g) {word : List σ} :
    g.Generates word ↔ (∀ s ∈ word, g.classify s = .terminal) ∧ Declaration.Generates ds word := by
  obtain ⟨start, hstart, -, rfl⟩ := Builder.build_eq_ok_iff.1 h
  have hb : (Builder.empty.declareAll ds).Bounded := Builder.bounded_empty.declareAll ds
  have hr : (Builder.empty.declareAll ds).Records ds := Builder.records_empty.declareAll Builder.bounded_empty ds
  obtain ⟨s, hs, hid⟩ : ∃ s, Declaration.start? ds = some s ∧
      (Builder.empty.declareAll ds).table.id? s = some start := by
    have := hr.start
    rw [hstart] at this
    exact Option.map_eq_some_iff.1 this.symm
  refine and_congr_right fun hw => ?_
  have hword : (Builder.empty.declareAll ds).table.Encodes word
      (word.filterMap (Builder.empty.declareAll ds).table.id?) := encodes_of_terminals hw
  have hbegin : (Builder.empty.declareAll ds).table.Encodes [s] [start] := by simp [hid]
  refine (hr.derives_iff hb hbegin).trans ?_
  constructor
  · rintro ⟨form, hform, hd⟩
    exact ⟨s, form, hs, hd, hform.beq hr.faithful hword⟩
  · rintro ⟨s', form, hs', hd, hsame⟩
    cases hs.symm.trans hs'
    exact ⟨form, hword.congr hsame, hd⟩

end Grammar

end CfgMembership
