/-
Items can be read back from their text.

The text of an item is the name of its head, an arrow, the names of its body with the dot among them, each followed by a
blank, and its origin. Where no name is empty, has a blank in it or is a dot, and different symbols have different names
(`Grammar.Legible`), the text tells the head, the body, the dot and the origin apart (`Item.text_inj`). Grammars that are read
from a description are like this: a symbol is one character of an alphabet that has neither blank nor dot
(`Description.legible_of_read`), and the prime makes the name of the augmented start symbol longer than all others.

`Chart.text_inj_of_read`: two items in any columns of any charts with the same text are the same, and the lines on a column
say which position it has and which items, in which order.
-/
import Mathlib
import CfgMembership.Proofs.Chart.Reading
import CfgMembership.Proofs.Description.Grammar
import CfgMembership.Recognition

namespace CfgMembership

/-! ## Words and blanks -/

/-- a text that ends where a blank comes -/
def IsWord (text : String) : Prop := text ≠ "" ∧ ' ' ∉ text.toList

/-- words with a blank after each -/
def spaced (ws : List String) : List Char := ws.flatMap fun w => w.toList ++ [' ']

@[simp] theorem spaced_nil : spaced [] = [] := rfl

@[simp] theorem spaced_cons (w : String) (ws : List String) : spaced (w :: ws) = w.toList ++ ' ' :: spaced ws := by
  simp [spaced]

@[simp] theorem spaced_append (ws ws' : List String) : spaced (ws ++ ws') = spaced ws ++ spaced ws' := List.flatMap_append

/-- what comes before the first of some mark, and what comes after it -/
theorem append_cons_inj_of_first {α : Type} {mark : α} {front front' rest rest' : List α} (h : mark ∉ front)
    (h' : mark ∉ front') (heq : front ++ mark :: rest = front' ++ mark :: rest') : front = front' ∧ rest = rest' := by
  induction front generalizing front' with
  | nil =>
    cases front' with
    | nil => exact ⟨rfl, (List.cons.inj heq).2⟩
    | cons x front' => exact absurd (List.mem_cons.2 (.inl (List.cons.inj heq).1)) h'
  | cons x front ih =>
    cases front' with
    | nil => exact absurd (List.mem_cons.2 (.inl (List.cons.inj heq).1.symm)) h
    | cons y front' =>
      obtain ⟨rfl, htail⟩ := List.cons.inj heq
      rw [List.mem_cons, not_or] at h h'
      obtain ⟨rfl, hrest⟩ := ih h.2 h'.2 htail
      exact ⟨rfl, hrest⟩

/-- entries that a function tells apart can be read back from its values -/
theorem map_inj_of_mem {α β : Type} {f : α → β} {xs ys : List α} (h : ∀ x ∈ xs, ∀ y ∈ ys, f x = f y → x = y)
    (heq : xs.map f = ys.map f) : xs = ys := by
  induction xs generalizing ys with
  | nil => simpa using heq
  | cons x xs ih =>
    obtain ⟨y, ys, rfl, hfirst, hrest⟩ := List.map_eq_cons_iff.1 heq.symm
    obtain rfl := h x List.mem_cons_self y List.mem_cons_self hfirst.symm
    rw [ih (fun x hx y hy => h x (List.mem_cons_of_mem _ hx) y (List.mem_cons_of_mem _ hy)) hrest.symm]

/-- words end at the first blank that comes where the next word should begin -/
theorem spaced_inj {ws ws' : List String} {rest rest' : List Char} (h : ∀ w ∈ ws, IsWord w) (h' : ∀ w ∈ ws', IsWord w)
    (heq : spaced ws ++ ' ' :: rest = spaced ws' ++ ' ' :: rest') : ws = ws' ∧ rest = rest' := by
  -- a word is not empty, so it does not begin with a blank
  have hfirst {w : String} {rest rest' : List Char} (hw : IsWord w) : ' ' :: rest ≠ w.toList ++ ' ' :: rest' := fun heq =>
    hw.1 (String.toList_eq_nil_iff.1 (append_cons_inj_of_first List.not_mem_nil hw.2 heq).1.symm)
  induction ws generalizing ws' with
  | nil =>
    cases ws' with
    | nil => exact ⟨rfl, (List.cons.inj heq).2⟩
    | cons w ws' =>
      rw [spaced_cons, List.append_assoc] at heq
      exact absurd heq (hfirst (h' w List.mem_cons_self))
  | cons w ws ih =>
    rw [List.forall_mem_cons] at h
    rw [spaced_cons, List.append_assoc] at heq
    cases ws' with
    | nil => exact absurd heq.symm (hfirst h.1)
    | cons w' ws' =>
      rw [List.forall_mem_cons] at h'
      rw [spaced_cons, List.append_assoc] at heq
      obtain ⟨hw, htail⟩ := append_cons_inj_of_first h.1.2 h'.1.2 heq
      obtain ⟨rfl, hrest⟩ := ih h.2 h'.2 htail
      rw [String.toList_injective hw]
      exact ⟨rfl, hrest⟩

/-! ## Items as words -/

variable {σ : Type} [BEq σ] [Hashable σ] [Written σ] {g : Grammar σ} {it it' : Item}

/-- symbols have names that can be told from one another, from a dot, and from what comes before and after them -/
structure Grammar.Legible (g : Grammar σ) : Prop where
  word : ∀ {id : Nat}, g.kind id ≠ .undefined → IsWord (g.nameOf id)
  ne_dot : ∀ {id : Nat}, g.kind id ≠ .undefined → g.nameOf id ≠ "."
  inj : ∀ {id id' : Nat}, g.kind id ≠ .undefined → g.kind id' ≠ .undefined → g.nameOf id = g.nameOf id' → id = id'

namespace Item

def words (g : Grammar σ) (body : List Nat) (dot : Nat) : List String :=
  (body.take dot).map g.nameOf ++ "." :: (body.drop dot).map g.nameOf

theorem toList_restText (g : Grammar σ) (ids : List Nat) : (bodyText.restText g ids).toList = spaced (ids.map g.nameOf) := by
  induction ids with
  | nil => rfl
  | cons id ids ih => simp [bodyText.restText, ih]

theorem toList_bodyText (g : Grammar σ) {body : List Nat} {dot : Nat} (h : dot ≤ body.length) :
    (bodyText g body dot).toList = spaced (words g body dot) := by
  fun_induction bodyText g body dot with
  | case1 => simp [words]
  | case2 => simp at h
  | case3 id rest => simp [words, toList_restText]
  | case4 id rest dot ih =>
    have hrest := ih (Nat.le_of_succ_le_succ h)
    simp [hrest, words]

/-- all symbols of the item are declared, and the dot is in its body or at the end of it -/
structure Declared (g : Grammar σ) (it : Item) : Prop where
  head : g.kind it.head ≠ .undefined
  body : ∀ id ∈ it.body, g.kind id ≠ .undefined
  dot_le : it.dot ≤ it.body.length

theorem Declared.isWord (hg : g.Legible) (h : it.Declared g) : ∀ w ∈ words g it.body it.dot, IsWord w := by
  intro w hw
  simp only [words, List.mem_append, List.mem_cons, List.mem_map] at hw
  rcases hw with ⟨id, hid, rfl⟩ | rfl | ⟨id, hid, rfl⟩
  · exact hg.word (h.body id (List.mem_of_mem_take hid))
  · exact ⟨by decide, by decide⟩
  · exact hg.word (h.body id (List.mem_of_mem_drop hid))

theorem words_inj (hg : g.Legible) (h : it.Declared g) (h' : it'.Declared g)
    (heq : words g it.body it.dot = words g it'.body it'.dot) : it.body = it'.body ∧ it.dot = it'.dot := by
  have hdot {it : Item} (h : it.Declared g) : "." ∉ (it.body.take it.dot).map g.nameOf := by
    rw [List.mem_map]
    rintro ⟨id, hid, hname⟩
    exact hg.ne_dot (h.body id (List.mem_of_mem_take hid)) hname
  obtain ⟨hbefore, hafter⟩ := append_cons_inj_of_first (hdot h) (hdot h') heq
  have hinj (id : Nat) (hid : id ∈ it.body) (id' : Nat) (hid' : id' ∈ it'.body) : g.nameOf id = g.nameOf id' → id = id' :=
    hg.inj (h.body id hid) (h'.body id' hid')
  have htake : it.body.take it.dot = it'.body.take it'.dot := map_inj_of_mem (fun id hid id' hid' =>
    hinj id (List.mem_of_mem_take hid) id' (List.mem_of_mem_take hid')) hbefore
  have hdrop : it.body.drop it.dot = it'.body.drop it'.dot := map_inj_of_mem (fun id hid id' hid' =>
    hinj id (List.mem_of_mem_drop hid) id' (List.mem_of_mem_drop hid')) hafter
  constructor
  · rw [← List.take_append_drop it.dot it.body, htake, hdrop, List.take_append_drop]
  · have hlength := congrArg List.length htake
    rwa [List.length_take_of_le h.dot_le, List.length_take_of_le h'.dot_le] at hlength

theorem toList_text (h : it.Declared g) : (it.text g).toList =
    (g.nameOf it.head).toList ++ ' ' :: ("-> ".toList ++ (spaced (words g it.body it.dot) ++
      ' ' :: ("(".toList ++ ((toString it.origin).toList ++ ")".toList)))) := by
  simp [text, toList_bodyText g h.dot_le]

/-- **An item can be read back from its text.** -/
theorem text_inj (hg : g.Legible) (h : it.Declared g) (h' : it'.Declared g) (heq : it.text g = it'.text g) : it = it' := by
  have hlist := congrArg String.toList heq
  rw [toList_text h, toList_text h'] at hlist
  obtain ⟨hhead, hlist⟩ := append_cons_inj_of_first (hg.word h.head).2 (hg.word h'.head).2 hlist
  obtain ⟨hwords, hlist⟩ := spaced_inj (h.isWord hg) (h'.isWord hg) (List.append_cancel_left hlist)
  obtain ⟨hbody, hdot⟩ := words_inj hg h h' hwords
  have horigin := List.append_cancel_right (List.append_cancel_left hlist)
  obtain ⟨head, origin, dot, body⟩ := it
  obtain ⟨head', origin', dot', body'⟩ := it'
  obtain rfl : head = head' := hg.inj h.head h'.head (String.toList_injective hhead)
  obtain rfl : origin = origin' := Nat.repr_injective (String.toList_injective horigin)
  obtain rfl : body = body' := hbody
  obtain rfl : dot = dot' := hdot
  rfl

end Item

/-! ## Grammars of descriptions -/

namespace Description

variable {d : Description}

theorem Alphabet.ne_of_legal {which : Alphabet} {c : Char} (h : which.Legal c) : c ≠ ' ' ∧ c ≠ '.' := by
  constructor
  · rintro rfl
    revert h
    cases which <;> decide
  · rintro rfl
    revert h
    cases which <;> decide

theorem ne_of_describes {line? : Nat → Option String} {n : Counts} (h : Describes line? n d) {c : Char}
    (hc : c ∈ d.nonTerminals ++ d.terminals) : c ≠ ' ' ∧ c ≠ '.' := by
  rcases List.mem_append.1 hc with hc | hc
  · obtain ⟨_, -, halphabet⟩ := h.nonTerminals
    exact Alphabet.ne_of_legal (halphabet.legal c hc)
  · obtain ⟨_, -, halphabet⟩ := h.terminals
    exact Alphabet.ne_of_legal (halphabet.legal c hc)

section Names

variable {g : Grammar Char}

/-- the name of a symbol is the symbol, and that of the augmented start symbol the start symbol with a prime -/
theorem toList_nameOf_cases (h : g.Realizes d) {id : Nat} (hid : g.kind id ≠ .undefined) :
    (∃ c, (d.nonTerminals ++ d.terminals)[id]? = some c ∧ (g.nameOf id).toList = [c]) ∨
      id = g.augmentedStart ∧ (g.nameOf id).toList = [d.start, '\''] := by
  have hname {i : Nat} {c : Char} (hc : (d.nonTerminals ++ d.terminals)[i]? = some c) :
      (g.table.nameOf i).toList = [c] := by
    rw [SymbolTable.nameOf, SymbolTable.symbol?, ← Array.getElem?_toList, h.symbols.toList, hc]
    exact String.toList_ofList
  by_cases haugmented : id = g.augmentedStart
  · refine .inr ⟨haugmented, ?_⟩
    rw [Grammar.nameOf, if_pos haugmented, String.toList_append, hname ((h.symbols.id? _ _).1 h.start)]
    rfl
  · have hlt : id < (d.nonTerminals ++ d.terminals).length := by
      rw [← h.symbols.size_eq]
      cases hkind : g.kind id with
      | nonTerminal =>
        have hlt := ((h.nonTerminal_iff id).1 hkind).resolve_right haugmented
        rw [h.symbols.size_eq, List.length_append]
        exact Nat.lt_add_right _ hlt
      | terminal => exact ((h.terminal_iff id).1 hkind).2
      | undefined => exact absurd hkind hid
    refine .inl ⟨_, List.getElem?_eq_getElem hlt, ?_⟩
    rw [Grammar.nameOf, if_neg haugmented, hname (List.getElem?_eq_getElem hlt)]

theorem legible_of_realizes (h : g.Realizes d) (hsound : d.Sound)
    (hblank : ∀ c ∈ d.nonTerminals ++ d.terminals, c ≠ ' ' ∧ c ≠ '.') : g.Legible where
  word {id} hid := by
    rw [IsWord, Ne, ← String.toList_eq_nil_iff]
    rcases toList_nameOf_cases h hid with ⟨c, hc, hname⟩ | ⟨-, hname⟩
    · simpa [hname] using (hblank c (List.mem_of_getElem? hc)).1.symm
    · simpa [hname] using (hblank d.start (List.mem_append_left _ hsound.start)).1.symm
  ne_dot {id} hid := by
    rw [Ne, ← String.toList_inj]
    rcases toList_nameOf_cases h hid with ⟨c, hc, hname⟩ | ⟨-, hname⟩
    · simpa [hname] using (hblank c (List.mem_of_getElem? hc)).2
    · simp [hname]
  inj {id id'} hid hid' heq := by
    rw [← String.toList_inj] at heq
    rcases toList_nameOf_cases h hid with ⟨c, hc, hname⟩ | ⟨rfl, hname⟩
    · rcases toList_nameOf_cases h hid' with ⟨c', hc', hname'⟩ | ⟨rfl, hname'⟩
      · rw [hname, hname', List.cons.injEq] at heq
        obtain ⟨rfl, -⟩ := heq
        exact (List.getElem?_inj (List.getElem?_eq_some_iff.1 hc).1 hsound.nodup).1 (hc.trans hc'.symm)
      · simp [hname, hname'] at heq
    · rcases toList_nameOf_cases h hid' with ⟨c', hc', hname'⟩ | ⟨rfl, hname'⟩
      · simp [hname, hname'] at heq
      · rfl

variable {ς : Type} [LineSource ς] {s : ς} {threshold : Log.Threshold}

/-- a grammar that has been read is made of declarations, and has names that can be told apart -/
theorem legible_of_read (h : (Grammar.read threshold s).result = .ok g) :
    g.Legible ∧ ∃ ds, Grammar.ofDeclarations ds = .ok g := by
  rw [Grammar.result_read, bind_eq_ok_iff] at h
  obtain ⟨d, hd, hg⟩ := h
  obtain ⟨n, hdescribes⟩ := describes_of_read hd
  have hof : Grammar.ofDeclarations d.declarations = .ok g := by
    unfold Description.grammar at hg
    split at hg
    · cases hg
    · rename_i hof
      rw [hof, Except.ok.inj hg]
  have hrealizes := hdescribes.sound.realizes (Grammar.represents_of_ofDeclarations hof)
  exact ⟨legible_of_realizes hrealizes hdescribes.sound fun c hc => ne_of_describes hdescribes hc, _, hof⟩

end Names

end Description

/-! ## The items of a chart -/

namespace Chart

section Items

variable [EquivBEq σ] [LawfulHashable σ] {ds : List (Declaration σ)}

/-- the items of a chart use declared symbols only -/
theorem declared_of_mem (h : Grammar.ofDeclarations ds = .ok g) {input : List Nat} {c : Column}
    (hc : c ∈ (ofInput g input).columns) {it : Item} (hit : it ∈ c.items) : it.Declared g := by
  have hg := Grammar.lawful_of_ofDeclarations h
  obtain ⟨j, hj⟩ := Array.getElem?_of_mem hc
  have hwithin := (allSettled_ofInput hg input j c hj).within it hit
  refine ⟨by simp [hg.kind_lhs hwithin.production], fun id hid => ?_, hwithin.dot_le⟩
  rcases Grammar.kind_rhs_of_ofDeclarations h hwithin.production hid with hkind | hkind <;> simp [hkind]

end Items

/-! ## Lines on columns -/

/-- the lines on a column say which position it has, and which items -/
theorem columnLines_inj (hg : g.Legible) {c c' : Column} {position position' : Nat} (hc : ∀ it ∈ c.items, it.Declared g)
    (hc' : ∀ it ∈ c'.items, it.Declared g)
    (heq : Recognition.columnLines g position c = Recognition.columnLines g position' c') :
    position = position' ∧ c.items = c'.items := by
  obtain ⟨hfirst, hitems⟩ := List.cons.inj heq
  constructor
  · have hdigit (n : Nat) : ':' ∉ (toString n).toList := fun hmem => by
      have := Nat.isDigit_of_mem_toDigits (by decide) (by decide) (Nat.toList_repr ▸ hmem)
      revert this
      decide
    have hcolon : (toString ": ").toList = [':', ' '] := rfl
    have hlist := congrArg String.toList hfirst
    simp only [String.toList_append, List.append_assoc, hcolon, List.cons_append] at hlist
    obtain ⟨hposition, -⟩ := append_cons_inj_of_first (hdigit _) (hdigit _) (List.append_cancel_left hlist)
    exact Nat.repr_injective (String.toList_injective hposition)
  · refine Array.toList_inj.1 (map_inj_of_mem (fun it hit it' hit' htext => ?_) hitems)
    have htext : it.text g = it'.text g := by simpa using htext
    exact Item.text_inj hg (hc it (Array.mem_toList_iff.1 hit)) (hc' it' (Array.mem_toList_iff.1 hit')) htext

/-- **The items of a chart can be read back from their texts.** Of a grammar that has been read, two items in any columns of any
two charts are the same if their texts are: they have the same head, body, dot and origin. So the lines on a column say which
position it has and which items, in the order in which they were added. -/
theorem text_inj_of_read {ς : Type} [LineSource ς] {s : ς} {threshold : Log.Threshold} {g : Grammar Char}
    (h : (Grammar.read threshold s).result = .ok g) (input input' : List Nat) :
    ∀ c ∈ (ofInput g input).columns, ∀ c' ∈ (ofInput g input').columns,
      (∀ it ∈ c.items, ∀ it' ∈ c'.items, it.text g = it'.text g → it = it') ∧
      ∀ position position', Recognition.columnLines g position c = Recognition.columnLines g position' c' →
        position = position' ∧ c.items = c'.items := by
  obtain ⟨hlegible, ds, hds⟩ := Description.legible_of_read h
  intro c hc c' hc'
  have hdeclared (it : Item) (hit : it ∈ c.items) : it.Declared g := declared_of_mem hds hc hit
  have hdeclared' (it : Item) (hit : it ∈ c'.items) : it.Declared g := declared_of_mem hds hc' hit
  exact ⟨fun it hit it' hit' => Item.text_inj hlegible (hdeclared it hit) (hdeclared' it' hit'),
    fun position position' => columnLines_inj hlegible hdeclared hdeclared'⟩

/-- the charts of the empty word and of `ab` in the sample grammar -/
theorem text_inj_of_read_sample : ∃ g, (Grammar.read none (TextSource.ofText Grammar.sampleText)).result = .ok g ∧
    ∀ c ∈ (ofInput g []).columns, ∀ c' ∈ (ofInput g [2, 1]).columns,
      (∀ it ∈ c.items, ∀ it' ∈ c'.items, it.text g = it'.text g → it = it') ∧
      ∀ position position', Recognition.columnLines g position c = Recognition.columnLines g position' c' →
        position = position' ∧ c.items = c'.items := by
  obtain ⟨n, hn⟩ := Grammar.describes_sample
  rw [← Grammar.lines?_of_gives (TextSource.gives_ofText Grammar.sampleText)] at hn
  obtain ⟨g, hg⟩ := (Grammar.exists_read_iff none rfl).2 ⟨n, _, hn⟩
  exact ⟨g, hg, text_inj_of_read hg [] [2, 1]⟩

end Chart

end CfgMembership
