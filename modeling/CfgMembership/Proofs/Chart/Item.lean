/-
What an item in a column says about the input.

`Item.Valid g input i it`: the augmented start symbol derives the input up to the origin of the item, then its head,
then anything; and the body up to the dot derives the input from the origin to `i`. Each way in which items follow
from one another keeps this: a production of the awaited symbol may begin (`Valid.predict`), and an item may move past
the awaited symbol to the end of a part of the input that the symbol derives (`Valid.over`).
-/
import CfgMembership.Chart.Item
import CfgMembership.Proofs.Grammar.Lawful

namespace CfgMembership

/-! ## Parts of an input -/

/-- the part of an input between two positions -/
def segment (input : List Nat) (i j : Nat) : List Nat := (input.take j).drop i

@[simp] theorem segment_self (input : List Nat) (i : Nat) : segment input i i = [] := by
  simp [segment]

@[simp] theorem segment_zero (input : List Nat) (j : Nat) : segment input 0 j = input.take j := rfl

theorem take_append_segment (input : List Nat) {i j : Nat} (h : i ≤ j) :
    input.take i ++ segment input i j = input.take j := by
  have := List.take_append_drop i (input.take j)
  rwa [List.take_take, Nat.min_eq_left h] at this

theorem segment_eq_take_drop (input : List Nat) (i j : Nat) : segment input i j = (input.drop i).take (j - i) :=
  List.drop_take

theorem segment_append (input : List Nat) {i j k : Nat} (hij : i ≤ j) (hjk : j ≤ k) :
    segment input i j ++ segment input j k = segment input i k := by
  simp only [segment_eq_take_drop]
  rw [show k - i = (j - i) + (k - j) by omega, List.take_add, List.drop_drop, Nat.add_sub_cancel' hij]

theorem segment_succ {input : List Nat} {i t : Nat} (h : input[i]? = some t) : segment input i (i + 1) = [t] := by
  obtain ⟨hi, rfl⟩ := List.getElem?_eq_some_iff.1 h
  rw [segment_eq_take_drop, Nat.add_sub_cancel_left, List.drop_eq_getElem_cons hi]
  rfl

theorem segment_isPrefix (input : List Nat) (i j : Nat) : segment input i j <+: input.drop i := by
  rw [segment_eq_take_drop]
  exact List.take_prefix _ _

theorem length_segment {input : List Nat} {i j : Nat} (hj : j ≤ input.length) :
    (segment input i j).length = j - i := by
  simp [segment, Nat.min_eq_left hj]

namespace Item

/-! ## The symbols after the dot -/

/-- the symbols of the body from the dot on -/
def rest (it : Item) : List Nat := it.body.drop it.dot

def advanceBy (it : Item) (n : Nat) : Item := { it with dot := it.dot + n }

theorem advance_advanceBy (it : Item) (n : Nat) : it.advance.advanceBy n = it.advanceBy (n + 1) := by
  simp [advance, advanceBy, Nat.add_assoc, Nat.add_comm 1 n]

theorem take_append_rest (it : Item) : it.body.take it.dot ++ it.rest = it.body := List.take_append_drop _ _

@[simp] theorem rest_ofProduction (p : Production) (origin : Nat) : (ofProduction p origin).rest = p.rhs := rfl

@[simp] theorem rest_advanceBy (it : Item) (n : Nat) : (it.advanceBy n).rest = it.rest.drop n := by
  simp [rest, advanceBy, List.drop_drop]

@[simp] theorem rest_advance (it : Item) : it.advance.rest = it.rest.tail := by
  simp [rest, advance, ← List.drop_one, List.drop_drop]

theorem next?_eq_head? (it : Item) : it.next? = it.rest.head? := by
  simp [next?, rest, List.head?_drop]

theorem take_advance {it : Item} {s : Nat} (h : it.next? = some s) :
    it.advance.body.take it.advance.dot = it.body.take it.dot ++ [s] := by
  change it.body[it.dot]? = some s at h
  simp [advance, List.take_add_one, h]

theorem dot_lt_of_next? {it : Item} {s : Nat} (h : it.next? = some s) : it.dot < it.body.length :=
  (List.getElem?_eq_some_iff.1 h).1

/-- with nothing after the dot, the whole body stands before it -/
theorem take_of_next?_eq_none {it : Item} (h : it.next? = none) : it.body.take it.dot = it.body :=
  List.take_of_length_le (List.getElem?_eq_none_iff.1 h)

variable {σ : Type} [BEq σ] [Hashable σ] {g : Grammar σ}

theorem expected_eq_nothing_iff {it : Item} : it.expected g = .nothing ↔ it.next? = none := by
  unfold expected
  split
  · rename_i h
    simp [h]
  · rename_i s h
    split <;> simp [h]

theorem expected_eq_nonTerminal_iff {it : Item} {s : Nat} :
    it.expected g = .nonTerminal s ↔ it.next? = some s ∧ g.kind s = .nonTerminal := by
  unfold expected
  split
  · rename_i h
    simp [h]
  · rename_i t h
    split
    · rename_i hkind
      rw [h]
      constructor
      · rintro ⟨⟩
        exact ⟨rfl, hkind⟩
      · rintro ⟨⟨⟩, -⟩
        rfl
    · rename_i hkind
      rw [h]
      constructor
      · rintro ⟨⟩
      · rintro ⟨⟨⟩, hkind'⟩
        exact absurd hkind' hkind

theorem expected_of_terminal {it : Item} {t : Nat} (h : it.next? = some t) (hkind : g.kind t = .terminal) :
    it.expected g = .terminal := by
  simp [expected, h, hkind]

/-! ## Items of a grammar -/

/-- the item is a production with a dot in its body, begun at position `i` or before -/
structure Within (g : Grammar σ) (i : Nat) (it : Item) : Prop where
  production : ⟨it.head, it.body⟩ ∈ g.productionsOf it.head
  dot_le : it.dot ≤ it.body.length
  origin_le : it.origin ≤ i

theorem Within.ofProduction (hg : g.Lawful) {lhs : Nat} {p : Production} (hp : p ∈ g.productionsOf lhs) (i : Nat) :
    (ofProduction p i).Within g i where
  production := hg.mem_productionsOf_lhs hp
  dot_le := Nat.zero_le _
  origin_le := Nat.le_refl i

theorem Within.advance {i j s : Nat} {it : Item} (h : it.Within g j) (hs : it.next? = some s) (hji : j ≤ i) :
    it.advance.Within g i where
  production := h.production
  dot_le := dot_lt_of_next? hs
  origin_le := Nat.le_trans h.origin_le hji

/-! ## Validity -/

/-- the item belongs to position `i`: its production was reached at its origin, and its body up to the dot derives what
was read from there to `i` -/
structure Valid (g : Grammar σ) (input : List Nat) (i : Nat) (it : Item) : Prop extends it.Within g i where
  inside : i ≤ input.length
  reached : ∃ after, g.Derives [g.augmentedStart] (input.take it.origin ++ it.head :: after)
  recognized : g.Derives (it.body.take it.dot) (segment input it.origin i)

variable {input : List Nat} {i : Nat} {it : Item}

theorem Valid.seed (hg : g.Lawful) (input : List Nat) :
    (⟨g.augmentedStart, 0, 0, [g.start]⟩ : Item).Valid g input 0 where
  toWithin := .ofProduction hg hg.mem_augmented 0
  inside := Nat.zero_le _
  reached := ⟨[], .refl _⟩
  recognized := .refl []

/-- the augmented start symbol derives what was read, followed by what the item still waits for -/
theorem Valid.sentential (h : it.Valid g input i) :
    ∃ after, g.Derives [g.augmentedStart] (input.take i ++ (it.rest ++ after)) := by
  obtain ⟨after, hreached⟩ := h.reached
  have body : g.Step (input.take it.origin ++ it.head :: after) (input.take it.origin ++ it.body ++ after) :=
    .replace _ _ h.production
  have read : g.Derives (input.take it.origin ++ it.body ++ after) (input.take i ++ (it.rest ++ after)) := by
    have := h.recognized.frame (input.take it.origin) (it.rest ++ after)
    rw [take_append_segment input h.origin_le] at this
    rw [← it.take_append_rest]
    simpa only [List.append_assoc] using this
  exact ⟨after, hreached.trans (.step body read)⟩

/-- a production of the symbol after the dot may begin -/
theorem Valid.predict (hg : g.Lawful) (h : it.Valid g input i) {s : Nat} (hs : it.next? = some s) {p : Production}
    (hp : p ∈ g.productionsOf s) : (ofProduction p i).Valid g input i where
  toWithin := .ofProduction hg hp i
  inside := h.inside
  reached := by
    obtain ⟨after, hafter⟩ := h.sentential
    rw [next?_eq_head?] at hs
    obtain ⟨tail, htail⟩ := List.head?_eq_some_iff.1 hs
    rw [htail, List.cons_append] at hafter
    rw [show (ofProduction p i).head = s from hg.lhs_eq hp]
    exact ⟨tail ++ after, hafter⟩
  recognized := by
    rw [show (ofProduction p i).origin = i from rfl, segment_self]
    exact .refl []

/-- the dot may pass the symbol after it to the end of a part of the input that the symbol derives -/
theorem Valid.over {j : Nat} (h : it.Valid g input j) {s : Nat} (hs : it.next? = some s) (hji : j ≤ i)
    (hi : i ≤ input.length) (hd : g.Derives [s] (segment input j i)) : it.advance.Valid g input i where
  toWithin := h.toWithin.advance hs hji
  inside := hi
  reached := h.reached
  recognized := by
    rw [take_advance hs, show it.advance.origin = it.origin from rfl, ← segment_append input h.origin_le hji]
    exact h.recognized.append hd

/-- an item at its end: its head derives the part of the input that it spans -/
theorem Valid.derives_head (h : it.Valid g input i) (hend : it.next? = none) :
    g.Derives [it.head] (segment input it.origin i) := by
  have body := Grammar.Step.replace [] [] h.production
  have read := h.recognized
  rw [take_of_next?_eq_none hend] at read
  simp only [List.nil_append, List.append_nil] at body
  exact .step body read

end Item

end CfgMembership
