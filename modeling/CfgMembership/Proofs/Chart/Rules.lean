/-
The rules of chart recognition, and the items they lead to.

`RuleClosed g input F`: the family `F` of item sets, one for each position, is closed under the plain rules seed,
scan, predict and complete. `Saturated` asks for less: a symbol that comes to a part of the input need only be passed
by the items that wait for it, in whatever way. Both a family closed under the plain rules and a family that passes
symbols over no input by a shortcut are saturated.

`Saturated.mem_of_valid`: a saturated family holds all valid items. The items before which a production begins are
found along `Grammar.Reaches`, and the dot is moved along `Grammar.Yields`. Valid items are closed under the rules
themselves (`ruleClosed_validItems`), so that they are the least family that is.
-/
import Mathlib.Data.Set.Basic
import CfgMembership.Proofs.Chart.Item

namespace CfgMembership

/-- one set of items for each position -/
abbrev ItemFamily := Nat → Set Item

variable {σ : Type} [BEq σ] [Hashable σ] {g : Grammar σ} {input : List Nat} {F : ItemFamily}

/-- closed under the plain rules: the production of the augmented start symbol begins at the first position; an item
moves past a terminal that comes next in the input; the productions of an awaited non-terminal begin; and an item at
its end moves the items that waited for its head where it began -/
structure RuleClosed (g : Grammar σ) (input : List Nat) (F : ItemFamily) : Prop where
  seed : (⟨g.augmentedStart, 0, 0, [g.start]⟩ : Item) ∈ F 0
  scan : ∀ {i : Nat} {it : Item} {t : Nat}, it ∈ F i → it.next? = some t → g.kind t = .terminal →
    input[i]? = some t → it.advance ∈ F (i + 1)
  predict : ∀ {i : Nat} {it : Item} {s : Nat} {p : Production}, it ∈ F i → it.next? = some s →
    g.kind s = .nonTerminal → p ∈ g.productionsOf s → .ofProduction p i ∈ F i
  complete : ∀ {i : Nat} {it waiting : Item}, it ∈ F i → it.next? = none → waiting ∈ F it.origin →
    waiting.next? = some it.head → waiting.advance ∈ F i

/-- closed under seed, scan and predict, and an item passes the awaited symbol as soon as one of its productions came
to a part of the input and its item at the end is there -/
structure Saturated (g : Grammar σ) (input : List Nat) (F : ItemFamily) : Prop where
  seed : (⟨g.augmentedStart, 0, 0, [g.start]⟩ : Item) ∈ F 0
  scan : ∀ {i : Nat} {it : Item} {t : Nat}, it ∈ F i → it.next? = some t → g.kind t = .terminal →
    input[i]? = some t → it.advance ∈ F (i + 1)
  predict : ∀ {i : Nat} {it : Item} {s : Nat} {p : Production}, it ∈ F i → it.next? = some s →
    p ∈ g.productionsOf s → .ofProduction p i ∈ F i
  pass : ∀ {i : Nat} {it : Item} {s : Nat} {p : Production} {word : List Nat}, it ∈ F i → it.next? = some s →
    p ∈ g.productionsOf s → g.Yields p.rhs word →
    (Item.ofProduction p i).advanceBy p.rhs.length ∈ F (i + word.length) → it.advance ∈ F (i + word.length)

theorem next?_at_end (p : Production) (i : Nat) : ((Item.ofProduction p i).advanceBy p.rhs.length).next? = none := by
  simp [Item.next?, Item.advanceBy, Item.ofProduction]

theorem RuleClosed.saturated (hg : g.Lawful) (hF : RuleClosed g input F) : Saturated g input F where
  seed := hF.seed
  scan := hF.scan
  predict hit hs hp := hF.predict hit hs (hg.kind_lhs hp) hp
  pass hit hs hp _ hend := by
    refine hF.complete hend (next?_at_end _ _) hit ?_
    rw [hs]
    exact congrArg some (hg.lhs_eq hp).symm

/-! ## Moving the dot -/

theorem cons_isPrefix_drop {t i : Nat} {word : List Nat} (h : t :: word <+: input.drop i) :
    input[i]? = some t ∧ word <+: input.drop (i + 1) := by
  obtain ⟨after, hafter⟩ := h
  have hi : input[i]? = some t := by
    rw [← List.head?_drop, ← hafter]
    rfl
  refine ⟨hi, after, ?_⟩
  rw [← List.tail_drop, ← hafter]
  rfl

theorem append_isPrefix_drop {i : Nat} {u v : List Nat} (h : u ++ v <+: input.drop i) :
    u <+: input.drop i ∧ v <+: input.drop (i + u.length) := by
  obtain ⟨after, hafter⟩ := h
  refine ⟨⟨v ++ after, by rw [← hafter, List.append_assoc]⟩, after, ?_⟩
  rw [← List.drop_drop, ← hafter, List.append_assoc, List.drop_left]

/-- an item moves over a form that comes to the next part of the input -/
theorem Saturated.advance (hF : Saturated g input F) {form word : List Nat} (h : g.Yields form word) :
    ∀ {i : Nat} {it : Item} {after : List Nat}, it ∈ F i → it.rest = form ++ after → word <+: input.drop i →
      it.advanceBy form.length ∈ F (i + word.length) := by
  induction h with
  | nil =>
    intro i it after hit _ _
    exact hit
  | @terminal t form word isTerminal _ ih =>
    intro i it after hit hrest hword
    obtain ⟨hnow, hlater⟩ := cons_isPrefix_drop hword
    have hnext : it.next? = some t := by simp [Item.next?_eq_head?, hrest]
    have hbehind : it.advance.rest = form ++ after := by simp [hrest]
    have := ih (hF.scan hit hnext isTerminal hnow) hbehind hlater
    rwa [Item.advance_advanceBy, Nat.add_assoc, Nat.add_comm 1] at this
  | @nonTerminal lhs p form front back mem body _ ihBody ihRest =>
    intro i it after hit hrest hword
    obtain ⟨hfront, hback⟩ := append_isPrefix_drop hword
    have hnext : it.next? = some lhs := by simp [Item.next?_eq_head?, hrest]
    have hbegin := hF.predict hit hnext mem
    have hbody : (Item.ofProduction p i).rest = p.rhs ++ [] := by simp
    have hend := ihBody hbegin hbody hfront
    have hpast := hF.pass hit hnext mem body hend
    have hbehind : it.advance.rest = form ++ after := by simp [hrest]
    have := ihRest hpast hbehind hback
    rwa [Item.advance_advanceBy, Nat.add_assoc, ← List.length_append] at this

/-- some item waits for a symbol where the way from the symbols after a dot reaches it -/
theorem Saturated.reaches (hF : Saturated g input F) {form word : List Nat} {symbol : Nat}
    (h : g.Reaches form word symbol) : ∀ {i : Nat} {it : Item}, it ∈ F i → it.rest = form → word <+: input.drop i →
      ∃ it' ∈ F (i + word.length), it'.next? = some symbol := by
  induction h with
  | @here before after word symbol left =>
    intro i it hit hrest hword
    refine ⟨_, hF.advance left hit hrest hword, ?_⟩
    simp [Item.next?_eq_head?, hrest]
  | @inside before after front back lhs symbol p left mem _ ih =>
    intro i it hit hrest hword
    obtain ⟨hfront, hback⟩ := append_isPrefix_drop hword
    have hmoved := hF.advance left hit hrest hfront
    have hbegin := hF.predict hmoved (s := lhs) (by simp [Item.next?_eq_head?, hrest]) mem
    have := ih hbegin (by simp) hback
    rwa [Nat.add_assoc, ← List.length_append] at this

/-! ## All valid items are found -/

/-- a symbol that the start symbol derives behind a part of the input is awaited after that part -/
theorem Saturated.exists_awaiting (hF : Saturated g input F) (hw : ∀ t ∈ input, g.kind t = .terminal) {i s : Nat}
    (hi : i ≤ input.length) {after : List Nat} (h : g.Derives [g.start] (input.take i ++ s :: after)) :
    ∃ it ∈ F i, it.next? = some s := by
  have way := h.reaches fun t ht => hw t (List.mem_of_mem_take ht)
  have := hF.reaches way hF.seed rfl (List.take_prefix i input)
  simpa [Nat.min_eq_left hi] using this

/-- where a production is reached, it begins -/
theorem Saturated.begins (hg : g.Lawful) (hF : Saturated g input F) (hw : ∀ t ∈ input, g.kind t = .terminal)
    {i : Nat} (hi : i ≤ input.length) {p : Production} (hp : p ∈ g.productionsOf p.lhs) {after : List Nat}
    (h : g.Derives [g.augmentedStart] (input.take i ++ p.lhs :: after)) : .ofProduction p i ∈ F i := by
  rcases hg.derives_augmentedStart_iff.1 h with hself | hstart
  · obtain ⟨htake, hlhs⟩ : input.take i = [] ∧ p.lhs = g.augmentedStart := by
      rcases List.append_eq_cons_iff.1 hself with ⟨htake, hcons⟩ | ⟨m, _, hm⟩
      · exact ⟨htake, (List.cons.inj hcons).1⟩
      · simp at hm
    have hzero : i = 0 := by
      have := congrArg List.length htake
      simpa [Nat.min_eq_left hi] using this
    rw [hlhs, hg.augmented, List.mem_singleton] at hp
    subst hzero hp
    exact hF.seed
  · obtain ⟨it, hit, hnext⟩ := hF.exists_awaiting hw hi hstart
    exact hF.predict hit hnext hp

/-- **A saturated family holds all valid items.** -/
theorem Saturated.mem_of_valid (hg : g.Lawful) (hF : Saturated g input F) (hw : ∀ t ∈ input, g.kind t = .terminal)
    {i : Nat} {it : Item} (h : it.Valid g input i) : it ∈ F i := by
  obtain ⟨after, hreached⟩ := h.reached
  have hbegin : .ofProduction ⟨it.head, it.body⟩ it.origin ∈ F it.origin :=
    hF.begins hg hw (Nat.le_trans h.origin_le h.inside) h.production hreached
  have hyields : g.Yields (it.body.take it.dot) (segment input it.origin i) :=
    h.recognized.yields fun t ht => hw t (List.mem_of_mem_take (List.mem_of_mem_drop ht))
  have hrest : (Item.ofProduction ⟨it.head, it.body⟩ it.origin).rest = it.body.take it.dot ++ it.rest :=
    it.take_append_rest.symm
  have hmoved := hF.advance hyields hbegin hrest (segment_isPrefix input it.origin i)
  rw [length_segment h.inside, Nat.add_sub_cancel' h.origin_le] at hmoved
  simpa [Item.advanceBy, Item.ofProduction, Nat.min_eq_left h.dot_le] using hmoved

/-! ## The least closed family -/

def validItems (g : Grammar σ) (input : List Nat) : ItemFamily := fun i => {it | it.Valid g input i}

/-- validity is closed under the plain rules -/
theorem ruleClosed_validItems (hg : g.Lawful) (input : List Nat) : RuleClosed g input (validItems g input) where
  seed := Item.Valid.seed hg input
  scan hit hnext _ hnow := by
    refine Item.Valid.over hit hnext (Nat.le_succ _) (List.getElem?_eq_some_iff.1 hnow).1 ?_
    rw [segment_succ hnow]
    exact .refl _
  predict hit hnext _ hp := Item.Valid.predict hg hit hnext hp
  complete hit hend hwaiting hnext :=
    Item.Valid.over hwaiting hnext hit.origin_le hit.inside (Item.Valid.derives_head hit hend)

/-- a position after the first holds a valid item just when the input up to there is viable -/
theorem exists_valid_iff_viable (hg : g.Lawful) (hw : ∀ t ∈ input, g.kind t = .terminal) {k : Nat} (hk : 0 < k)
    (hle : k ≤ input.length) :
    (∃ it : Item, it.Valid g input k) ↔ g.Viable (input.take k) := by
  obtain ⟨i, rfl⟩ := Nat.exists_eq_succ_of_ne_zero (Nat.ne_of_gt hk)
  have htake : input.take (i + 1) = input.take i ++ [input[i]] := List.take_succ_eq_append_getElem hle
  constructor
  · rintro ⟨it, hit⟩
    obtain ⟨after, hafter⟩ := hit.sentential
    rcases hg.derives_augmentedStart_iff.1 hafter with hself | hstart
    · -- the augmented start symbol alone is no form that begins with a terminal
      have hmem : input[i] ∈ [g.augmentedStart] := by
        rw [← hself, htake]
        exact List.mem_append_left _ (List.mem_append_right _ List.mem_cons_self)
      have hkind := hw input[i] (List.getElem_mem _)
      rw [List.mem_singleton.1 hmem, hg.kind_augmentedStart] at hkind
      cases hkind
    · exact ⟨_, hstart⟩
  · rintro ⟨after, hafter⟩
    have hsat := (ruleClosed_validItems hg input).saturated hg
    rw [Nat.succ_eq_add_one, htake, List.append_assoc] at hafter
    obtain ⟨it, hit, hnext⟩ := hsat.exists_awaiting hw (Nat.le_of_lt hle) hafter
    exact ⟨it.advance, hsat.scan hit hnext (hw _ (List.getElem_mem _)) (List.getElem?_eq_getElem hle)⟩

end CfgMembership
