/-
Reading an input into a chart, column by column.

`Reading g input k chart` is the invariant after `k` symbols: there is a column for each position up to `k`, all are
closed, items that waited for the symbols read were moved past them, every item is valid for the whole input, and no
column is empty. `reading_ofInput` says how reading ends. Either all of the input is read, or there is a first symbol
that no item waits for, and the columns from there on are empty.

Both ways the items of the chart are a saturated family (`Outcome.saturated`) and valid, so that they are the valid
items and no others (`Outcome.family_eq`). Reading fails at the first position that no form derived from the start
symbol reaches (`Outcome.failedAt_eq_some_iff`).
-/
import Mathlib.Order.Bounds.Basic
import CfgMembership.Chart.Basic
import CfgMembership.Proofs.Chart.Closing
import CfgMembership.Proofs.Chart.Rules

namespace CfgMembership.Chart

open Column

variable {σ : Type} [BEq σ] [Hashable σ] {g : Grammar σ} {input : List Nat} {k : Nat} {chart : Chart}

def family (chart : Chart) : ItemFamily := fun i => {it | ∃ c, chart.columns[i]? = some c ∧ it ∈ c.items}

theorem mem_family {i : Nat} {it : Item} : it ∈ chart.family i ↔ ∃ c, chart.columns[i]? = some c ∧ it ∈ c.items :=
  Iff.rfl

/-! ## Closed columns make a saturated family -/

theorem predict_of_allSettled (h : AllSettled g chart.columns) (hg : g.Lawful) {i s : Nat} {it : Item} {p : Production}
    (hit : it ∈ chart.family i) (hs : it.next? = some s) (hp : p ∈ g.productionsOf s) :
    .ofProduction p i ∈ chart.family i := by
  obtain ⟨c, hc, hit⟩ := hit
  have hnext : it.expected g = .nonTerminal s := Item.expected_eq_nonTerminal_iff.2 ⟨hs, hg.kind_lhs hp⟩
  have hmem := (h i c hc).closed it hit _ (.predict hnext hp)
  have hi := (Array.getElem?_eq_some_iff.1 hc).1
  rw [Array.size_extract, Nat.min_eq_left (Nat.le_of_lt hi), Nat.sub_zero] at hmem
  exact ⟨c, hc, hmem⟩

/-- an awaited symbol is passed: over no input at all by the shortcut for symbols that derive the empty word, and over
some input because the item at its end looks into a column that is closed -/
theorem pass_of_allSettled (h : AllSettled g chart.columns) (hg : g.Lawful) {i s : Nat} {it : Item} {p : Production}
    {word : List Nat} (hit : it ∈ chart.family i) (hs : it.next? = some s) (hp : p ∈ g.productionsOf s)
    (hword : g.Yields p.rhs word)
    (hend : (Item.ofProduction p i).advanceBy p.rhs.length ∈ chart.family (i + word.length)) :
    it.advance ∈ chart.family (i + word.length) := by
  obtain ⟨c, hc, hit⟩ := hit
  have hnext : it.expected g = .nonTerminal s := Item.expected_eq_nonTerminal_iff.2 ⟨hs, hg.kind_lhs hp⟩
  cases word with
  | nil =>
    have hempty : g.Derives [s] [] := (Grammar.Yields.nonTerminal hp hword .nil).derives
    exact ⟨c, hc, (h i c hc).closed it hit _ (.skip hnext (hg.nullable.2 hempty))⟩
  | cons t word =>
    obtain ⟨d, hd, hend⟩ := hend
    have hearlier : (chart.columns.extract 0 (i + (t :: word).length))[i]? = some c := by
      have hlt : i < i + (t :: word).length := Nat.lt_add_of_pos_right (Nat.succ_pos _)
      rw [Array.getElem?_extract, if_pos (by have := (Array.getElem?_eq_some_iff.1 hc).1; omega), Nat.zero_add, hc]
    refine ⟨d, hd, (h _ d hd).closed _ hend _ (.complete ?_ ?_ ?_)⟩
    · exact Item.expected_eq_nothing_iff.2 (next?_at_end p i)
    · rw [show ((Item.ofProduction p i).advanceBy p.rhs.length).origin = i from rfl, hearlier]
      exact hit
    · rw [hnext]
      exact congrArg Expected.nonTerminal (hg.lhs_eq hp).symm

/-! ## The first column -/

/-- the invariant after `k` symbols of an input -/
structure Reading (g : Grammar σ) (input : List Nat) (k : Nat) (chart : Chart) : Prop where
  le : k ≤ input.length
  size : chart.columns.size = k + 1
  failedAt : chart.failedAt = none
  settled : AllSettled g chart.columns
  seed : (⟨g.augmentedStart, 0, 0, [g.start]⟩ : Item) ∈ chart.family 0
  scan : ∀ {i : Nat} {it : Item} {t : Nat}, i < k → it ∈ chart.family i → it.next? = some t → g.kind t = .terminal →
    input[i]? = some t → it.advance ∈ chart.family (i + 1)
  valid : ∀ {i : Nat} {it : Item}, it ∈ chart.family i → it.Valid g input i
  nonempty : ∀ i ≤ k, (chart.family i).Nonempty

/-- validity passes to what follows in a column -/
theorem valid_of_follows (hg : g.Lawful) {earlier : Array Column} {i : Nat} (hsize : earlier.size = i)
    (hearlier : ∀ {j : Nat} {d : Column}, earlier[j]? = some d → ∀ it ∈ d.items, it.Valid g input j)
    {c : Column} {it it' : Item}
    (hc : ∀ it ∈ c.items, it.Valid g input i) (hit : it ∈ c.items) (h : Follows g earlier c it it') :
    it'.Valid g input i := by
  cases h with
  | predict next mem =>
    rw [hsize]
    exact (hc it hit).predict hg (Item.expected_eq_nonTerminal_iff.1 next).1 mem
  | skip next nullable =>
    refine (hc it hit).over (Item.expected_eq_nonTerminal_iff.1 next).1 (Nat.le_refl i) (hc it hit).inside ?_
    rw [segment_self]
    exact hg.nullable.1 nullable
  | @complete waiting ended mem next =>
    have hit := hc it hit
    have hwaiting : waiting.Valid g input it.origin := by
      cases horigin : earlier[it.origin]? with
      | some d =>
        rw [horigin] at mem
        exact hearlier horigin waiting mem
      | none =>
        -- no column before this one: the item began here
        have : it.origin = i := Nat.le_antisymm hit.origin_le (hsize ▸ Array.getElem?_eq_none_iff.1 horigin)
        rw [horigin] at mem
        exact this ▸ hc waiting mem
    exact hwaiting.over (Item.expected_eq_nonTerminal_iff.1 next).1 hit.origin_le hit.inside
      (hit.derives_head (Item.expected_eq_nothing_iff.1 ended))

theorem start_eq (hg : g.Lawful) :
    start g = { columns := #[(ofList g [⟨g.augmentedStart, 0, 0, [g.start]⟩]).close g #[]] } := by
  simp [start, hg.augmented, Item.ofProduction]

theorem family_singleton {c : Column} {it : Item} {i : Nat} :
    it ∈ Chart.family { columns := #[c] } i ↔ i = 0 ∧ it ∈ c.items := by
  cases i <;> simp [family]

theorem reading_start (hg : g.Lawful) (input : List Nat) : Reading g input 0 (start g) := by
  have hnone : AllSettled g #[] := by
    intro j d hj
    simp at hj
  have hseed : (⟨g.augmentedStart, 0, 0, [g.start]⟩ : Item) ∈
      ((ofList g [⟨g.augmentedStart, 0, 0, [g.start]⟩]).close g #[]).items := mem_close_of_mem List.mem_cons_self
  rw [start_eq hg]
  exact {
    le := Nat.zero_le _
    size := rfl
    failedAt := rfl
    settled := by
      intro j d hj
      obtain ⟨rfl, hd⟩ : j = 0 ∧ (ofList g [⟨g.augmentedStart, 0, 0, [g.start]⟩]).close g #[] = d := by
        cases j with
        | zero => exact ⟨rfl, by simpa using hj⟩
        | succ j => simp at hj
      subst hd
      exact close_settled hg hnone _ fun it hit => List.mem_singleton.1 hit ▸ .ofProduction hg hg.mem_augmented 0
    seed := family_singleton.2 ⟨rfl, hseed⟩
    scan := fun hi => absurd hi (Nat.not_lt_zero _)
    valid := by
      intro i it hit
      obtain ⟨rfl, hmem⟩ := family_singleton.1 hit
      refine close_forall hnone (fun it hit => ?_) (fun c it it' hc hit h => ?_) it hmem
      · exact List.mem_singleton.1 hit ▸ Item.Valid.seed hg input
      · exact valid_of_follows hg rfl (fun hj => by simp at hj) hc hit h
    nonempty := by
      intro i hi
      obtain rfl := Nat.le_zero.1 hi
      exact ⟨_, family_singleton.2 ⟨rfl, hseed⟩⟩ }

/-! ## One more column -/

/-- the chart with one more column -/
theorem family_push {c : Column} {it : Item} {i : Nat} :
    it ∈ Chart.family { chart with columns := chart.columns.push c } i ↔
      it ∈ chart.family i ∨ (i = chart.columns.size ∧ it ∈ c.items) := by
  simp only [mem_family, Array.getElem?_push]
  by_cases hi : i = chart.columns.size
  · subst hi
    simp
  · simp [hi]

theorem family_eq_empty {i : Nat} (hi : chart.columns.size ≤ i) : chart.family i = ∅ := by
  simp [family, Array.getElem?_eq_none_iff.2 hi]

theorem allSettled_push {columns : Array Column} {c : Column} (h : AllSettled g columns) (hc : Settled g columns c) :
    AllSettled g (columns.push c) := by
  intro j d hj
  rw [Array.getElem?_push] at hj
  split at hj
  · rename_i hsize
    cases hj
    simpa [hsize] using hc
  · have hlt := (Array.getElem?_eq_some_iff.1 hj).1
    have hextract : (columns.push c).extract 0 j = columns.extract 0 j := by
      simp [Nat.le_of_lt hlt]
    rw [hextract]
    exact h j d hj

/-- the items that waited for a symbol are moved past it, and no others -/
theorem mem_scanned_iff {c : Column} (hc : Coherent g c) {t : Nat} (ht : g.kind t = .terminal) {it' : Item} :
    it' ∈ scanned c t ↔ ∃ it ∈ c.items, it.next? = some t ∧ it.advance = it' := by
  simp only [scanned, List.mem_map, List.mem_filter, hc.mem_waitingFor, decide_eq_true_eq]
  constructor
  · rintro ⟨it, ⟨⟨hit, -⟩, hnext⟩, rfl⟩
    exact ⟨it, hit, hnext, rfl⟩
  · rintro ⟨it, hit, hnext, rfl⟩
    exact ⟨it, ⟨⟨hit, Item.expected_of_terminal hnext ht⟩, hnext⟩, rfl⟩

theorem getElem?_last (h : chart.columns.size = k + 1) : chart.columns[k]? = some chart.last := by
  simp [Chart.last, Array.back?_eq_getElem?, h]

theorem Reading.last (h : Reading g input k chart) : chart.columns[k]? = some chart.last := getElem?_last h.size

/-- reading a symbol that some item waits for -/
theorem Reading.push (hg : g.Lawful) (h : Reading g input k chart) {t : Nat} (ht : input[k]? = some t)
    (hterminal : g.kind t = .terminal) (hscanned : scanned chart.last t ≠ []) :
    Reading g input (k + 1)
      { chart with columns := chart.columns.push ((ofList g (scanned chart.last t)).close g chart.columns) } := by
  have hlast := h.last
  have hmem {it'} : it' ∈ scanned chart.last t ↔ ∃ it ∈ chart.last.items, it.next? = some t ∧ it.advance = it' :=
    mem_scanned_iff (h.settled k _ hlast).coherent hterminal
  have hk : k < input.length := (List.getElem?_eq_some_iff.1 ht).1
  have hsettled : Settled g chart.columns ((ofList g (scanned chart.last t)).close g chart.columns) := by
    refine close_settled hg h.settled _ fun it' hit' => ?_
    obtain ⟨it, hit, hnext, rfl⟩ := hmem.1 hit'
    exact (h.valid ⟨_, hlast, hit⟩).toWithin.advance hnext (by rw [h.size]; exact Nat.le_succ k)
  exact {
    le := hk
    size := by simp [h.size]
    failedAt := h.failedAt
    settled := allSettled_push h.settled hsettled
    seed := family_push.2 (.inl h.seed)
    scan := by
      intro i it t' hi hit hnext hkind hinput
      rcases family_push.1 hit with hit | ⟨hsize, -⟩
      · rcases Nat.lt_succ_iff_lt_or_eq.1 hi with hi | rfl
        · exact family_push.2 (.inl (h.scan hi hit hnext hkind hinput))
        · obtain rfl : t = t' := Option.some.inj (ht.symm.trans hinput)
          obtain ⟨c, hc, hit⟩ := hit
          obtain rfl : chart.last = c := Option.some.inj (hlast.symm.trans hc)
          exact family_push.2 (.inr ⟨h.size.symm, mem_close_of_mem (hmem.2 ⟨it, hit, hnext, rfl⟩)⟩)
      · have := h.size
        omega
    valid := by
      intro i it hit
      rcases family_push.1 hit with hold | ⟨hsize, hnew⟩
      · exact h.valid hold
      · obtain rfl : i = k + 1 := hsize.trans h.size
        refine close_forall h.settled (fun it' hit' => ?_) (fun c it it' hc hit hf => ?_) it hnew
        · obtain ⟨it, hit, hnext, rfl⟩ := hmem.1 hit'
          refine (h.valid ⟨_, hlast, hit⟩).over hnext (Nat.le_succ k) hk ?_
          rw [segment_succ ht]
          exact .refl _
        · exact valid_of_follows hg h.size (fun hj it hit => h.valid ⟨_, hj, hit⟩) hc hit hf
    nonempty := by
      intro i hi
      rcases Nat.lt_or_eq_of_le hi with hi | rfl
      · obtain ⟨it, hit⟩ := h.nonempty i (Nat.le_of_lt_succ hi)
        exact ⟨it, family_push.2 (.inl hit)⟩
      · obtain ⟨it, hit⟩ := List.exists_mem_of_ne_nil _ hscanned
        exact ⟨it, family_push.2 (.inr ⟨h.size.symm, mem_close_of_mem hit⟩)⟩ }

/-! ## The end -/

/-- how reading ends: with all of the input read, or at the first symbol that no item waits for -/
inductive Outcome (g : Grammar σ) (input : List Nat) : Chart → Prop where
  | read {chart : Chart} (reading : Reading g input input.length chart) : Outcome g input chart
  | failed {chart : Chart} {k t : Nat} (reading : Reading g input k chart) (symbol : input[k]? = some t)
    (terminal : g.kind t = .terminal) (stuck : scanned chart.last t = []) :
    Outcome g input
      { columns := chart.columns ++ Array.replicate (input.length - k) Column.empty
        failedAt := some (k + 1) }

/-- a symbol that no item waits for ends the reading -/
theorem extend_of_stuck {t : Nat} (h : scanned chart.last t = []) (rest : List Nat) :
    chart.extend g (t :: rest) =
      { columns := chart.columns ++ Array.replicate (rest.length + 1) Column.empty
        failedAt := some chart.columns.size } := by
  simp [Chart.extend, h]

/-- a symbol that some item waits for makes one more column -/
theorem extend_of_scanned {t : Nat} (h : scanned chart.last t ≠ []) (rest : List Nat) :
    chart.extend g (t :: rest) =
      Chart.extend g { chart with
        columns := chart.columns.push ((ofList g (scanned chart.last t)).close g chart.columns) } rest := by
  rw [Chart.extend]
  split
  · contradiction
  · rfl

theorem Reading.extend (hg : g.Lawful) (hw : ∀ t ∈ input, g.kind t = .terminal) {rest : List Nat}
    (h : Reading g input k chart) (hrest : input.drop k = rest) : Outcome g input (chart.extend g rest) := by
  induction rest generalizing k chart with
  | nil =>
    have hk : k = input.length := Nat.le_antisymm h.le (List.drop_eq_nil_iff.1 hrest)
    subst hk
    exact .read h
  | cons t rest ih =>
    have ht : input[k]? = some t := by
      rw [← List.head?_drop, hrest]
      rfl
    have hk : k < input.length := (List.getElem?_eq_some_iff.1 ht).1
    have hterminal := hw t (List.mem_of_getElem? ht)
    by_cases hscanned : scanned chart.last t = []
    · have hlength : rest.length + 1 = input.length - k := by
        rw [← List.length_drop, hrest, List.length_cons]
      rw [extend_of_stuck hscanned, hlength, h.size]
      exact .failed h ht hterminal hscanned
    · rw [extend_of_scanned hscanned]
      refine ih (h.push hg ht hterminal hscanned) ?_
      rw [← List.tail_drop, hrest]
      rfl

/-- **How reading an input ends.** -/
theorem reading_ofInput (hg : g.Lawful) (hw : ∀ t ∈ input, g.kind t = .terminal) : Outcome g input (ofInput g input) :=
  (reading_start hg input).extend hg hw rfl

/-! ## The whole chart -/

/-- the empty columns after a failure hold nothing -/
theorem family_append_replicate {n : Nat} {position : Option Nat} {i : Nat} :
    Chart.family { columns := chart.columns ++ Array.replicate n Column.empty, failedAt := position } i =
      chart.family i := by
  ext it
  simp only [mem_family, Array.getElem?_append]
  split
  · exact Iff.rfl
  · rename_i hi
    rw [Array.getElem?_eq_none_iff.2 (Nat.le_of_not_lt hi)]
    simp [Array.getElem?_replicate, empty]

theorem settled_empty (columns : Array Column) : Settled g columns Column.empty where
  coherent := coherent_empty
  within := by simp [empty]
  closed := by simp [empty]

theorem allSettled_append_replicate {columns : Array Column} (h : AllSettled g columns) (n : Nat) :
    AllSettled g (columns ++ Array.replicate n Column.empty) := by
  induction n with
  | zero => simpa using h
  | succ n ih =>
    rw [Array.replicate_succ, Array.append_push]
    exact allSettled_push ih (settled_empty _)

/-- the last column agrees with itself, and its items are productions with a dot -/
theorem settled_last (h : AllSettled g chart.columns) : Coherent g chart.last ∧
    ∀ it ∈ chart.last.items, it.Within g chart.columns.size := by
  cases hlast : chart.columns.back? with
  | none =>
    have hempty : chart.last = .empty := by rw [last, hlast]; rfl
    rw [hempty]
    exact ⟨coherent_empty, by simp [empty]⟩
  | some c =>
    have hc : chart.last = c := by rw [last, hlast]; rfl
    rw [Array.back?] at hlast
    have hsettled := h _ c hlast
    rw [hc]
    refine ⟨hsettled.coherent, fun it hit => ?_⟩
    obtain ⟨hproduction, hdot, horigin⟩ := hsettled.within it hit
    exact ⟨hproduction, hdot, Nat.le_trans horigin (by rw [Array.size_extract]; omega)⟩

/-- reading on closes each column after those before it, whatever the symbols are -/
theorem allSettled_extend (hg : g.Lawful) (h : AllSettled g chart.columns) (rest : List Nat) :
    AllSettled g (chart.extend g rest).columns := by
  induction rest generalizing chart with
  | nil => exact h
  | cons t rest ih =>
    by_cases hscanned : scanned chart.last t = []
    · rw [extend_of_stuck hscanned]
      exact allSettled_append_replicate h _
    · rw [extend_of_scanned hscanned]
      refine ih (allSettled_push h (close_settled hg h _ fun it hit => ?_))
      obtain ⟨hcoherent, hwithin⟩ := settled_last h
      simp only [scanned, List.mem_map, List.mem_filter, hcoherent.mem_waitingFor, decide_eq_true_eq] at hit
      obtain ⟨it, ⟨⟨hit, -⟩, hnext⟩, rfl⟩ := hit
      exact (hwithin it hit).advance hnext (Nat.le_refl _)

theorem allSettled_ofInput (hg : g.Lawful) (input : List Nat) : AllSettled g (ofInput g input).columns :=
  allSettled_extend hg (reading_start hg []).settled input

theorem Outcome.size (h : Outcome g input chart) : chart.columns.size = input.length + 1 := by
  cases h with
  | read reading => exact reading.size
  | failed reading =>
    have := reading.le
    simp only [Array.size_append, Array.size_replicate, reading.size]
    omega

theorem Outcome.settled (h : Outcome g input chart) : AllSettled g chart.columns := by
  cases h with
  | read reading => exact reading.settled
  | failed reading => exact allSettled_append_replicate reading.settled _

theorem Outcome.seed (h : Outcome g input chart) :
    (⟨g.augmentedStart, 0, 0, [g.start]⟩ : Item) ∈ chart.family 0 := by
  cases h with
  | read reading => exact reading.seed
  | failed reading =>
    rw [family_append_replicate]
    exact reading.seed

theorem Outcome.valid (h : Outcome g input chart) {i : Nat} {it : Item} (hit : it ∈ chart.family i) :
    it.Valid g input i := by
  cases h with
  | read reading => exact reading.valid hit
  | failed reading =>
    rw [family_append_replicate] at hit
    exact reading.valid hit

theorem Outcome.scan (h : Outcome g input chart) {i t : Nat} {it : Item} (hit : it ∈ chart.family i)
    (hnext : it.next? = some t) (hkind : g.kind t = .terminal) (hinput : input[i]? = some t) :
    it.advance ∈ chart.family (i + 1) := by
  cases h with
  | read reading => exact reading.scan (List.getElem?_eq_some_iff.1 hinput).1 hit hnext hkind hinput
  | @failed chart k t' reading symbol terminal stuck =>
    rw [family_append_replicate] at hit ⊢
    rcases Nat.lt_trichotomy i k with hi | rfl | hi
    · exact reading.scan hi hit hnext hkind hinput
    · -- nothing waits for this symbol
      obtain rfl : t' = t := Option.some.inj (symbol.symm.trans hinput)
      obtain ⟨c, hc, hit⟩ := hit
      obtain rfl : chart.last = c := Option.some.inj (reading.last.symm.trans hc)
      have := (mem_scanned_iff (reading.settled i _ hc).coherent terminal).2 ⟨it, hit, hnext, rfl⟩
      simp [stuck] at this
    · rw [family_eq_empty (by rw [reading.size]; exact hi)] at hit
      exact absurd hit (Set.notMem_empty it)

theorem Outcome.saturated (hg : g.Lawful) (h : Outcome g input chart) : Saturated g input chart.family where
  seed := h.seed
  scan := h.scan
  predict := predict_of_allSettled h.settled hg
  pass := pass_of_allSettled h.settled hg

/-- the chart holds the valid items, each at its position -/
theorem Outcome.family_eq (hg : g.Lawful) (hw : ∀ t ∈ input, g.kind t = .terminal) (h : Outcome g input chart) :
    chart.family = validItems g input := by
  funext i
  ext it
  exact ⟨h.valid, (h.saturated hg).mem_of_valid hg hw⟩

/-! ## Where reading failed -/

theorem Outcome.nonempty_iff (hg : g.Lawful) (hw : ∀ t ∈ input, g.kind t = .terminal) (h : Outcome g input chart)
    (hk : 0 < k) (hle : k ≤ input.length) : (chart.family k).Nonempty ↔ g.Viable (input.take k) := by
  rw [h.family_eq hg hw]
  exact exists_valid_iff_viable hg hw hk hle

/-- reading fails at the first position that the input is not viable up to -/
theorem Outcome.failedAt_eq_some_iff (hg : g.Lawful) (hw : ∀ t ∈ input, g.kind t = .terminal)
    (h : Outcome g input chart) :
    chart.failedAt = some k ↔ IsLeast {k | 1 ≤ k ∧ k ≤ input.length ∧ ¬g.Viable (input.take k)} k := by
  have hviable := fun k => h.nonempty_iff (k := k) hg hw
  cases h with
  | read reading =>
    rw [reading.failedAt]
    refine ⟨nofun, fun hleast => ?_⟩
    obtain ⟨⟨hk, hle, hnot⟩, -⟩ := hleast
    exact absurd ((hviable k hk hle).1 (reading.nonempty k hle)) hnot
  | @failed chart j _ reading symbol =>
    simp only [family_append_replicate] at hviable
    have hj : j + 1 ≤ input.length := (List.getElem?_eq_some_iff.1 symbol).1
    have hfailed : ¬g.Viable (input.take (j + 1)) := by
      rw [← hviable (j + 1) (Nat.succ_pos j) hj, family_eq_empty (Nat.le_of_eq reading.size)]
      exact Set.not_nonempty_empty
    have hleast : IsLeast {k | 1 ≤ k ∧ k ≤ input.length ∧ ¬g.Viable (input.take k)} (j + 1) := by
      refine ⟨⟨Nat.succ_pos j, hj, hfailed⟩, fun k hk => ?_⟩
      obtain ⟨hpos, hle, hnot⟩ := hk
      by_contra hlt
      exact hnot ((hviable k hpos hle).1 (reading.nonempty k (Nat.le_of_lt_succ (Nat.lt_of_not_le hlt))))
    constructor
    · rintro ⟨⟩
      exact hleast
    · intro hk
      exact congrArg some (hleast.unique hk)

end CfgMembership.Chart
