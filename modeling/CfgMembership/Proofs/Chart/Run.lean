/-
From the first moment of reading to the last.

`Column.Consistent` says how the parts of a column agree, in terms of the parts alone: the columns of every sound moment are
consistent (`Sound.consistent`). Moments follow the work on a column (`leads_works`) to its end (`leads_close`) and go through
the rest of the input (`leads_extend`), so that reading moment by moment ends, with the columns of the chart. There is one way
to go on (`step_unique`), and every moment leads to that end.

`reached_consistent` puts that together.
-/
import CfgMembership.Proofs.Chart.Moment

namespace CfgMembership

variable {σ : Type} [BEq σ] [Hashable σ] {g : Grammar σ} {c : Column} {earlier : Array Column} {input : List Nat}

/-! ## Columns whose parts agree -/

/-- no item is in a column twice and the set holds those that are; the index lists each position once, in ascending order and
under what the item there waits for, so that every position is listed under one expectation; and the positions on the worklist
are those of items that do not wait for a terminal -/
structure Column.Consistent (g : Grammar σ) (c : Column) : Prop where
  nodup : c.items.toList.Nodup
  seen : ∀ it, c.seen.contains it = true ↔ it ∈ c.items
  ascending : ∀ e : Expected, (c.waiting[e]?.getD #[]).toList.Pairwise (· < ·)
  listed : ∀ (e : Expected) (n : Nat), n ∈ c.waiting[e]?.getD #[] ↔ ∃ it, c.items[n]? = some it ∧ it.expected g = e
  partitioned : ∀ n < c.items.size, ∃! e : Expected, n ∈ c.waiting[e]?.getD #[]
  pending : ∀ n ∈ c.worklist.pending, ∃ it, c.items[n]? = some it ∧ it.expected g ≠ .terminal

namespace Column

theorem Coherent.listed (h : Coherent g c) (e : Expected) (n : Nat) :
    n ∈ c.waiting[e]?.getD #[] ↔ ∃ it, c.items[n]? = some it ∧ it.expected g = e := by
  rw [← Array.mem_toList_iff, h.waiting e, mem_positions]
  simp only [beq_iff_eq]

theorem Coherent.consistent (h : Coherent g c)
    (hpending : ∀ n ∈ c.worklist.pending, ∃ it, c.items[n]? = some it ∧ it.expected g ≠ .terminal) : Consistent g c where
  nodup := h.nodup
  seen := h.seen
  ascending e := by
    rw [h.waiting e]
    exact pairwise_positions g _ _
  listed := h.listed
  partitioned n hn := by
    have hit : c.items[n]? = some c.items[n] := Array.getElem?_eq_getElem hn
    refine ⟨c.items[n].expected g, (h.listed _ n).2 ⟨_, hit, rfl⟩, fun e he => ?_⟩
    obtain ⟨it, hit', rfl⟩ := (h.listed e n).1 he
    cases hit.symm.trans hit'
    rfl
  pending := hpending

theorem Open.consistent (h : Open g c) : Consistent g c := by
  refine h.toCoherent.consistent fun n hn => ?_
  have hmem : n ∈ positions g c.items (· != .terminal) := h.indices ▸ List.mem_of_mem_drop hn
  simpa only [bne_iff_ne] using mem_positions.1 hmem

/-- a column that is closed has nothing on its worklist -/
theorem Coherent.consistent_of_rests (h : Coherent g c) (hworklist : c.worklist = {}) : Consistent g c := by
  refine h.consistent fun n hn => ?_
  rw [hworklist] at hn
  simp [Worklist.pending] at hn

end Column

namespace Chart.Moment

open Column

variable {m last : Moment} {left : Nat} {its : List Item}

theorem consistent_of_rests (hrests : Rests earlier) (hsettled : AllSettled g earlier) : ∀ d ∈ earlier, Consistent g d :=
  fun d hd => (hsettled.coherent d hd).consistent_of_rests (hrests d hd).2

theorem mem_columns_working {d : Column} (h : d ∈ (working earlier c left its).columns) :
    d ∈ earlier ∨ d = c ∨ d = .empty := by
  simp only [working, Array.mem_append, Array.mem_push, Array.mem_replicate] at h
  tauto

theorem Sound.consistent (h : Sound g input m) : ∀ d ∈ m.columns, Consistent g d := by
  intro d hd
  cases h with
  | working rests size atWork =>
    rcases mem_columns_working hd with hd | rfl | rfl
    · exact consistent_of_rests rests atWork.settled d hd
    · exact atWork.isOpen.consistent
    · exact open_empty.consistent
  | closed rests size settled =>
    rcases mem_columns_working hd with hd | rfl | rfl
    · exact consistent_of_rests rests settled d (Array.mem_push_of_mem _ hd)
    · exact consistent_of_rests rests settled _ Array.mem_push_self
    · exact open_empty.consistent

theorem Sound.size (h : Sound g input m) : m.columns.size = input.length + 1 := by
  cases h with
  | working rests size atWork =>
    simp only [Moment.working, Array.size_append, Array.size_push, Array.size_replicate]
    omega
  | closed rests size settled =>
    simp only [Moment.working, Array.size_append, Array.size_push, Array.size_replicate]
    omega

/-! ## To the end of a column -/

/-- items on their way into a column come into it one after the other -/
theorem leads_insertAll (h : Open g c) :
    Leads g input (working earlier c left its) (working earlier (c.insertAll g its) left []) := by
  induction its generalizing c with
  | nil => exact .refl
  | cons it its ih => exact .head (next_arriving h.unsealed its) (ih (h.insert it))

/-- the moments follow the work on a column -/
theorem leads_works (hg : g.Lawful) (input : List Nat) (left : Nat) {popped : List Nat} {d : Column}
    (hworks : Works g earlier c popped d) (h : AtWork g earlier c []) :
    Leads g input (working earlier c left []) (working earlier d left []) ∧ AtWork g earlier d [] ∧
      d.worklist.take? = none := by
  induction hworks with
  | done empty => exact ⟨.refl, h, empty⟩
  | @step c last index w popped taken rest ih =>
    obtain ⟨it, hit, horigin, hwork, hoff⟩ := h.take hg taken
    have hnext := hwork.insertAll
    rw [hoff] at hnext
    obtain ⟨hleads, hlast⟩ := ih hnext
    refine ⟨.head (next_taken h.isOpen.unsealed taken hit horigin) ?_, hlast⟩
    have hinsert : Leads g input
        (working earlier { c with worklist := w } left (consequences g earlier { c with worklist := w } it))
        (working earlier (workOff g earlier { c with worklist := w } index) left []) := hoff ▸ leads_insertAll hwork.isOpen
    exact hinsert.trans hleads

/-- the moments come to the column that is closed -/
theorem leads_close (hg : g.Lawful) (input : List Nat) (left : Nat) (h : AllSettled g earlier)
    (hits : ∀ it ∈ its, it.Within g earlier.size) (hsome : earlier.size = 0 ∨ its ≠ []) :
    Leads g input (working earlier .empty left its) (working earlier ((ofList g its).close g earlier) left []) := by
  obtain ⟨last, hworks, hclose⟩ := works_close hg h hits
  have hstart := atWork_empty h hits
  obtain ⟨hleads, hlast, hdone⟩ := leads_works hg input left hworks hstart.insertAll
  have hsome' : earlier.size = 0 ∨ last.items ≠ #[] := by
    refine hsome.imp id fun hne hnone => ?_
    obtain ⟨it, hit⟩ := List.exists_mem_of_ne_nil its hne
    have hmem : it ∈ ((ofList g its).close g earlier).items := mem_close_of_mem hit
    rw [hclose] at hmem
    simp [sealOff, hnone] at hmem
  rw [hclose]
  exact (leads_insertAll hstart.isOpen).trans (hleads.tail (next_settled hlast.isOpen.unsealed hsome' hdone))

/-! ## To the end of the input -/

/-- from a column just closed the moments come to the end of the chart -/
theorem leads_extend (hg : g.Lawful) (chart : Chart) {rest : List Nat} (hcolumns : chart.columns = earlier.push c)
    (hsettled : AllSettled g chart.columns) (hsealed : c.sealed = true) (hrest : input.drop earlier.size = rest) :
    ∃ last, Leads g input (working earlier c rest.length []) last ∧ last.next g input = .ok none ∧
      last.columns = (chart.extend g rest).columns := by
  induction rest generalizing chart earlier c with
  | nil =>
    have hend : input[earlier.size]? = none := List.getElem?_eq_none (List.drop_eq_nil_iff.1 hrest)
    refine ⟨_, .refl, next_ended hsealed hend, ?_⟩
    simp [working, Chart.extend, hcolumns]
  | cons t rest ih =>
    have ht : input[earlier.size]? = some t := by
      rw [← List.head?_drop, hrest]
      rfl
    have hrest' : input.drop (earlier.push c).size = rest := by
      rw [Array.size_push, ← List.tail_drop, hrest]
      rfl
    have hlast : chart.last = c := by simp [Chart.last, hcolumns]
    rw [hcolumns] at hsettled
    have hstart : AtWork g (earlier.push c) .empty (scanned c t) := atWork_scanned hsettled t
    by_cases hscanned : scanned c t = []
    · refine ⟨_, .single (next_sealed hsealed ht), ?_, ?_⟩
      · rw [hscanned]
        exact next_stuck rfl (by simp) rfl
      · rw [extend_of_stuck (hlast ▸ hscanned), hcolumns, ← Array.toList_inj]
        simp [working, List.replicate_succ]
    · have hwithin : ∀ it ∈ scanned c t, it.Within g (earlier.push c).size := fun it hit =>
        hstart.draining.within it (mem_ofList.2 hit)
      have hclosed := close_settled hg hsettled _ hwithin
      obtain ⟨last, hleads, hend, hcolumns'⟩ := ih
        { chart with columns := (earlier.push c).push ((ofList g (scanned c t)).close g (earlier.push c)) } rfl
        (allSettled_push hsettled hclosed) rfl hrest'
      refine ⟨last, .head (next_sealed hsealed ht) (.trans ?_ hleads), hend, ?_⟩
      · exact leads_close hg input rest.length hsettled hwithin (.inr hscanned)
      · rw [extend_of_scanned (hlast ▸ hscanned), hcolumns', hlast, hcolumns]

/-- reading comes to an end, with the columns of the chart -/
theorem exists_last (hg : g.Lawful) (input : List Nat) :
    ∃ last, Reached g input last ∧ last.next g input = .ok none ∧ last.columns = (ofInput g input).columns := by
  have hwithin : ∀ it ∈ (g.productionsOf g.augmentedStart).map (Item.ofProduction · 0),
      it.Within g (#[] : Array Column).size := by
    intro it hit
    obtain ⟨p, hp, rfl⟩ := List.mem_map.1 hit
    exact Item.Within.ofProduction hg hp 0
  have hclose := leads_close hg input input.length (allSettled_none g) hwithin (.inl rfl)
  have hsettled := allSettled_push (allSettled_none g) (close_settled hg (allSettled_none g) _ hwithin)
  have hstart : (start g).columns =
      #[].push ((ofList g ((g.productionsOf g.augmentedStart).map (Item.ofProduction · 0))).close g #[]) := rfl
  obtain ⟨last, hleads, hend, hcolumns⟩ := leads_extend hg (start g) hstart hsettled rfl (List.drop_zero)
  refine ⟨last, ?_, hend, hcolumns⟩
  rw [Reached, first_eq]
  exact hclose.trans hleads

/-! ## One way to go on -/

theorem step_unique : Relator.RightUnique (Step g input) := by
  intro m a b ha hb
  have hsame : (.ok (some a) : Except Breach (Option Moment)) = .ok (some b) := ha.symm.trans hb
  simpa using hsame

/-- every moment leads to the end -/
theorem leads_last (hlast : Reached g input last) (hend : last.next g input = .ok none) (h : Reached g input m) :
    Leads g input m last := by
  rcases Relation.ReflTransGen.total_of_right_unique step_unique h hlast with hm | hm
  · exact hm
  · rcases Relation.ReflTransGen.cases_head hm with rfl | ⟨m', hstep, -⟩
    · exact .refl
    · have hsame : (.ok none : Except Breach (Option Moment)) = .ok (some m') := hend.symm.trans hstep
      simp at hsame

/-- how a column of a chart is left: closed, unless reading failed there or before and it is empty -/
theorem column_cases {i : Nat} (hc : (ofInput g input).columns[i]? = some c) :
    (c.sealed = true ∧ c.worklist = {} ∧ ∀ k ≤ i, (ofInput g input).failedAt ≠ some k) ∨
      (c = .empty ∧ ∃ k ≤ i, (ofInput g input).failedAt = some k) := by
  by_cases hnever : ∀ k ≤ i, (ofInput g input).failedAt ≠ some k
  · rw [column_eq_close hnever hc]
    exact .inl ⟨rfl, rfl, hnever⟩
  · push Not at hnever
    obtain ⟨k, hk, hfailed⟩ := hnever
    exact .inr ⟨column_eq_empty hfailed hk hc, k, hk, hfailed⟩

/-- **Every moment of reading.** The columns are as many as there are positions, and the parts of each agree. Nothing is added
to a sealed column, and no column or item is asked for that is not there, so that there is a next moment or reading has ended.
Every moment leads to one last moment, whose columns are those of the chart, the last of them the one that decides. A column is
then sealed with nothing on its worklist, or else reading failed there or before and it is empty. -/
theorem reached_consistent [Written σ] [EquivBEq σ] [LawfulHashable σ] {ds : List (Declaration σ)}
    (h : Grammar.ofDeclarations ds = .ok g) (input : List Nat) :
    (∀ m, Reached g input m → m.columns.size = input.length + 1 ∧ (∀ c ∈ m.columns, c.Consistent g) ∧
      ∃ r, m.next g input = .ok r) ∧
    ∃ last, Reached g input last ∧ last.next g input = .ok none ∧ (∀ m, Reached g input m → Leads g input m last) ∧
      last.columns = (ofInput g input).columns ∧
      last.columns[last.columns.size - 1]? = some (ofInput g input).last ∧
      ∀ i c, last.columns[i]? = some c →
        (c.sealed = true ∧ c.worklist = {} ∧ ∀ k ≤ i, (ofInput g input).failedAt ≠ some k) ∨
        (c = .empty ∧ ∃ k ≤ i, (ofInput g input).failedAt = some k) := by
  have hg := Grammar.lawful_of_ofDeclarations h
  refine ⟨fun m hm => ?_, ?_⟩
  · have hsound := sound_of_reached hg hm
    obtain ⟨r, hr, -⟩ := hsound.next hg
    exact ⟨hsound.size, hsound.consistent, r, hr⟩
  · obtain ⟨last, hlast, hend, hcolumns⟩ := exists_last hg input
    refine ⟨last, hlast, hend, fun m hm => leads_last hlast hend hm, hcolumns, ?_, fun i c hc => ?_⟩
    · rw [hcolumns, size_ofInput, Nat.add_sub_cancel]
      exact getElem?_last (size_ofInput g input)
    · exact column_cases (hcolumns ▸ hc)

/-- the moments of reading `ab`, whose grammar is ambiguous, left recursive and full of symbols that derive the empty word: from
the first, with the production of the augmented start symbol on its way into column 0, to the last -/
theorem reached_consistent_sample : Grammar.ofDeclarations Grammar.sampleDeclarations = .ok Grammar.sample ∧
    Reached Grammar.sample [3, 2] (first Grammar.sample [3, 2]) ∧
    (∃ r, (first Grammar.sample [3, 2]).next Grammar.sample [3, 2] = .ok r) ∧
    ∃ last, Leads Grammar.sample [3, 2] (first Grammar.sample [3, 2]) last ∧ last.next Grammar.sample [3, 2] = .ok none ∧
      last.columns = (ofInput Grammar.sample [3, 2]).columns ∧ last.columns.size = 3 ∧
      ∀ c ∈ last.columns, c.Consistent Grammar.sample := by
  obtain ⟨hmoments, last, hlast, hend, hleads, hcolumns, -⟩ := reached_consistent Grammar.ofDeclarations_sample [3, 2]
  have hfirst : Reached Grammar.sample [3, 2] (first Grammar.sample [3, 2]) := .refl
  obtain ⟨-, -, hnext⟩ := hmoments _ hfirst
  obtain ⟨hsize, hconsistent, -⟩ := hmoments last hlast
  exact ⟨Grammar.ofDeclarations_sample, hfirst, hnext, last, hleads _ hfirst, hend, hcolumns, hsize, hconsistent⟩

end Chart.Moment

end CfgMembership
