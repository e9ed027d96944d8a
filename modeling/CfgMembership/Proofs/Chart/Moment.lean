/-
Reading an input moment by moment.

A `Moment` holds a column for each position of the input from the start, those that were not reached still empty, the
position of the column at work, and the items that are on their way into it. `next` does one thing: it adds one item, takes one
index off the worklist, seals the column, or goes on to the next one. Where reading would break a rule it gives a `Breach`: an
item added to a sealed column, or a column or an item asked for that is not there.

`Sound` is the invariant of all moments: before the column at work all columns are closed, behind it all are empty, and once
the items on their way are in, the column has what follows from the indices taken off its worklist. `Sound.next` shows that a
moment has no breach and that the next moment is sound, `sound_of_reached` that all moments are.
-/
import CfgMembership.Proofs.Chart.Worklist

namespace CfgMembership

namespace Chart

/-- what reading must not do -/
inductive Breach where
  | sealedColumn
  | outOfRange
  deriving DecidableEq, Repr

/-- all columns, the position of the one at work, and the items on their way into it -/
structure Moment where
  columns : Array Column
  cursor : Nat
  arriving : List Item

variable {σ : Type} [BEq σ] [Hashable σ]

namespace Moment

def first (g : Grammar σ) (input : List Nat) : Moment where
  columns := Array.replicate (input.length + 1) .empty
  cursor := 0
  arriving := (g.productionsOf g.augmentedStart).map (Item.ofProduction · 0)

/-- the moment with the column at work in another state and other items on their way into it -/
def put (m : Moment) (c : Column) (arriving : List Item) : Moment :=
  { m with columns := m.columns.setIfInBounds m.cursor c, arriving }

/-- what follows from an item in the column at work, by all columns as they are -/
def follow (g : Grammar σ) (m : Moment) (it : Item) : Except Breach (List Item) :=
  match it.expected g with
  | .nothing =>
    match m.columns[it.origin]? with
    | none => .error .outOfRange
    | some c => .ok ((c.waitingFor (.nonTerminal it.head)).map Item.advance)
  | .nonTerminal symbol => .ok (Column.predicted g m.cursor it symbol)
  | .terminal => .ok []

/-- the next moment; none when reading has ended, at the last column or at one after the first that nothing came into -/
def next (g : Grammar σ) (input : List Nat) (m : Moment) : Except Breach (Option Moment) :=
  match m.columns[m.cursor]? with
  | none => .error .outOfRange
  | some c =>
    match m.arriving with
    | it :: rest => if c.sealed then .error .sealedColumn else .ok (some (m.put (c.insert g it) rest))
    | [] =>
      if c.sealed then
        .ok (input[m.cursor]?.map fun t => { m with cursor := m.cursor + 1, arriving := scanned c t })
      else if m.cursor ≠ 0 ∧ c.items.isEmpty then .ok none
      else
        match c.worklist.take? with
        | none => .ok (some (m.put c.sealOff []))
        | some (index, worklist) =>
          match c.items[index]? with
          | none => .error .outOfRange
          | some it =>
            let c := { c with worklist }
            ((m.put c []).follow g it).map fun its => some (m.put c its)

def Step (g : Grammar σ) (input : List Nat) (m m' : Moment) : Prop := m.next g input = .ok (some m')

def Leads (g : Grammar σ) (input : List Nat) : Moment → Moment → Prop := Relation.ReflTransGen (Step g input)

def Reached (g : Grammar σ) (input : List Nat) (m : Moment) : Prop := Leads g input (first g input) m

/-! ## One thing at a time -/

/-- the moment of work on a column after `earlier`, with some empty columns behind it -/
def working (earlier : Array Column) (c : Column) (left : Nat) (arriving : List Item) : Moment where
  columns := earlier.push c ++ Array.replicate left .empty
  cursor := earlier.size
  arriving := arriving

variable {g : Grammar σ} {input : List Nat} {earlier : Array Column} {c : Column} {left : Nat} {it : Item} {its : List Item}

theorem first_eq (g : Grammar σ) (input : List Nat) : first g input =
    working #[] .empty input.length ((g.productionsOf g.augmentedStart).map (Item.ofProduction · 0)) := by
  simp only [first, working, Moment.mk.injEq, and_true]
  refine ⟨?_, rfl⟩
  rw [← Array.toList_inj]
  simp [List.replicate_succ]

@[simp] theorem cursor_working : (working earlier c left its).cursor = earlier.size := rfl

@[simp] theorem arriving_working : (working earlier c left its).arriving = its := rfl

@[simp] theorem getElem?_working : (working earlier c left its).columns[earlier.size]? = some c := by
  simp [working, Array.getElem?_append]

@[simp] theorem put_working (c' : Column) (its' : List Item) :
    (working earlier c left its).put c' its' = working earlier c' left its' := by
  simp only [put, working, Moment.mk.injEq, and_true]
  rw [← Array.toList_inj]
  simp

/-- what follows from an item that began in the column or before it is what closing the column finds -/
theorem follow_working (horigin : it.origin ≤ earlier.size) :
    (working earlier c left its).follow g it = .ok (Column.consequences g earlier c it) := by
  unfold follow Column.consequences
  cases it.expected g with
  | nothing =>
    have hcolumn : (working earlier c left its).columns[it.origin]? = some ((earlier[it.origin]?).getD c) := by
      rcases Nat.lt_or_eq_of_le horigin with hlt | heq
      · simp [working, Array.getElem?_append, Array.getElem_push, hlt, Nat.lt_succ_of_lt hlt]
      · rw [heq, getElem?_working]
        simp
    simp only [hcolumn, Column.completed]
  | nonTerminal symbol => rfl
  | terminal => rfl

theorem next_arriving (h : c.sealed = false) (rest : List Item) :
    (working earlier c left (it :: rest)).next g input = .ok (some (working earlier (c.insert g it) left rest)) := by
  simp [next, h]

theorem next_taken (h : c.sealed = false) {index : Nat} {w : Worklist} (htake : c.worklist.take? = some (index, w))
    (hit : c.items[index]? = some it) (horigin : it.origin ≤ earlier.size) :
    (working earlier c left []).next g input = .ok (some
      (working earlier { c with worklist := w } left (Column.consequences g earlier { c with worklist := w } it))) := by
  have hitems : c.items.isEmpty = false := by
    have := (Array.getElem?_eq_some_iff.1 hit).1
    rw [Array.isEmpty_eq_false_iff, ← Array.size_pos_iff]
    omega
  simp [next, h, hitems, htake, hit, follow_working horigin, Except.map]

theorem next_settled (h : c.sealed = false) (hsome : earlier.size = 0 ∨ c.items ≠ #[]) (hdone : c.worklist.take? = none) :
    (working earlier c left []).next g input = .ok (some (working earlier c.sealOff left [])) := by
  have hgo : ¬(earlier.size ≠ 0 ∧ c.items.isEmpty = true) := by
    rw [Array.isEmpty_iff]
    tauto
  simp only [next, cursor_working, getElem?_working, arriving_working, h, Bool.false_eq_true, if_false, hgo, hdone,
    put_working]

theorem next_stuck (h : c.sealed = false) (hlater : earlier.size ≠ 0) (hnone : c.items = #[]) :
    (working earlier c left []).next g input = .ok none := by
  simp [next, h, hlater, hnone]

theorem next_sealed (h : c.sealed = true) {t : Nat} (ht : input[earlier.size]? = some t) :
    (working earlier c (left + 1) []).next g input = .ok (some (working (earlier.push c) .empty left (scanned c t))) := by
  -- the first of the empty columns is the one at work now
  have hmoved : ⟨(working earlier c (left + 1) []).columns, earlier.size + 1, scanned c t⟩ =
      working (earlier.push c) .empty left (scanned c t) := by
    simp only [working, Moment.mk.injEq, and_true, Array.size_push]
    rw [← Array.toList_inj]
    simp [List.replicate_succ]
  simp only [next, cursor_working, getElem?_working, arriving_working, h, if_true, ht, Option.map_some, hmoved]

theorem next_ended (h : c.sealed = true) (hend : input[earlier.size]? = none) :
    (working earlier c left []).next g input = .ok none := by
  simp [next, h, hend]

/-! ## What holds at every moment -/

/-- the column after `earlier` while it is worked on: it takes items, and once those on their way are in, what follows from
the indices taken off its worklist is there -/
structure AtWork (g : Grammar σ) (earlier : Array Column) (c : Column) (its : List Item) : Prop where
  settled : Column.AllSettled g earlier
  isOpen : Column.Open g c
  draining : Column.Draining g earlier (c.insertAll g its)

theorem atWork_empty (hearlier : Column.AllSettled g earlier) (hits : ∀ it ∈ its, it.Within g earlier.size) :
    AtWork g earlier .empty its where
  settled := hearlier
  isOpen := Column.open_empty
  draining := Column.draining_ofList hits

theorem AtWork.insert {rest : List Item} (h : AtWork g earlier c (it :: rest)) : AtWork g earlier (c.insert g it) rest where
  settled := h.settled
  isOpen := h.isOpen.insert it
  draining := h.draining

theorem AtWork.insertAll (h : AtWork g earlier c its) : AtWork g earlier (c.insertAll g its) [] where
  settled := h.settled
  isOpen := h.isOpen.insertAll its
  draining := h.draining

/-- an index taken off the worklist is that of an item, which began here or before -/
theorem AtWork.take (hg : g.Lawful) (h : AtWork g earlier c []) {index : Nat} {w : Worklist}
    (htake : c.worklist.take? = some (index, w)) : ∃ it, c.items[index]? = some it ∧ it.origin ≤ earlier.size ∧
      AtWork g earlier { c with worklist := w } (Column.consequences g earlier { c with worklist := w } it) ∧
      Column.insertAll g { c with worklist := w } (Column.consequences g earlier { c with worklist := w } it) =
        Column.workOff g earlier { c with worklist := w } index := by
  obtain ⟨hopen, it, hit⟩ := h.isOpen.take htake
  have hwork : Column.insertAll g { c with worklist := w } (Column.consequences g earlier { c with worklist := w } it) =
      Column.workOff g earlier { c with worklist := w } index := by
    simp [Column.workOff, hit]
  have hdraining : Column.Draining g earlier c := h.draining
  refine ⟨it, hit, (hdraining.within it (Array.mem_of_getElem? hit)).origin_le, ⟨h.settled, hopen, ?_⟩, hwork⟩
  rw [hwork]
  exact (hdraining.next hg h.settled htake).1

/-- a column whose worklist is empty is closed when it is sealed -/
theorem AtWork.sealOff (h : AtWork g earlier c []) (hdone : c.worklist.take? = none) :
    Column.AllSettled g (earlier.push c.sealOff) := by
  have hdraining : Column.Draining g earlier c := h.draining
  have hsettled := hdraining.settled (Column.take?_eq_none_iff.1 hdone)
  have hcoherent : Column.Coherent g c.sealOff :=
    ⟨hsettled.coherent.nodup, hsettled.coherent.seen, hsettled.coherent.waiting⟩
  exact allSettled_push h.settled ⟨hcoherent, hsettled.within, hsettled.closed⟩

/-- the items that waited for a symbol, past it, are on their way into the column after theirs -/
theorem atWork_scanned (h : Column.AllSettled g (earlier.push c)) (t : Nat) :
    AtWork g (earlier.push c) .empty (scanned c t) := by
  refine atWork_empty h fun it' hit' => ?_
  have hlast : (earlier.push c)[earlier.size]? = some c := Array.getElem?_push_size
  have hcoherent : Column.Coherent g c := (h _ c hlast).coherent
  simp only [scanned, List.mem_map, List.mem_filter, hcoherent.mem_waitingFor, decide_eq_true_eq] at hit'
  obtain ⟨it, ⟨⟨hit, -⟩, hnext⟩, rfl⟩ := hit'
  exact (h.within hlast it hit).advance hnext (by rw [Array.size_push]; exact Nat.le_succ _)

/-- the columns that are closed take no more items, and nothing is left to do in them -/
def Rests (columns : Array Column) : Prop := ∀ c ∈ columns, c.sealed = true ∧ c.worklist = {}

theorem Rests.push (h : Rests earlier) (hsealed : c.sealed = true) (hworklist : c.worklist = {}) :
    Rests (earlier.push c) := by
  intro d hd
  rcases Array.mem_push.1 hd with hd | rfl
  · exact h d hd
  · exact ⟨hsealed, hworklist⟩

/-- the moments of reading: a column is worked on, or it has just been sealed -/
inductive Sound (g : Grammar σ) (input : List Nat) : Moment → Prop where
  | working {earlier : Array Column} {c : Column} {left : Nat} {its : List Item} (rests : Rests earlier)
    (size : earlier.size + left = input.length) (atWork : AtWork g earlier c its) :
    Sound g input (working earlier c left its)
  | closed {earlier : Array Column} {c : Column} {left : Nat} (rests : Rests (earlier.push c))
    (size : earlier.size + left = input.length) (settled : Column.AllSettled g (earlier.push c)) :
    Sound g input (working earlier c left [])

variable {m : Moment}

theorem allSettled_none (g : Grammar σ) : Column.AllSettled g #[] := by
  intro j d hj
  simp at hj

theorem sound_first (hg : g.Lawful) (input : List Nat) : Sound g input (first g input) := by
  rw [first_eq]
  refine .working (by simp [Rests]) (by simp) (atWork_empty (allSettled_none g) fun it hit => ?_)
  obtain ⟨p, hp, rfl⟩ := List.mem_map.1 hit
  exact Item.Within.ofProduction hg hp 0

/-- **What one step keeps.** At a sound moment reading breaks no rule, and the next moment is sound. -/
theorem Sound.next (hg : g.Lawful) (h : Sound g input m) :
    ∃ r, m.next g input = .ok r ∧ ∀ m' ∈ r, Sound g input m' := by
  cases h with
  | @working earlier c left its rests size atWork =>
    cases its with
    | cons it rest =>
      refine ⟨_, next_arriving atWork.isOpen.unsealed rest, fun m' hm' => ?_⟩
      cases hm'
      exact .working rests size atWork.insert
    | nil =>
      by_cases hstuck : earlier.size ≠ 0 ∧ c.items = #[]
      · exact ⟨_, next_stuck atWork.isOpen.unsealed hstuck.1 hstuck.2, by simp⟩
      cases htake : c.worklist.take? with
      | none =>
        refine ⟨_, next_settled atWork.isOpen.unsealed (by tauto) htake, fun m' hm' => ?_⟩
        cases hm'
        exact .closed (rests.push rfl rfl) size (atWork.sealOff htake)
      | some taken =>
        obtain ⟨it, hit, horigin, hwork, -⟩ := atWork.take hg htake
        refine ⟨_, next_taken atWork.isOpen.unsealed htake hit horigin, fun m' hm' => ?_⟩
        cases hm'
        exact .working rests size hwork
  | @closed earlier c left rests size settled =>
    have hsealed : c.sealed = true := (rests c (by simp)).1
    cases ht : input[earlier.size]? with
    | none => exact ⟨_, next_ended hsealed ht, by simp⟩
    | some t =>
      have hlt : earlier.size < input.length := (List.getElem?_eq_some_iff.1 ht).1
      obtain ⟨left, rfl⟩ : ∃ n, left = n + 1 := ⟨left - 1, by omega⟩
      refine ⟨_, next_sealed hsealed ht, fun m' hm' => ?_⟩
      cases hm'
      exact .working rests (by rw [Array.size_push]; omega) (atWork_scanned settled t)

theorem sound_of_reached (hg : g.Lawful) (h : Reached g input m) : Sound g input m := by
  induction h with
  | refl => exact sound_first hg input
  | tail _ hstep ih =>
    obtain ⟨r, hr, hsound⟩ := ih.next hg
    rw [hstep] at hr
    cases hr
    exact hsound _ rfl

end Moment

end Chart

end CfgMembership
