/-
What a source gives when it is asked again and again.

`lineAt s n` is the answer to the request with number `n`, counted from 0, and `after s n` the source after `n` requests.
All that a reader learns from a source it learns from these answers. `requests` is a source that was used before, in whatever
way.
-/
import Mathlib.Data.List.OfFn
import CfgMembership.Source.Basic
import CfgMembership.Source.Text

namespace CfgMembership

section Positions

variable {α : Type} {P : Nat → α → Prop}

/-- what holds at each position of a list holds of its first entry, and at the positions after that of the others -/
theorem forall_getElem?_cons {x : α} {xs : List α} : (∀ i a, (x :: xs)[i]? = some a → P i a) ↔
    P 0 x ∧ ∀ i a, xs[i]? = some a → P (i + 1) a := by
  constructor
  · intro h
    exact ⟨h 0 x rfl, fun i a ha => h (i + 1) a ha⟩
  · rintro ⟨hx, hxs⟩ i a ha
    cases i with
    | zero => exact Option.some.inj ha ▸ hx
    | succ i => exact hxs i a ha

/-- entries chosen for the first positions make a list -/
theorem exists_list_iff {n : Nat} : (∃ l : List α, l.length = n ∧ ∀ i a, l[i]? = some a → P i a) ↔
    ∀ i < n, ∃ a, P i a := by
  constructor
  · rintro ⟨l, rfl, h⟩ i hi
    exact ⟨l[i], h i _ (List.getElem?_eq_getElem hi)⟩
  · intro h
    choose f hf using h
    refine ⟨List.ofFn fun i : Fin n => f i i.isLt, List.length_ofFn, fun i a ha => ?_⟩
    obtain ⟨hi, rfl⟩ := List.getElem?_eq_some_iff.1 ha
    rw [List.getElem_ofFn]
    exact hf i _

end Positions

namespace LineSource

variable {ς : Type} [LineSource ς]

def after (s : ς) : Nat → ς
  | 0 => s
  | n + 1 => after (nextLine s).2 n

/-- the answer to the request with a number -/
def lineAt (s : ς) (n : Nat) : Except SourceError String := (nextLine (after s n)).1

def opened (s : ς) : ς := (start s).2

@[simp] theorem after_zero (s : ς) : after s 0 = s := rfl

theorem after_succ (s : ς) (n : Nat) : after s (n + 1) = after (nextLine s).2 n := rfl

theorem after_after (s : ς) (m n : Nat) : after (after s m) n = after s (m + n) := by
  induction m generalizing s with
  | zero => rw [Nat.zero_add, after_zero]
  | succ m ih => rw [after_succ, ih, Nat.add_right_comm, after_succ]

theorem nextLine_eq (s : ς) : nextLine s = (lineAt s 0, after s 1) := rfl

theorem lineAt_after (s : ς) (m n : Nat) : lineAt (after s m) n = lineAt s (m + n) := by
  simp only [lineAt, after_after]

inductive Request where
  | start
  | next
  | finish
  deriving DecidableEq, Repr

def request (s : ς) : Request → ς
  | .start => (start s).2
  | .next => (nextLine s).2
  | .finish => finish s

def requests (s : ς) (history : List Request) : ς := history.foldl request s

theorem requests_cons (s : ς) (r : Request) (history : List Request) :
    requests s (r :: history) = requests (request s r) history := rfl

/-- a source that can be opened gives lines, and then says that it has ended -/
structure Gives (s : ς) (lines : List String) : Prop where
  opens : (start s).1 = .ok ()
  lineAt_opened : ∀ n, lineAt (opened s) n = (lines[n]?).elim (.error .endOfInput) .ok

end LineSource

namespace TextSource

open LineSource

theorem after_eq (lines unread : List String) (n : Nat) :
    after (⟨lines, unread⟩ : TextSource) n = ⟨lines, unread.drop n⟩ := by
  induction n generalizing unread with
  | zero => rfl
  | succ n ih =>
    cases unread with
    | nil => simpa [after_succ, nextLine] using ih []
    | cons line unread => simpa [after_succ, nextLine] using ih unread

/-- a text gives its lines, and then says that it has ended -/
theorem lineAt_eq (lines unread : List String) (n : Nat) :
    lineAt (⟨lines, unread⟩ : TextSource) n = (unread[n]?).elim (.error .endOfInput) .ok := by
  unfold lineAt
  rw [after_eq, ← List.head?_drop]
  cases unread.drop n <;> rfl

/-- the line of a text with a number, counted from 0 -/
def line? (text : String) (n : Nat) : Option String := (ofText text).lines[n]?

theorem gives_ofText (text : String) : Gives (ofText text) (ofText text).lines where
  opens := rfl
  lineAt_opened n := lineAt_eq _ _ n

end TextSource

end CfgMembership
