/-
Counts written in decimal.

`Writes` says which number a word writes: that of its digits, with at most one plus sign before them, if it is below the
limit. `count?_eq_some_iff`: this is the count that is read.
-/
import Mathlib.Data.List.Induction
import Mathlib.Data.Nat.Digits.Defs
import CfgMembership.Text.Count

namespace CfgMembership.Text

def digitValue (c : Char) : Nat := c.toNat - '0'.toNat

/-- a word writes a number below the limit by its decimal digits, the last of which counts ones -/
def Writes (word : List Char) (n : Nat) : Prop :=
  n < countLimit ∧ ∃ digits, (word = digits ∨ word = '+' :: digits) ∧ digits ≠ [] ∧ (∀ c ∈ digits, c.isDigit = true) ∧
    n = Nat.ofDigits 10 (digits.reverse.map digitValue)

variable {digits word : List Char} {n : Nat}

theorem digitsValue_append_singleton (digits : List Char) (c : Char) :
    digitsValue (digits ++ [c]) = 10 * digitsValue digits + digitValue c := by
  simp [digitsValue, digitValue]

/-- the value read from the front on is that of the digits from the last one on -/
theorem digitsValue_eq_ofDigits (digits : List Char) :
    digitsValue digits = Nat.ofDigits 10 (digits.reverse.map digitValue) := by
  induction digits using List.reverseRecOn with
  | nil => rfl
  | append_singleton digits c ih =>
    rw [digitsValue_append_singleton, ih, List.reverse_append, List.reverse_singleton, List.singleton_append,
      List.map_cons, Nat.ofDigits_cons]
    exact Nat.add_comm _ _

theorem digits?_eq_some_iff : digits? digits = some n ↔
    n < countLimit ∧ digits ≠ [] ∧ (∀ c ∈ digits, c.isDigit = true) ∧
      n = Nat.ofDigits 10 (digits.reverse.map digitValue) := by
  rw [← digitsValue_eq_ofDigits]
  unfold digits?
  split
  · rename_i hbad
    simp only [Bool.or_eq_true, List.isEmpty_iff, Bool.not_eq_true', List.all_eq_false] at hbad
    simp only [reduceCtorEq, false_iff, not_and]
    rintro - hne hall
    obtain hnil | ⟨c, hc, hnot⟩ := hbad
    · exact absurd hnil hne
    · exact absurd (hall c hc) hnot
  · rename_i hgood
    simp only [Bool.or_eq_true, List.isEmpty_iff, Bool.not_eq_true', List.all_eq_false, not_or, not_exists, not_and,
      not_not] at hgood
    simp only [Option.ite_none_right_eq_some, Option.some.injEq]
    constructor
    · rintro ⟨hlt, rfl⟩
      exact ⟨hlt, hgood.1, hgood.2, rfl⟩
    · rintro ⟨hlt, -, -, rfl⟩
      exact ⟨hlt, rfl⟩

/-- the count that is read is the number that is written -/
theorem count?_eq_some_iff : count? word = some n ↔ Writes word n := by
  unfold count? Writes
  split
  · rename_i digits
    rw [digits?_eq_some_iff]
    refine and_congr_right fun _ => ⟨fun h => ⟨digits, .inr rfl, h⟩, ?_⟩
    rintro ⟨ds, rfl | hds, hne, hall, hn⟩
    · -- a plus sign is no digit
      exact absurd (hall '+' List.mem_cons_self) (by decide)
    · obtain rfl := List.tail_eq_of_cons_eq hds
      exact ⟨hne, hall, hn⟩
  · rename_i hplus
    rw [digits?_eq_some_iff]
    refine and_congr_right fun _ => ⟨fun h => ⟨word, .inl rfl, h⟩, ?_⟩
    rintro ⟨ds, rfl | hds, h⟩
    · exact h
    · exact absurd hds (hplus ds)

theorem count?_eq_none_iff : count? word = none ↔ ¬∃ n, Writes word n := by
  simp only [Option.eq_none_iff_forall_ne_some, ← count?_eq_some_iff, not_exists]

end CfgMembership.Text
