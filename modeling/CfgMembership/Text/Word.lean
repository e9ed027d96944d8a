/-
Words of a line: the maximal runs of characters that are not blank.

`takeWord` reads one word off the front of a line, `words` all of them. `wordAt?` does the same for a reader that keeps a
byte offset into the line, as long as the offset is a character boundary of the line.
-/
import CfgMembership.Text.Blank

namespace CfgMembership.Text

/-- the first word of the characters and what follows it; nothing when only blanks are left -/
def takeWord (cs : List Char) : Option (List Char × List Char) :=
  match cs.dropWhile isBlank with
  | [] => none
  | rest => some (rest.takeWhile (!isBlank ·), rest.dropWhile (!isBlank ·))

/-- a word read leaves fewer characters -/
theorem length_lt_of_takeWord {cs word rest : List Char} (h : takeWord cs = some (word, rest)) :
    rest.length < cs.length := by
  unfold takeWord at h
  split at h
  · cases h
  · rename_i hd
    have hne : cs.dropWhile isBlank ≠ [] := fun he => hd he
    obtain ⟨_, rfl⟩ := by simpa using h
    have hle : (cs.dropWhile isBlank).length ≤ cs.length := (List.dropWhile_sublist _).length_le
    obtain ⟨c, tail, hc⟩ := List.exists_cons_of_ne_nil hne
    have hblank : isBlank c = false := by
      have := List.head_dropWhile_not isBlank hne
      simpa [hc] using this
    have hdrop : (cs.dropWhile isBlank).dropWhile (!isBlank ·) = tail.dropWhile (!isBlank ·) := by
      rw [hc, List.dropWhile_cons]
      simp [hblank]
    have htail : (tail.dropWhile (!isBlank ·)).length ≤ tail.length := (List.dropWhile_sublist _).length_le
    rw [hdrop]
    rw [hc] at hle
    simp only [List.length_cons] at hle
    omega

/-- the words of the characters, in order -/
def words (cs : List Char) : List (List Char) :=
  match _ : takeWord cs with
  | none => []
  | some (word, rest) => word :: words rest
termination_by cs.length
decreasing_by exact length_lt_of_takeWord ‹_›

/-! ## Reading at a byte offset -/

/-- how many bytes the characters take -/
def byteLength (cs : List Char) : Nat :=
  cs.foldr (fun c length => c.utf8Size + length) 0

/-- the characters from a byte offset on; nothing when the offset is past the end or inside a character -/
def dropBytes? : List Char → Nat → Option (List Char)
  | cs, 0 => some cs
  | [], _ + 1 => none
  | c :: cs, offset + 1 => if c.utf8Size ≤ offset + 1 then dropBytes? cs (offset + 1 - c.utf8Size) else none

/-- what one reading gives: the word, if one is left, and the offset after it -/
structure WordReading where
  word : Option String
  offset : Nat
  deriving DecidableEq, Repr

/-- reads the next word at or after a byte offset; the offset moves past it, or to the end of the line -/
def wordAt? (line : String) (offset : Nat) : Option WordReading :=
  (dropBytes? line.toList offset).map fun rest =>
    match takeWord rest with
    | none => ⟨none, offset + byteLength rest⟩
    | some (word, _) =>
      ⟨some (String.ofList word), offset + byteLength (rest.takeWhile isBlank) + byteLength word⟩

/-- whether only blanks follow a byte offset -/
def blankFrom? (line : String) (offset : Nat) : Option Bool :=
  (dropBytes? line.toList offset).map fun rest => rest.all isBlank

end CfgMembership.Text
