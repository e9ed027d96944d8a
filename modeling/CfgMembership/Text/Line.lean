/-
Lines. A text or a file is cut after each line feed; a line is a piece without its terminator, which is the line feed and
one carriage return right before it. A last piece without a line feed is a line as it stands.
-/
namespace CfgMembership.Text

variable {α : Type}

/-- the front piece, up to and with the first element that ends one, and the rest -/
def cutAfter (ends : α → Bool) (xs : List α) : List α × List α :=
  match xs.dropWhile (!ends ·) with
  | [] => (xs, [])
  | last :: rest => (xs.takeWhile (!ends ·) ++ [last], rest)

/-- cutting off a piece leaves less -/
theorem length_cutAfter_lt (ends : α → Bool) {xs : List α} (h : xs ≠ []) : (cutAfter ends xs).2.length < xs.length := by
  unfold cutAfter
  split
  · simpa [List.length_pos_iff] using h
  · rename_i last rest hd
    have hle : (xs.dropWhile (!ends ·)).length ≤ xs.length := (List.dropWhile_sublist _).length_le
    rw [hd] at hle
    simp only [List.length_cons] at hle
    show rest.length < xs.length
    omega

/-- all pieces, none of them empty -/
def pieces (ends : α → Bool) (xs : List α) : List (List α) :=
  if _ : xs = [] then []
  else (cutAfter ends xs).1 :: pieces ends (cutAfter ends xs).2
termination_by xs.length
decreasing_by exact length_cutAfter_lt ends ‹_›

/-- a piece of text without its line feed and a carriage return before that -/
def stripTerminator (piece : List Char) : List Char :=
  match piece.reverse with
  | '\n' :: '\r' :: rest => rest.reverse
  | '\n' :: rest => rest.reverse
  | _ => piece

def lines (text : List Char) : List (List Char) :=
  (pieces (· == '\n') text).map stripTerminator

end CfgMembership.Text
