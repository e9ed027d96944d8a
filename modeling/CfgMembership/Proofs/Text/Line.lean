/-
Lines of a text, and of the bytes that encode it.

`Cut` says where a sequence is cut: after each element that ends a piece, and at its end if something is left over. A
sequence can be cut in one way only, and `pieces` is that way (`cut_iff`). `Strips` says what a piece is without its line
feed and the carriage return before that. A text has the lines that are its pieces so stripped, and no others
(`hasLines_iff`).

A line feed is the only character whose encoding has the byte 10 in it (`mem_utf8EncodeChar_iff`). So it does not matter
whether a text is cut and its pieces are encoded, or the encoding is cut (`pieces_encode`).
-/
import Mathlib.Data.List.Forall2
import Mathlib.Data.List.TakeWhile
import CfgMembership.Text.Line

namespace CfgMembership.Text

/-! ## Cutting -/

section Cut

variable {α : Type} {ends : α → Bool} {front rest xs : List α} {last : α} {ps : List (List α)}

/-- a sequence and the pieces it is cut into -/
inductive Cut (ends : α → Bool) : List (List α) → List α → Prop where
  | nil : Cut ends [] []
  | unended {piece : List α} (hne : piece ≠ []) (hpiece : ∀ x ∈ piece, ends x = false) : Cut ends [piece] piece
  | ended {front : List α} {last : α} {ps : List (List α)} {rest : List α} (hfront : ∀ x ∈ front, ends x = false)
    (hlast : ends last = true) (hrest : Cut ends ps rest) : Cut ends ((front ++ [last]) :: ps) (front ++ last :: rest)

theorem cutAfter_of_unended (h : ∀ x ∈ xs, ends x = false) : cutAfter ends xs = (xs, []) := by
  have hdrop : xs.dropWhile (!ends ·) = [] := List.dropWhile_eq_nil_iff.2 fun x hx => by simp [h x hx]
  simp only [cutAfter, hdrop]

theorem cutAfter_of_ended (hfront : ∀ x ∈ front, ends x = false) (hlast : ends last = true) :
    cutAfter ends (front ++ last :: rest) = (front ++ [last], rest) := by
  have hinside : ∀ x ∈ front, (!ends x) = true := fun x hx => by simp [hfront x hx]
  have htake : (front ++ last :: rest).takeWhile (!ends ·) = front := by
    rw [List.takeWhile_append_of_pos hinside, List.takeWhile_cons_of_neg (by simp [hlast]), List.append_nil]
  have hdrop : (front ++ last :: rest).dropWhile (!ends ·) = last :: rest := by
    rw [List.dropWhile_append_of_pos hinside, List.dropWhile_cons_of_neg (by simp [hlast])]
  simp only [cutAfter, htake, hdrop]

/-- either nothing ends a piece, or there is a first element that does -/
theorem unended_or_ended (ends : α → Bool) (xs : List α) : (∀ x ∈ xs, ends x = false) ∨
    ∃ front last rest, xs = front ++ last :: rest ∧ (∀ x ∈ front, ends x = false) ∧ ends last = true := by
  cases hfind : xs.find? ends with
  | none =>
    refine .inl fun x hx => ?_
    simpa using List.find?_eq_none.1 hfind x hx
  | some last =>
    obtain ⟨hlast, front, rest, rfl, hfront⟩ := List.find?_eq_some_iff_append.1 hfind
    exact .inr ⟨front, last, rest, rfl, fun x hx => by simpa using hfront x hx, hlast⟩

@[simp] theorem pieces_nil : pieces ends ([] : List α) = [] := by rw [pieces, dif_pos rfl]

theorem pieces_of_ne_nil (h : xs ≠ []) : pieces ends xs = (cutAfter ends xs).1 :: pieces ends (cutAfter ends xs).2 := by
  rw [pieces, dif_neg h]

theorem pieces_of_unended (hne : xs ≠ []) (h : ∀ x ∈ xs, ends x = false) : pieces ends xs = [xs] := by
  rw [pieces_of_ne_nil hne, cutAfter_of_unended h, pieces_nil]

theorem pieces_of_ended (hfront : ∀ x ∈ front, ends x = false) (hlast : ends last = true) :
    pieces ends (front ++ last :: rest) = (front ++ [last]) :: pieces ends rest := by
  rw [pieces_of_ne_nil (by simp), cutAfter_of_ended hfront hlast]

theorem cut_pieces (ends : α → Bool) (xs : List α) : Cut ends (pieces ends xs) xs := by
  fun_induction pieces ends xs with
  | case1 => exact .nil
  | case2 xs hne ih =>
    rcases unended_or_ended ends xs with hnone | ⟨front, last, rest, rfl, hfront, hlast⟩
    · rw [cutAfter_of_unended hnone, pieces_nil]
      exact .unended hne hnone
    · rw [cutAfter_of_ended hfront hlast] at ih ⊢
      exact .ended hfront hlast ih

theorem Cut.pieces_eq (h : Cut ends ps xs) : pieces ends xs = ps := by
  induction h with
  | nil => exact pieces_nil
  | unended hne hpiece => exact pieces_of_unended hne hpiece
  | ended hfront hlast _ ih => rw [pieces_of_ended hfront hlast, ih]

/-- a sequence can be cut in one way only -/
theorem cut_iff : Cut ends ps xs ↔ ps = pieces ends xs :=
  ⟨fun h => h.pieces_eq.symm, fun h => h ▸ cut_pieces ends xs⟩

end Cut

/-! ## Terminators -/

section Strips

variable {piece line : List Char}

/-- a piece of text and the line that it is: without a line feed at its end and one carriage return right before that -/
inductive Strips : (piece line : List Char) → Prop where
  | both {line : List Char} : Strips (line ++ ['\r', '\n']) line
  | lineFeed {line : List Char} (hend : line.getLast? ≠ some '\r') : Strips (line ++ ['\n']) line
  | neither {line : List Char} (hend : line.getLast? ≠ some '\n') : Strips line line

theorem strips_stripTerminator (piece : List Char) : Strips piece (stripTerminator piece) := by
  unfold stripTerminator
  split
  · rename_i rest hpiece
    obtain rfl : piece = rest.reverse ++ ['\r', '\n'] := by simpa using congrArg List.reverse hpiece
    exact .both
  · rename_i rest hnot hpiece
    obtain rfl : piece = rest.reverse ++ ['\n'] := by simpa using congrArg List.reverse hpiece
    refine .lineFeed fun hend => ?_
    rw [List.getLast?_reverse] at hend
    obtain ⟨tail, rfl⟩ := List.head?_eq_some_iff.1 hend
    exact hnot tail rfl
  · rename_i hnot
    refine .neither fun hend => ?_
    rw [List.getLast?_eq_head?_reverse] at hend
    obtain ⟨tail, htail⟩ := List.head?_eq_some_iff.1 hend
    exact hnot tail htail

theorem Strips.stripTerminator_eq (h : Strips piece line) : stripTerminator piece = line := by
  cases h with
  | both => simp [stripTerminator]
  | lineFeed hend =>
    rw [List.getLast?_eq_head?_reverse] at hend
    simp only [stripTerminator, List.reverse_append, List.reverse_singleton, List.singleton_append]
    split
    · simp_all
    · rename_i hpiece
      rw [← (List.cons.inj hpiece).2, List.reverse_reverse]
    · simp_all
  | neither hend =>
    rw [List.getLast?_eq_head?_reverse] at hend
    unfold stripTerminator
    split <;> simp_all

theorem strips_iff : Strips piece line ↔ line = stripTerminator piece :=
  ⟨fun h => h.stripTerminator_eq.symm, fun h => h ▸ strips_stripTerminator piece⟩

end Strips

def HasLines (text : List Char) (lines : List (List Char)) : Prop :=
  ∃ ps, Cut (· == '\n') ps text ∧ List.Forall₂ Strips ps lines

theorem forall₂_strips_iff {ps ls : List (List Char)} : List.Forall₂ Strips ps ls ↔ ls = ps.map stripTerminator := by
  induction ps generalizing ls with
  | nil => simp
  | cons piece ps ih => simp [List.forall₂_cons_left_iff, strips_iff, ih]

/-- a text has its lines and no others -/
theorem hasLines_iff {text : List Char} {ls : List (List Char)} : HasLines text ls ↔ ls = lines text := by
  simp only [HasLines, cut_iff, exists_eq_left, forall₂_strips_iff, lines]

/-! ## Encoded text -/

def encode (cs : List Char) : List UInt8 := cs.flatMap String.utf8EncodeChar

@[simp] theorem encode_append (cs ds : List Char) : encode (cs ++ ds) = encode cs ++ encode ds := List.flatMap_append

/-- the byte of a line feed is part of no other character -/
theorem mem_utf8EncodeChar_iff {c : Char} : 10 ∈ String.utf8EncodeChar c ↔ c = '\n' := by
  have hbyte (n : Nat) : (10 : UInt8) = UInt8.ofNat n ↔ n % 256 = 10 := by
    rw [← UInt8.toNat_inj, UInt8.toNat_ofNat']
    exact eq_comm
  have hchar : c = '\n' ↔ c.val.toNat = 10 := by
    rw [Char.ext_iff, ← UInt32.toNat_inj]
    rfl
  rw [hchar]
  -- every byte of a longer encoding is at least 128
  unfold String.utf8EncodeChar
  simp only
  split
  · simp only [List.mem_singleton, hbyte]
    omega
  · split
    · simp only [List.mem_cons, List.not_mem_nil, or_false, hbyte]
      omega
    · split
      · simp only [List.mem_cons, List.not_mem_nil, or_false, hbyte]
        omega
      · simp only [List.mem_cons, List.not_mem_nil, or_false, hbyte]
        omega

theorem encode_cons_lineFeed (cs : List Char) : encode ('\n' :: cs) = 10 :: encode cs := rfl

theorem encode_unended {cs : List Char} (h : ∀ c ∈ cs, (c == '\n') = false) : ∀ b ∈ encode cs, (b == (10 : UInt8)) = false := by
  intro b hb
  obtain ⟨c, hc, hb⟩ := List.mem_flatMap.1 hb
  rw [beq_eq_false_iff_ne]
  rintro rfl
  exact ne_of_beq_false (h c hc) (mem_utf8EncodeChar_iff.1 hb)

theorem encode_ne_nil {cs : List Char} (h : cs ≠ []) : encode cs ≠ [] := by
  obtain ⟨c, cs, rfl⟩ := List.exists_cons_of_ne_nil h
  simp [encode]

/-- an encoded text is cut where the text is -/
theorem Cut.encode {ps : List (List Char)} {cs : List Char} (h : Cut (· == '\n') ps cs) :
    Cut (· == (10 : UInt8)) (ps.map encode) (encode cs) := by
  induction h with
  | nil => exact .nil
  | unended hne hpiece => exact .unended (encode_ne_nil hne) (encode_unended hpiece)
  | @ended front last ps rest hfront hlast _ ih =>
    obtain rfl : last = '\n' := eq_of_beq hlast
    rw [List.map_cons, encode_append, encode_append, encode_cons_lineFeed, encode_cons_lineFeed]
    exact .ended (encode_unended hfront) rfl ih

theorem pieces_encode (cs : List Char) : pieces (· == (10 : UInt8)) (encode cs) = (pieces (· == '\n') cs).map encode :=
  (cut_pieces _ cs).encode.pieces_eq

end CfgMembership.Text
