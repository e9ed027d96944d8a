/-
Reading a line word by word, with a byte offset that moves along.

`offsetAfter?` is the offset after several readings, `readingFrom?` what the next one gives; nothing when a reading was asked
for at an offset that is past the end of the line or inside a character (`Misplaced`). A reading that starts between two
characters ends between two (`exists_wordAt?`), so that reading on from the start of a line never comes to such an offset
(`exists_offsetAfter?`).

`IsRun before word after` says what a word is without reading any: characters that are not blank, as many as there are at
their place. Reading passes the words that a part of the line is made of and then gives the run after them
(`readingFrom?_run`); past the last run it gives no word and stays at the end (`readingFrom?_end`). `reading_exact` puts that
together: the readings are the runs, in order.
-/
import Mathlib.Data.List.Basic
import CfgMembership.Proofs.Text.Word

namespace CfgMembership.Text

variable {line : String} {cs front gap mid before word after rest : List Char} {ws : List (List Char)} {offset n : Nat}

/-! ## Offsets into a line -/

@[simp] theorem byteLength_nil : byteLength [] = 0 := rfl

@[simp] theorem byteLength_cons (c : Char) (cs : List Char) : byteLength (c :: cs) = c.utf8Size + byteLength cs := rfl

@[simp] theorem byteLength_append (cs cs' : List Char) : byteLength (cs ++ cs') = byteLength cs + byteLength cs' := by
  induction cs with
  | nil => simp
  | cons c cs ih => simp [ih, Nat.add_assoc]

/-- the characters of a line take the bytes of the line -/
theorem byteLength_toList (line : String) : byteLength line.toList = line.utf8ByteSize := by
  have (cs : List Char) : byteLength cs = (String.ofList cs).utf8ByteSize := by
    induction cs with
    | nil => rfl
    | cons c cs ih =>
      have hsplit : String.ofList (c :: cs) = String.singleton c ++ String.ofList cs := by
        rw [String.singleton_eq_ofList, ← String.ofList_append]
        rfl
      rw [hsplit, String.utf8ByteSize_append, String.utf8ByteSize_singleton, ← ih, byteLength_cons]
  rw [this, String.ofList_toList]

/-- an offset that no reading can start at: past the end, or inside a character -/
def Misplaced (cs : List Char) (offset : Nat) : Prop :=
  byteLength cs < offset ∨ ∃ before c after, cs = before ++ c :: after ∧ byteLength before < offset ∧
    offset < byteLength before + c.utf8Size

theorem dropBytes?_append (before rest : List Char) : dropBytes? (before ++ rest) (byteLength before) = some rest := by
  induction before with
  | nil => cases rest <;> rfl
  | cons c before ih =>
    obtain ⟨size, hsize⟩ := Nat.exists_eq_succ_of_ne_zero (Nat.ne_of_gt c.utf8Size_pos)
    have hoffset : byteLength (c :: before) = size + byteLength before + 1 := by
      rw [byteLength_cons, hsize]
      omega
    have hleft : size + byteLength before + 1 - c.utf8Size = byteLength before := by omega
    rw [List.cons_append, hoffset, dropBytes?, if_pos (by omega), hleft, ih]

theorem dropBytes?_eq_none_iff : dropBytes? cs offset = none ↔ Misplaced cs offset := by
  fun_induction dropBytes? cs offset with
  | case1 cs => simp [Misplaced]
  | case2 n => simp [Misplaced]
  | case3 c cs offset hle ih =>
    rw [ih]
    constructor
    · intro h
      rcases h with hpast | ⟨before, c', after, rfl, hleft, hright⟩
      · exact .inl (by rw [byteLength_cons]; omega)
      · exact .inr ⟨c :: before, c', after, rfl, by rw [byteLength_cons]; omega, by rw [byteLength_cons]; omega⟩
    · intro h
      rcases h with hpast | ⟨before, c', after, hcs, hleft, hright⟩
      · rw [byteLength_cons] at hpast
        exact .inl (by omega)
      · cases before with
        | nil =>
          -- the offset is not inside the first character
          obtain ⟨rfl, -⟩ := List.cons.inj hcs
          rw [byteLength_nil] at hright
          omega
        | cons d before =>
          obtain ⟨rfl, rfl⟩ := List.cons.inj hcs
          rw [byteLength_cons] at hleft hright
          exact .inr ⟨before, c', after, rfl, by omega, by omega⟩
  | case4 c cs offset hlt =>
    refine iff_of_true rfl (.inr ⟨[], c, cs, rfl, by simp, ?_⟩)
    rw [byteLength_nil]
    omega

/-- an offset is between two characters, or at an end, when some characters from the start of the line take it up -/
theorem isValid_iff : (String.Pos.Raw.mk offset).IsValid line ↔
    ∃ before after, line.toList = before ++ after ∧ byteLength before = offset := by
  rw [String.Pos.Raw.isValid_iff_exists_append]
  constructor
  · intro h
    obtain ⟨front, back, rfl, hfront⟩ := h
    refine ⟨front.toList, back.toList, String.toList_append, ?_⟩
    rw [byteLength_toList, ← String.byteIdx_rawEndPos, ← hfront]
  · intro h
    obtain ⟨before, after, hline, rfl⟩ := h
    refine ⟨String.ofList before, String.ofList after, ?_, ?_⟩
    · rw [← String.ofList_append, ← hline, String.ofList_toList]
    · rw [String.Pos.Raw.ext_iff, String.byteIdx_rawEndPos, ← byteLength_toList, String.toList_ofList]

/-! ## One reading -/

theorem wordAt?_of_blanks (hline : line.toList = front ++ gap) (hgap : ∀ c ∈ gap, isBlank c = true) :
    wordAt? line (byteLength front) = some ⟨none, line.utf8ByteSize⟩ := by
  have hnone : takeWord gap = none := takeWord_eq_none_iff.2 hgap
  simp only [wordAt?, hline, dropBytes?_append, Option.map_some, hnone]
  rw [← byteLength_append, ← hline, byteLength_toList]

theorem wordAt?_of_word (hline : line.toList = front ++ (gap ++ word ++ rest)) (hgap : ∀ c ∈ gap, isBlank c = true)
    (hne : word ≠ []) (hword : ∀ c ∈ word, isBlank c = false) (hend : ∀ c ∈ rest.head?, isBlank c = true) :
    wordAt? line (byteLength front) = some ⟨some (String.ofList word), byteLength (front ++ gap ++ word)⟩ := by
  have htake : takeWord (gap ++ word ++ rest) = some (word, rest) := takeWord_append hgap hne hword hend
  have hskip : (gap ++ word ++ rest).takeWhile isBlank = gap := by
    rw [List.append_assoc]
    refine takeWhile_eq_front hgap fun c hc => ?_
    obtain ⟨first, tail, rfl⟩ := List.exists_cons_of_ne_nil hne
    obtain rfl : first = c := by simpa using hc
    exact hword first List.mem_cons_self
  simp only [wordAt?, hline, dropBytes?_append, Option.map_some, htake, hskip, byteLength_append]

/-- only blanks follow an offset just when the next reading gives no word -/
theorem blankFrom?_of_wordAt? {r : WordReading} (h : wordAt? line offset = some r) :
    blankFrom? line offset = some r.word.isNone := by
  obtain ⟨rest, hrest, rfl⟩ := Option.map_eq_some_iff.1 h
  rw [blankFrom?, hrest, Option.map_some, Option.some.injEq, Bool.eq_iff_iff, List.all_eq_true, ← takeWord_eq_none_iff]
  split
  · rename_i hnone
    simp [hnone]
  · rename_i hsome
    simp [hsome]

/-- a reading between two characters gives something, and ends between two characters -/
theorem exists_wordAt? (h : (String.Pos.Raw.mk offset).IsValid line) :
    ∃ r, wordAt? line offset = some r ∧ (String.Pos.Raw.mk r.offset).IsValid line := by
  obtain ⟨before, rest, hline, rfl⟩ := isValid_iff.1 h
  cases htake : takeWord rest with
  | none =>
    refine ⟨_, wordAt?_of_blanks hline (takeWord_eq_none_iff.1 htake), isValid_iff.2 ⟨line.toList, [], by simp, ?_⟩⟩
    exact byteLength_toList line
  | some taken =>
    obtain ⟨gap, hgap, hne, hword, hend, rfl⟩ := exists_of_takeWord_eq_some htake
    refine ⟨_, wordAt?_of_word hline hgap hne hword hend, isValid_iff.2 ⟨before ++ gap ++ taken.1, taken.2, ?_, rfl⟩⟩
    simp [hline]

/-! ## Several readings -/

/-- the offset after several readings, the first of them at an offset -/
def offsetAfter? (line : String) : (offset n : Nat) → Option Nat
  | offset, 0 => some offset
  | offset, n + 1 => (wordAt? line offset).bind fun r => offsetAfter? line r.offset n

/-- the reading with a number, counted from 0, when the first is at an offset -/
def readingFrom? (line : String) (offset n : Nat) : Option WordReading := (offsetAfter? line offset n).bind (wordAt? line)

theorem readingFrom?_succ {r : WordReading} (h : wordAt? line offset = some r) (n : Nat) :
    readingFrom? line offset (n + 1) = readingFrom? line r.offset n := by
  simp [readingFrom?, offsetAfter?, h]

theorem exists_offsetAfter? (h : (String.Pos.Raw.mk offset).IsValid line) (n : Nat) :
    ∃ last, offsetAfter? line offset n = some last ∧ (String.Pos.Raw.mk last).IsValid line := by
  induction n generalizing offset with
  | zero => exact ⟨offset, rfl, h⟩
  | succ n ih =>
    obtain ⟨r, hr, hvalid⟩ := exists_wordAt? h
    obtain ⟨last, hlast, hend⟩ := ih hvalid
    exact ⟨last, by simp [offsetAfter?, hr, hlast], hend⟩

/-! ## Runs of characters that are not blank -/

/-- characters that are not blank, between a blank or the start of the line and a blank or its end -/
structure IsRun (before word after : List Char) : Prop where
  ne_nil : word ≠ []
  inside : ∀ c ∈ word, isBlank c = false
  left : ∀ c ∈ before.getLast?, isBlank c = true
  right : ∀ c ∈ after.head?, isBlank c = true

/-- a run after a word has a blank in between, and is a run of what follows the word -/
theorem IsRun.after_word (h : IsRun (front ++ mid) word after) (hne : front ≠ [])
    (hfront : ∀ c ∈ front.getLast?, isBlank c = false) : mid ≠ [] ∧ IsRun mid word after := by
  have hmid : mid ≠ [] := by
    intro hnil
    have hlast : front.getLast? = some (front.getLast hne) := List.getLast?_eq_some_getLast hne
    have hblank := h.left (front.getLast hne) (by rw [hnil, List.append_nil, hlast, Option.mem_def])
    rw [hfront _ hlast] at hblank
    cases hblank
  refine ⟨hmid, h.ne_nil, h.inside, ?_, h.right⟩
  rw [← List.getLast?_append_of_ne_nil front hmid]
  exact h.left

/-- the last character of a word, whatever stands before it -/
theorem getLast?_word (hne : word ≠ []) (hword : ∀ c ∈ word, isBlank c = false) :
    ∀ c ∈ (gap ++ word).getLast?, isBlank c = false := by
  intro c hc
  rw [List.getLast?_append_of_ne_nil gap hne] at hc
  exact hword c (List.mem_of_getLast? hc)

/-- the words of a line are runs, each after the words before it -/
theorem Spells.exists_run (h : Spells cs ws) (hn : ws[n]? = some word) :
    ∃ before after, cs = before ++ word ++ after ∧ IsRun before word after ∧ Spells before (ws.take n) := by
  induction h generalizing n with
  | blanks => cases hn
  | @word gap first rest ws hgap hne hfirst hend hrest ih =>
    cases n with
    | zero =>
      obtain rfl : first = word := by simpa using hn
      exact ⟨gap, rest, rfl, ⟨hne, hfirst, fun c hc => hgap c (List.mem_of_getLast? hc), hend⟩, .blanks hgap⟩
    | succ n =>
      obtain ⟨before, after, rfl, hrun, hbefore⟩ := ih hn
      -- the rest begins with a blank, and the run does not
      have hbetween : before ≠ [] := by
        intro hnil
        obtain ⟨c, tail, hc⟩ := List.exists_cons_of_ne_nil hrun.ne_nil
        have hblank := hend c (by simp [hnil, hc])
        rw [hrun.inside c (by simp [hc])] at hblank
        cases hblank
      have hstart : ∀ c ∈ before.head?, isBlank c = true := by
        rwa [List.append_assoc, List.head?_append_of_ne_nil before hbetween] at hend
      refine ⟨gap ++ first ++ before, after, by simp only [List.append_assoc], ⟨hrun.ne_nil, hrun.inside, ?_, hrun.right⟩,
        .word hgap hne hfirst hstart hbefore⟩
      rw [List.getLast?_append_of_ne_nil _ hbetween]
      exact hrun.left

/-! ## Readings from an offset on -/

/-- reading passes the words that a part of a line is made of, and then gives the run after them -/
theorem readingFrom?_run (hmid : Spells mid ws) (hline : line.toList = front ++ (mid ++ word ++ after))
    (hrun : IsRun mid word after) :
    readingFrom? line (byteLength front) ws.length = some ⟨some (String.ofList word), byteLength (front ++ mid ++ word)⟩ := by
  induction hmid generalizing front with
  | blanks hgap => exact wordAt?_of_word hline hgap hrun.ne_nil hrun.inside hrun.right
  | @word gap first rest ws hgap hne hfirst hend hrest ih =>
    obtain ⟨hbetween, hrun'⟩ := hrun.after_word (List.append_ne_nil_of_right_ne_nil gap hne) (getLast?_word hne hfirst)
    have hsplit : line.toList = front ++ (gap ++ first ++ (rest ++ word ++ after)) := by
      simp only [hline, List.append_assoc]
    have hstop : ∀ c ∈ (rest ++ word ++ after).head?, isBlank c = true := by
      rw [List.append_assoc, List.head?_append_of_ne_nil rest hbetween]
      exact hend
    have hlater : readingFrom? line (byteLength (front ++ gap ++ first)) ws.length =
        some ⟨some (String.ofList word), byteLength (front ++ gap ++ first ++ rest ++ word)⟩ :=
      ih (by simp only [hsplit, List.append_assoc]) hrun'
    rw [List.length_cons, readingFrom?_succ (wordAt?_of_word hsplit hgap hne hfirst hstop), hlater]
    simp only [List.append_assoc]

/-- from blanks at the end of a line on, no reading gives a word -/
theorem readingFrom?_blanks (hline : line.toList = front ++ gap) (hgap : ∀ c ∈ gap, isBlank c = true) (n : Nat) :
    readingFrom? line (byteLength front) n = some ⟨none, line.utf8ByteSize⟩ := by
  induction n generalizing front gap with
  | zero => exact wordAt?_of_blanks hline hgap
  | succ n ih =>
    have hlater : readingFrom? line (byteLength line.toList) n = some ⟨none, line.utf8ByteSize⟩ :=
      ih (List.append_nil line.toList).symm (by simp)
    rw [byteLength_toList] at hlater
    rw [readingFrom?_succ (wordAt?_of_blanks hline hgap)]
    exact hlater

/-- past the words that the rest of a line is made of, no reading gives a word -/
theorem readingFrom?_end (hmid : Spells mid ws) (hline : line.toList = front ++ mid) (hn : ws.length ≤ n) :
    readingFrom? line (byteLength front) n = some ⟨none, line.utf8ByteSize⟩ := by
  induction hmid generalizing front n with
  | blanks hgap => exact readingFrom?_blanks hline hgap n
  | @word gap first rest ws hgap hne hfirst hend hrest ih =>
    obtain ⟨n, rfl⟩ := Nat.exists_eq_add_of_lt hn
    have hsplit : line.toList = front ++ (gap ++ first ++ rest) := hline
    rw [readingFrom?_succ (wordAt?_of_word hsplit hgap hne hfirst hend)]
    exact ih (by simp only [hsplit, List.append_assoc]) (Nat.le_add_right _ _)

/-! ## The readings of a line -/

theorem reading_of_run (hline : line.toList = before ++ word ++ after) (hrun : IsRun before word after)
    (hbefore : Spells before ws) :
    readingFrom? line 0 ws.length = some ⟨some (String.ofList word), byteLength (before ++ word)⟩ := by
  have hstart : line.toList = [] ++ (before ++ word ++ after) := hline
  exact readingFrom?_run hbefore hstart hrun

theorem reading_of_le (hn : (words line.toList).length ≤ n) : readingFrom? line 0 n = some ⟨none, line.utf8ByteSize⟩ :=
  readingFrom?_end (spells_words line.toList) (List.nil_append _).symm hn

/-- for each number below the number of words there is a run with that many words before it -/
theorem exists_run_of_lt (hn : n < (words line.toList).length) : ∃ before word after ws,
    line.toList = before ++ word ++ after ∧ IsRun before word after ∧ Spells before ws ∧ ws.length = n := by
  obtain ⟨before, after, hline, hrun, hbefore⟩ := (spells_words line.toList).exists_run (List.getElem?_eq_getElem hn)
  refine ⟨before, _, after, _, hline, hrun, hbefore, ?_⟩
  rw [List.length_take, Nat.min_eq_left (Nat.le_of_lt hn)]

theorem reading_eq_word_iff {word : String} : readingFrom? line 0 n = some ⟨some word, offset⟩ ↔
    ∃ before after ws, line.toList = before ++ word.toList ++ after ∧ IsRun before word.toList after ∧
      Spells before ws ∧ ws.length = n ∧ byteLength (before ++ word.toList) = offset := by
  constructor
  · intro h
    rcases Nat.lt_or_ge n (words line.toList).length with hn | hn
    · obtain ⟨before, run, after, ws, hline, hrun, hbefore, rfl⟩ := exists_run_of_lt hn
      rw [reading_of_run hline hrun hbefore] at h
      obtain ⟨rfl, rfl⟩ : String.ofList run = word ∧ byteLength (before ++ run) = offset := by simpa using h
      rw [String.toList_ofList]
      exact ⟨before, after, ws, hline, hrun, hbefore, rfl, rfl⟩
    · rw [reading_of_le hn] at h
      simp at h
  · intro h
    obtain ⟨before, after, ws, hline, hrun, hbefore, rfl, rfl⟩ := h
    rw [reading_of_run hline hrun hbefore, String.ofList_toList]

theorem reading_eq_none_iff : readingFrom? line 0 n = some ⟨none, offset⟩ ↔
    (∃ ws, Spells line.toList ws ∧ ws.length ≤ n) ∧ offset = line.utf8ByteSize := by
  constructor
  · intro h
    rcases Nat.lt_or_ge n (words line.toList).length with hn | hn
    · obtain ⟨before, run, after, ws, hline, hrun, hbefore, rfl⟩ := exists_run_of_lt hn
      rw [reading_of_run hline hrun hbefore] at h
      simp at h
    · rw [reading_of_le hn] at h
      obtain rfl : line.utf8ByteSize = offset := by simpa using h
      exact ⟨⟨_, spells_words _, hn⟩, rfl⟩
  · intro h
    obtain ⟨⟨ws, hws, hn⟩, rfl⟩ := h
    exact reading_of_le (hws.words_eq ▸ hn)

/-- **Reading a line from its start gives its runs of characters that are not blank, in order, and then nothing for ever.** The
reading with number `n` gives the run that `n` words stand before, with the offset right after it; when the line is made of no
more than `n` words it gives none, with the offset at the end of the line. All offsets on the way are between two characters,
and only blanks follow one just when the next reading gives no word. At any other offset neither of the two gives an answer
just when it is past the end of the line or inside a character. -/
theorem reading_exact (line : String) :
    (∀ n word offset, readingFrom? line 0 n = some ⟨some word, offset⟩ ↔
      ∃ before after ws, line.toList = before ++ word.toList ++ after ∧ IsRun before word.toList after ∧
        Spells before ws ∧ ws.length = n ∧ byteLength (before ++ word.toList) = offset) ∧
    (∀ n offset, readingFrom? line 0 n = some ⟨none, offset⟩ ↔
      (∃ ws, Spells line.toList ws ∧ ws.length ≤ n) ∧ offset = line.utf8ByteSize) ∧
    (∀ n, ∃ offset r, offsetAfter? line 0 n = some offset ∧ (String.Pos.Raw.mk offset).IsValid line ∧
      wordAt? line offset = some r ∧ blankFrom? line offset = some r.word.isNone) ∧
    ∀ offset, (wordAt? line offset = none ↔ Misplaced line.toList offset) ∧
      (blankFrom? line offset = none ↔ Misplaced line.toList offset) := by
  refine ⟨fun _ _ _ => reading_eq_word_iff, fun _ _ => reading_eq_none_iff, fun n => ?_, fun offset => ⟨?_, ?_⟩⟩
  · have hstart : (String.Pos.Raw.mk 0).IsValid line := isValid_iff.2 ⟨[], _, rfl, rfl⟩
    obtain ⟨offset, hoffset, hvalid⟩ := exists_offsetAfter? hstart n
    obtain ⟨r, hr, -⟩ := exists_wordAt? hvalid
    exact ⟨offset, r, hoffset, hvalid, hr, blankFrom?_of_wordAt? hr⟩
  · rw [wordAt?, Option.map_eq_none_iff, dropBytes?_eq_none_iff]
  · rw [blankFrom?, Option.map_eq_none_iff, dropBytes?_eq_none_iff]

example : (List.range 4).map (readingFrom? " é\u3000b" 0) =
    [some ⟨"é", 3⟩, some ⟨"b", 7⟩, some ⟨none, 7⟩, some ⟨none, 7⟩] := by decide

end CfgMembership.Text
