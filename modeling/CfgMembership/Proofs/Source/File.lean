/-
What a file gives line by line, whatever has been done with it before.

A file is read piece by piece, and each piece by itself (`LineOf`). `SinceOpen` says, from the steps taken so far alone,
whether the file is open and how many lines have been asked for since it was opened. `nextLine_run`: the answer to the next
request depends on the piece with that number and on nothing else. So a line that is no text does not shift or damage the
lines after it, an opening that fails leaves everything as it was, and a removal shows at later openings only.
-/
import Mathlib.Data.List.Count
import Mathlib.Data.List.Induction
import CfgMembership.Proofs.Source
import CfgMembership.Proofs.Text.Line
import CfgMembership.Source.File

namespace CfgMembership

open CfgMembership.Text

/-! ## Encoded lines -/

theorem toList_toUTF8 (text : String) : text.toUTF8.data.toList = encode text.toList := by
  rw [String.toUTF8_eq_toByteArray, ← String.utf8Encode_toList, List.utf8Encode, List.toList_data_toByteArray]
  rfl

theorem decodeText?_toUTF8 (text : String) : decodeText? text.toUTF8.data.toList = some text := by
  have hbytes : text.toUTF8.data.toList.toByteArray = text.toByteArray :=
    ByteArray.ext (Array.toList_inj.1 List.toList_data_toByteArray)
  rw [decodeText?, hbytes, String.fromUTF8?, dif_pos text.isValidUTF8]
  rfl

theorem toUTF8_of_decodeText? {bytes : List UInt8} {text : String} (h : decodeText? bytes = some text) :
    text.toUTF8.data.toList = bytes := by
  unfold decodeText? String.fromUTF8? at h
  split at h
  · rw [← Option.some.inj h]
    exact List.toList_data_toByteArray
  · cases h

/-- what asking for a line gives, by the piece that is next: at the end there is none, a piece that encodes no text is an
error of its own, and any other piece is a line without its terminator -/
inductive LineOf : Option (List UInt8) → Except SourceError String → Prop where
  | noPiece : LineOf none (.error .endOfInput)
  | noText {piece : List UInt8} (h : ∀ text : String, text.toUTF8.data.toList ≠ piece) :
    LineOf (some piece) (.error (.io .invalidText))
  | line {text line : String} (h : Strips text.toList line.toList) : LineOf (some text.toUTF8.data.toList) (.ok line)

/-- the same as a function -/
def lineOfPiece : Option (List UInt8) → Except SourceError String
  | none => .error .endOfInput
  | some piece => lineOfBytes piece

theorem lineOfBytes_toUTF8 (text : String) :
    lineOfBytes text.toUTF8.data.toList = .ok (String.ofList (stripTerminator text.toList)) := by
  rw [lineOfBytes, decodeText?_toUTF8]

theorem lineOf_iff {piece? : Option (List UInt8)} {answer : Except SourceError String} :
    LineOf piece? answer ↔ lineOfPiece piece? = answer := by
  constructor
  · intro h
    cases h with
    | noPiece => rfl
    | @noText piece h =>
      have hnone : decodeText? piece = none :=
        Option.eq_none_iff_forall_ne_some.2 fun text htext => h text (toUTF8_of_decodeText? htext)
      rw [lineOfPiece, lineOfBytes, hnone]
    | line h => rw [lineOfPiece, lineOfBytes_toUTF8, h.stripTerminator_eq, String.ofList_toList]
  · rintro rfl
    cases piece? with
    | none => exact .noPiece
    | some piece =>
      cases hdecode : decodeText? piece with
      | none =>
        rw [lineOfPiece, lineOfBytes, hdecode]
        refine .noText fun text htext => ?_
        rw [← htext, decodeText?_toUTF8] at hdecode
        cases hdecode
      | some text =>
        obtain rfl := toUTF8_of_decodeText? hdecode
        rw [lineOfPiece, lineOfBytes_toUTF8]
        exact .line (by rw [String.toList_ofList]; exact strips_stripTerminator _)

/-- a piece gives a line or an error of its own, which is not that the source has not been opened -/
theorem lineOfPiece_ne_notOpen (piece? : Option (List UInt8)) : lineOfPiece piece? ≠ .error .notOpen := by
  intro h
  cases lineOf_iff.2 h

/-! ## Reading on -/

/-- a file gives its next piece, and then has the pieces after it left -/
theorem Handle.nextLine_file (unread : List UInt8) : ∃ rest, (Handle.file unread).nextLine =
    (lineOfPiece (pieces (· == 10) unread).head?, .file rest) ∧
      pieces (· == 10) rest = (pieces (· == 10) unread).tail := by
  cases unread with
  | nil => exact ⟨[], by rw [pieces_nil]; rfl, by rw [pieces_nil]; rfl⟩
  | cons byte unread =>
    rw [pieces_of_ne_nil (List.cons_ne_nil _ _)]
    exact ⟨_, rfl, rfl⟩

namespace FileSource

open LineSource

variable {content : List UInt8} {s : FileSource}

/-- the source has been opened, and certain pieces are left of the file -/
def Left (s : FileSource) (ps : List (List UInt8)) : Prop :=
  ∃ unread, s.handle = some (.file unread) ∧ pieces (· == 10) unread = ps

theorem Left.nextLine {ps : List (List UInt8)} (h : s.Left ps) :
    (LineSource.nextLine s).1 = lineOfPiece ps.head? ∧ (LineSource.nextLine s).2.Left ps.tail := by
  obtain ⟨unread, hhandle, rfl⟩ := h
  obtain ⟨rest, hnext, hrest⟩ := Handle.nextLine_file unread
  have hsource : LineSource.nextLine s =
      (lineOfPiece (pieces (· == 10) unread).head?, { s with handle := some (.file rest) }) := by
    simp only [LineSource.nextLine, hhandle, hnext]
  rw [hsource]
  exact ⟨rfl, rest, rfl, hrest⟩

theorem Left.after {ps : List (List UInt8)} (h : s.Left ps) (n : Nat) : (LineSource.after s n).Left (ps.drop n) := by
  induction n generalizing s ps with
  | zero => exact h
  | succ n ih =>
    rw [after_succ, ← List.drop_tail]
    exact ih h.nextLine.2

theorem left_opened (h : s.disk = .ok (.file content)) : (opened s).Left (pieces (· == 10) content) := by
  have hopened : opened s = { s with handle := some (.file content) } := by
    simp only [opened, start, h]
    rfl
  rw [hopened]
  exact ⟨content, rfl, rfl⟩

theorem start_of_file (h : s.disk = .ok (.file content)) : (start s).1 = .ok () := by
  simp only [start, h]

theorem lineAt_opened (h : s.disk = .ok (.file content)) (n : Nat) :
    lineAt (opened s) n = lineOfPiece (pieces (· == 10) content)[n]? := by
  rw [lineAt, ((left_opened h).after n).nextLine.1, List.head?_drop]

theorem nextLine_of_closed (h : s.handle = none) : LineSource.nextLine s = (.error .notOpen, s) := by
  simp only [LineSource.nextLine, h]

/-- no request changes what lies at the path -/
theorem disk_request (s : FileSource) (r : Request) : (LineSource.request s r).disk = s.disk := by
  cases r with
  | start =>
    simp only [LineSource.request, LineSource.start]
    split <;> rfl
  | next =>
    simp only [LineSource.request, LineSource.nextLine]
    split <;> rfl
  | finish => rfl

/-! ## Any steps in any order -/

inductive Step where
  | request (r : Request)
  | remove
  deriving DecidableEq, Repr

def step (s : FileSource) : Step → FileSource
  | .request r => LineSource.request s r
  | .remove => s.remove

@[simp] theorem step_request (s : FileSource) (r : Request) : s.step (.request r) = LineSource.request s r := rfl

@[simp] theorem step_remove (s : FileSource) : s.step .remove = s.remove := rfl

def run (s : FileSource) (history : List Step) : FileSource := history.foldl step s

theorem run_cons (s : FileSource) (x : Step) (history : List Step) : s.run (x :: history) = (s.step x).run history := rfl

theorem run_append (s : FileSource) (history later : List Step) : s.run (history ++ later) = (s.run history).run later :=
  List.foldl_append

theorem run_concat (s : FileSource) (history : List Step) (x : Step) : s.run (history ++ [x]) = (s.run history).step x :=
  run_append s history [x]

/-- some opening has succeeded, since the file was still there, and no closing came after it -/
def IsOpen (history : List Step) : Prop :=
  ∃ before after, history = before ++ .request .start :: after ∧ .remove ∉ before ∧ .request .finish ∉ after

/-- the file is open, and a number of lines have been asked for since the last opening that succeeded: each opening after
that one came when the file was gone -/
def SinceOpen (history : List Step) (k : Nat) : Prop :=
  ∃ before after, history = before ++ .request .start :: after ∧ .remove ∉ before ∧ .request .finish ∉ after ∧
    (∀ front back, after = front ++ .request .start :: back → .remove ∈ front) ∧ after.count (.request .next) = k

section SinceOpen

variable {history : List Step} {k : Nat}

theorem not_sinceOpen_nil : ¬SinceOpen [] k := by
  rintro ⟨before, after, h, -⟩
  simp at h

/-- of the openings that succeeded there is a last one -/
theorem exists_sinceOpen_iff : (∃ k, SinceOpen history k) ↔ IsOpen history := by
  constructor
  · rintro ⟨k, before, after, hsplit, hthere, hopen, -⟩
    exact ⟨before, after, hsplit, hthere, hopen⟩
  · rintro ⟨before, after, rfl, hthere, hopen⟩
    induction hlength : after.length using Nat.strong_induction_on generalizing before after with
    | _ n ih =>
      by_cases hlast : ∀ front back, after = front ++ .request .start :: back → .remove ∈ front
      · exact ⟨_, before, after, rfl, hthere, hopen, hlast, rfl⟩
      · -- one of the later openings succeeded as well
        push Not at hlast
        obtain ⟨front, back, rfl, hfront⟩ := hlast
        simp only [List.mem_append, List.mem_cons, not_or] at hopen
        obtain ⟨k, hk⟩ := ih back.length (by simp at hlength; omega) (before ++ .request .start :: front) back
          (by simp [hthere, hfront]) hopen.2.2 rfl
        exact ⟨k, by simpa using hk⟩

/-- where an entry of a list can be when one more comes after it -/
theorem concat_eq_append_cons_iff {α : Type} {l before after : List α} {x y : α} : l ++ [x] = before ++ y :: after ↔
    (after = [] ∧ l = before ∧ x = y) ∨ ∃ front, after = front ++ [x] ∧ l = before ++ y :: front := by
  rcases List.eq_nil_or_concat after with rfl | ⟨front, z, rfl⟩
  · simp
  · rw [List.concat_eq_append, ← List.cons_append, ← List.append_assoc]
    constructor
    · intro h
      obtain ⟨rfl, hx⟩ := List.append_inj' h rfl
      obtain rfl : x = z := by simpa using hx
      exact .inr ⟨front, rfl, rfl⟩
    · rintro (⟨h, -⟩ | ⟨front', hfront, rfl⟩)
      · simp at h
      · obtain ⟨rfl, hx⟩ := List.append_inj' hfront rfl
        obtain rfl : z = x := by simpa using hx
        rfl

/-- a step that does not ask to open the file leaves the last opening the same, unless it is a closing -/
theorem sinceOpen_concat_iff {x : Step} (hx : x ≠ .request .start) : SinceOpen (history ++ [x]) k ↔
    x ≠ .request .finish ∧ ∃ j, SinceOpen history j ∧ k = j + [x].count (.request .next) := by
  constructor
  · rintro ⟨before, after, hsplit, hthere, hopen, hlater, rfl⟩
    rcases concat_eq_append_cons_iff.1 hsplit with ⟨-, -, rfl⟩ | ⟨front, rfl, rfl⟩
    · exact absurd rfl hx
    · rw [List.mem_append, not_or, List.mem_singleton] at hopen
      refine ⟨Ne.symm hopen.2, _, ⟨before, front, rfl, hthere, hopen.1, fun a b hab => ?_, rfl⟩, List.count_append⟩
      exact hlater a (b ++ [x]) (by rw [hab, List.append_assoc, List.cons_append])
  · rintro ⟨hfinish, _, ⟨before, after, rfl, hthere, hopen, hlater, rfl⟩, rfl⟩
    refine ⟨before, after ++ [x], by rw [List.append_assoc, List.cons_append], hthere, ?_, fun a b hab => ?_,
      List.count_append⟩
    · rw [List.mem_append, not_or, List.mem_singleton]
      exact ⟨hopen, Ne.symm hfinish⟩
    · rcases concat_eq_append_cons_iff.1 hab with ⟨-, -, rfl⟩ | ⟨front, -, hfront⟩
      · exact absurd rfl hx
      · exact hlater a front hfront

/-- opening goes back to the first line while the file is there, and does nothing once it is gone -/
theorem sinceOpen_concat_start_iff : SinceOpen (history ++ [.request .start]) k ↔
    (.remove ∉ history ∧ k = 0) ∨ (.remove ∈ history ∧ SinceOpen history k) := by
  constructor
  · rintro ⟨before, after, hsplit, hthere, hopen, hlater, rfl⟩
    rcases concat_eq_append_cons_iff.1 hsplit with ⟨rfl, rfl, -⟩ | ⟨front, rfl, rfl⟩
    · exact .inl ⟨hthere, rfl⟩
    · have hgone : .remove ∈ front := hlater front [] rfl
      rw [List.mem_append, not_or] at hopen
      refine .inr ⟨by simp [hgone], before, front, rfl, hthere, hopen.1, fun a b hab => ?_, by simp⟩
      exact hlater a (b ++ [.request .start]) (by rw [hab, List.append_assoc, List.cons_append])
  · rintro (⟨hthere, rfl⟩ | ⟨hgone, before, after, rfl, hthere, hopen, hlater, rfl⟩)
    · exact ⟨history, [], rfl, hthere, List.not_mem_nil, by simp, rfl⟩
    · have hafter : .remove ∈ after := by simpa [hthere] using hgone
      refine ⟨before, after ++ [.request .start], by rw [List.append_assoc, List.cons_append], hthere, by simpa using hopen,
        fun a b hab => ?_, by simp⟩
      rcases concat_eq_append_cons_iff.1 hab with ⟨-, rfl, -⟩ | ⟨front, -, hfront⟩
      · exact hafter
      · exact hlater a front hfront

end SinceOpen

/-- a source after some steps, as it follows from the steps: whether its file is there, and what is left to read -/
structure Tracks (content : List UInt8) (history : List Step) (s : FileSource) : Prop where
  disk : s.disk = if .remove ∈ history then .error .notFound else .ok (.file content)
  left : ∀ k, SinceOpen history k → s.Left ((pieces (· == 10) content).drop k)
  closed : (¬∃ k, SinceOpen history k) → s.handle = none

/-- a source on a file that nothing has been done with -/
def ofContent (content : List UInt8) : FileSource := { disk := .ok (.file content) }

theorem tracks_ofContent (content : List UInt8) : Tracks content [] (ofContent content) where
  disk := rfl
  left _ h := absurd h not_sinceOpen_nil
  closed _ := rfl

section Tracks

variable {history : List Step}

theorem Tracks.start (h : Tracks content history s) :
    Tracks content (history ++ [.request .start]) (s.step (.request .start)) := by
  by_cases hgone : .remove ∈ history
  · have hdisk : s.disk = .error .notFound := by rw [h.disk, if_pos hgone]
    have hsame : s.step (.request .start) = s := by simp only [step, LineSource.request, LineSource.start, hdisk]
    have hiff (k : Nat) : SinceOpen (history ++ [.request .start]) k ↔ SinceOpen history k := by
      simp [sinceOpen_concat_start_iff, hgone]
    rw [hsame]
    refine ⟨by simp [hdisk, hgone], fun k hk => h.left k ((hiff k).1 hk), fun hnone => h.closed ?_⟩
    simpa only [hiff] using hnone
  · have hdisk : s.disk = .ok (.file content) := by rw [h.disk, if_neg hgone]
    have hiff (k : Nat) : SinceOpen (history ++ [.request .start]) k ↔ k = 0 := by
      simp [sinceOpen_concat_start_iff, hgone]
    refine ⟨?_, fun k hk => ?_, fun hnone => absurd ⟨0, (hiff 0).2 rfl⟩ hnone⟩
    · simp [step, LineSource.request, LineSource.start, hdisk, hgone]
    · obtain rfl := (hiff k).1 hk
      exact left_opened hdisk

theorem Tracks.next (h : Tracks content history s) :
    Tracks content (history ++ [.request .next]) (s.step (.request .next)) := by
  have hiff (k : Nat) : SinceOpen (history ++ [.request .next]) k ↔ ∃ j, SinceOpen history j ∧ k = j + 1 := by
    simp [sinceOpen_concat_iff]
  refine ⟨?_, fun k hk => ?_, fun hnone => ?_⟩
  · simpa using (disk_request s .next).trans h.disk
  · obtain ⟨j, hj, rfl⟩ := (hiff k).1 hk
    rw [← List.tail_drop]
    exact (h.left j hj).nextLine.2
  · have hclosed := h.closed fun ⟨j, hj⟩ => hnone ⟨j + 1, (hiff _).2 ⟨j, hj, rfl⟩⟩
    show (LineSource.nextLine s).2.handle = none
    rw [nextLine_of_closed hclosed]
    exact hclosed

theorem Tracks.finish (h : Tracks content history s) :
    Tracks content (history ++ [.request .finish]) (s.step (.request .finish)) := by
  refine ⟨?_, fun k hk => ?_, fun _ => rfl⟩
  · simpa using (disk_request s .finish).trans h.disk
  · exact absurd rfl ((sinceOpen_concat_iff (by simp)).1 hk).1

theorem Tracks.remove (h : Tracks content history s) : Tracks content (history ++ [.remove]) (s.step .remove) := by
  have hiff (k : Nat) : SinceOpen (history ++ [.remove]) k ↔ SinceOpen history k := by
    simp [sinceOpen_concat_iff]
  refine ⟨by simp [step, FileSource.remove], fun k hk => h.left k ((hiff k).1 hk), fun hnone => h.closed ?_⟩
  simpa only [hiff] using hnone

/-- each step does what the steps so far say it does -/
theorem Tracks.step (h : Tracks content history s) (x : Step) : Tracks content (history ++ [x]) (s.step x) := by
  cases x with
  | remove => exact h.remove
  | request r =>
    cases r with
    | start => exact h.start
    | next => exact h.next
    | finish => exact h.finish

theorem tracks_run (content : List UInt8) (history : List Step) : Tracks content history ((ofContent content).run history) := by
  induction history using List.reverseRecOn with
  | nil => exact tracks_ofContent content
  | append_singleton history x ih =>
    rw [run_concat]
    exact ih.step x

end Tracks

/-! ## Removal -/

theorem nextLine_congr {t : FileSource} (h : s.handle = t.handle) :
    (LineSource.nextLine s).1 = (LineSource.nextLine t).1 ∧
      (LineSource.nextLine s).2.handle = (LineSource.nextLine t).2.handle := by
  cases hhandle : t.handle with
  | none =>
    rw [nextLine_of_closed (h.trans hhandle), nextLine_of_closed hhandle]
    exact ⟨rfl, h⟩
  | some handle =>
    simp only [LineSource.nextLine, h, hhandle, and_self]

/-- what a step that does not open the file does to an open handle depends on that handle only -/
theorem handle_step_congr {t : FileSource} (h : s.handle = t.handle) {x : Step} (hx : x ≠ .request .start) :
    (s.step x).handle = (t.step x).handle := by
  cases x with
  | remove => exact h
  | request r =>
    cases r with
    | start => exact absurd rfl hx
    | next => exact (nextLine_congr h).2
    | finish => rfl

theorem handle_run_congr {t : FileSource} (h : s.handle = t.handle) {later : List Step} (hlater : .request .start ∉ later) :
    (s.run later).handle = (t.run later).handle := by
  induction later generalizing s t with
  | nil => exact h
  | cons x later ih =>
    rw [List.mem_cons, not_or] at hlater
    exact ih (handle_step_congr h (Ne.symm hlater.1)) hlater.2

/-- **What a file gives after any steps.** It is not open when no opening has succeeded since the start or the last closing.
Otherwise the answer to the request with number `k` since the last opening that succeeded, counted from 0, is what the piece
with that number gives, whatever the other pieces hold. An opening succeeds just when the file has not been removed, and one
that fails changes nothing; a removal does not show until the next opening. -/
theorem nextLine_run (content : List UInt8) (history : List Step) :
    Cut (· == 10) (pieces (· == 10) content) content ∧
    ((nextLine ((ofContent content).run history)).1 = .error .notOpen ↔ ¬IsOpen history) ∧
    (IsOpen history → ∃ k, SinceOpen history k) ∧
    (∀ k, SinceOpen history k → ∀ answer, (nextLine ((ofContent content).run history)).1 = answer ↔
      LineOf (pieces (· == 10) content)[k]? answer) ∧
    (.remove ∉ history → (start ((ofContent content).run history)).1 = .ok ()) ∧
    (.remove ∈ history → start ((ofContent content).run history) =
      (.error (.io .notFound), (ofContent content).run history)) ∧
    ∀ later, .request .start ∉ later → (nextLine ((ofContent content).run (history ++ .remove :: later))).1 =
      (nextLine ((ofContent content).run (history ++ later))).1 := by
  have htracks := tracks_run content history
  have hanswer (k : Nat) (hk : SinceOpen history k) : (nextLine ((ofContent content).run history)).1 =
      lineOfPiece (pieces (· == 10) content)[k]? := by
    rw [(htracks.left k hk).nextLine.1, List.head?_drop]
  refine ⟨cut_pieces _ content, ?_, exists_sinceOpen_iff.2, fun k hk answer => ?_, fun hthere => ?_, fun hgone => ?_,
    fun later hlater => ?_⟩
  · rw [← exists_sinceOpen_iff]
    constructor
    · rintro hnotOpen ⟨k, hk⟩
      exact lineOfPiece_ne_notOpen _ ((hanswer k hk).symm.trans hnotOpen)
    · intro hclosed
      rw [nextLine_of_closed (htracks.closed hclosed)]
  · rw [lineOf_iff, hanswer k hk]
  · exact start_of_file (htracks.disk.trans (if_neg hthere))
  · have hdisk := htracks.disk.trans (if_pos hgone)
    simp only [start, hdisk]
  · refine (nextLine_congr ?_).1
    rw [run_append, run_append, run_cons]
    have hsame : (((ofContent content).run history).step .remove).handle = ((ofContent content).run history).handle := rfl
    exact handle_run_congr hsame hlater

/-- the second line is no text, and the file is gone before it is opened again; the third line is given all the same -/
theorem nextLine_run_sample :
    SinceOpen [.request .start, .request .next, .request .next, .remove, .request .start] 2 ∧
    (nextLine ((ofContent [97, 10, 0xFF, 10, 98, 13, 10]).run
      [.request .start, .request .next, .request .next, .remove, .request .start])).1 = .ok "b" := by
  have hbefore : SinceOpen [.request .start, .request .next, .request .next, .remove] 2 := by
    refine ⟨[], [.request .next, .request .next, .remove], rfl, by decide, by decide, fun front back h => ?_, rfl⟩
    have hstart : Step.request .start ∈ [.request .next, .request .next, .remove] := by simp [h]
    simp at hstart
  have hsince : SinceOpen ([.request .start, .request .next, .request .next, .remove] ++ [.request .start]) 2 :=
    sinceOpen_concat_start_iff.2 (.inr ⟨by decide, hbefore⟩)
  have hcut : Cut (· == (10 : UInt8)) [[97] ++ [10], [0xFF] ++ [10], [98, 13] ++ [10]]
      ([97] ++ 10 :: ([0xFF] ++ 10 :: ([98, 13] ++ 10 :: []))) :=
    .ended (by simp) rfl (.ended (by simp) rfl (.ended (by simp) rfl .nil))
  have hpieces : pieces (· == 10) [97, 10, 0xFF, 10, 98, 13, 10] = [[97, 10], [0xFF, 10], ([98, 13, 10] : List UInt8)] :=
    hcut.pieces_eq
  have hstrips : Strips "b\r\n".toList "b".toList := (Strips.both : Strips (['b'] ++ ['\r', '\n']) ['b'])
  have hline : LineOf (some [98, 13, 10]) (.ok "b") := .line hstrips
  refine ⟨hsince, ((nextLine_run [97, 10, 0xFF, 10, 98, 13, 10] _).2.2.2.1 2 hsince _).2 ?_⟩
  rw [hpieces]
  exact hline

end FileSource

end CfgMembership
