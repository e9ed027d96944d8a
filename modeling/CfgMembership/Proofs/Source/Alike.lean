/-
A text, and a file that holds it.

The lines of a text are found by cutting the text, those of a file by cutting its bytes and decoding each piece by itself.
Both give the same lines (`FileSource.gives_requests`, `TextSource.gives_requests`), and a reader learns from a source nothing
but its lines. So a grammar or queries may come from either (`TextSource.alike`).
-/
import CfgMembership.Proofs.Query
import CfgMembership.Proofs.Description.Grammar
import CfgMembership.Proofs.Source.File

namespace CfgMembership

open LineSource

/-! ## A text -/

namespace TextSource

theorem lines_request (s : TextSource) (r : Request) : (request s r).lines = s.lines := by
  cases r with
  | start => rfl
  | next =>
    simp only [request, nextLine]
    split <;> rfl
  | finish => rfl

theorem lines_requests (s : TextSource) (history : List Request) : (requests s history).lines = s.lines := by
  induction history generalizing s with
  | nil => rfl
  | cons r history ih => rw [requests_cons, ih, lines_request]

/-- a text gives all of its lines again once it is opened, whatever was asked of it before -/
theorem gives_requests (text : String) (history : List Request) :
    Gives (requests (ofText text) history) (ofText text).lines where
  opens := rfl
  lineAt_opened n := by
    rw [← lines_requests (ofText text) history]
    exact lineAt_eq _ _ n

end TextSource

/-! ## A file -/

namespace FileSource

theorem disk_requests (s : FileSource) (history : List Request) : (requests s history).disk = s.disk := by
  induction history generalizing s with
  | nil => rfl
  | cons r history ih => rw [requests_cons, ih, disk_request]

/-- the pieces of an encoded text are the lines of the text -/
theorem lineOfPiece_encode (text : String) (n : Nat) : lineOfPiece (Text.pieces (· == 10) text.toUTF8.data.toList)[n]? =
    ((TextSource.ofText text).lines[n]?).elim (.error .endOfInput) .ok := by
  rw [toList_toUTF8, Text.pieces_encode, TextSource.ofText, Text.lines]
  simp only [List.getElem?_map]
  cases (Text.pieces (· == '\n') text.toList)[n]? with
  | none => rfl
  | some piece =>
    simp only [Option.map_some, Option.elim_some, lineOfPiece]
    rw [← String.toList_ofList (l := piece), ← toList_toUTF8, lineOfBytes_toUTF8]

/-- a file gives all of its lines again once it is opened, whatever was asked of it before -/
theorem gives_requests (text : String) (history : List Request) :
    Gives (requests (ofContent text.toUTF8.data.toList) history) (TextSource.ofText text).lines := by
  have hdisk : (requests (ofContent text.toUTF8.data.toList) history).disk = .ok (.file text.toUTF8.data.toList) :=
    disk_requests _ history
  exact ⟨start_of_file hdisk, fun n => by rw [lineAt_opened hdisk, lineOfPiece_encode]⟩

end FileSource

/-! ## One for the other -/

namespace LineSource

variable {ς ς' : Type} [LineSource ς] [LineSource ς'] {s : ς} {t : ς'}

/-- sources that cannot be told apart by opening and reading them, nor by what a grammar or an answer is made of them -/
structure Alike (s : ς) (t : ς') : Prop where
  start : (start s).1 = (start t).1
  lineAt : ∀ n, lineAt (opened s) n = lineAt (opened t) n
  grammar : ∀ threshold, (Grammar.read threshold s).result = (Grammar.read threshold t).result ∧
    (Grammar.read threshold s).log = (Grammar.read threshold t).log
  answers : ∀ g threshold output, (Query.run g threshold s output).result = (Query.run g threshold t output).result ∧
    (Query.run g threshold s output).output = (Query.run g threshold t output).output ∧
    (Query.run g threshold s output).log = (Query.run g threshold t output).log

theorem alike_of_lineAt (hstart : (LineSource.start s).1 = (LineSource.start t).1)
    (hlines : ∀ n, LineSource.lineAt (opened s) n = LineSource.lineAt (opened t) n) : Alike s t where
  start := hstart
  lineAt := hlines
  grammar threshold := Grammar.read_congr threshold hstart hlines
  answers g threshold output := by
    obtain ⟨hresult, houtput, hlog⟩ := Query.run_congr g threshold threshold hstart hlines output
    exact ⟨hresult, houtput, hlog rfl⟩

theorem Gives.alike {lines : List String} (hs : Gives s lines) (ht : Gives t lines) : Alike s t :=
  alike_of_lineAt (hs.opens.trans ht.opens.symm) fun n => (hs.lineAt_opened n).trans (ht.lineAt_opened n).symm

end LineSource

namespace TextSource

theorem hasLines_ofText (text : String) : Text.HasLines text.toList ((ofText text).lines.map String.toList) := by
  rw [Text.hasLines_iff]
  simp [ofText, Function.comp_def]

/-- **A file is read as the text that it holds.** Whatever was asked of the two before, each can be opened, then gives the
lines of the text, and after them says for ever that it has ended. So the same grammar or the same fault is read from both,
and a run over either ends in the same way, writes the same and logs the same. -/
theorem alike_file (text : String) (textHistory fileHistory : List Request) :
    (∃ lines : List String, Text.HasLines text.toList (lines.map String.toList) ∧
      Gives (requests (ofText text) textHistory) lines ∧
      Gives (requests (FileSource.ofContent text.toUTF8.data.toList) fileHistory) lines) ∧
    Alike (requests (ofText text) textHistory) (requests (FileSource.ofContent text.toUTF8.data.toList) fileHistory) := by
  have htext := gives_requests text textHistory
  have hfile := FileSource.gives_requests text fileHistory
  exact ⟨⟨_, hasLines_ofText text, htext, hfile⟩, htext.alike hfile⟩

/-- a carriage return belongs to the terminator only right before a line feed -/
example : (ofText "a\r\r\n\n\rb\r").lines = ["a\r", "", "\rb\r"] := by cbv

end TextSource

end CfgMembership
