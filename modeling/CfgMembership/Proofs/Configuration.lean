/-
What a configuration file is read as.

`ReadsAs` goes by what the path leads to: nothing, a directory, bytes that encode no text, a blank text, or one that is for
the settings in it to be made out. `read_eq_iff`: reading gives what the file is read as, and nothing else.
-/
import CfgMembership.Configuration
import CfgMembership.Proofs.Source.File
import CfgMembership.Proofs.Text.Blank

namespace CfgMembership.Configuration

/-- the configuration in a file, or why the file is of no use -/
inductive ReadsAs (deserialize : String → Except String Configuration) (files : Files) (path : String) :
    Except Fault Configuration → Prop where
  | missing {error : IoError} (found : files.find path = .error error) : ReadsAs deserialize files path (.error (.io error))
  | directory (found : files.find path = .ok .directory) : ReadsAs deserialize files path (.error (.io .isDirectory))
  | encoding {content : List UInt8} (found : files.find path = .ok (.file content))
    (noText : ∀ text : String, text.toUTF8.data.toList ≠ content) : ReadsAs deserialize files path (.error (.io .invalidText))
  | blank {text : String} (found : files.find path = .ok (.file text.toUTF8.data.toList))
    (blank : ∀ c ∈ text.toList, Text.isBlank c = true) : ReadsAs deserialize files path (.ok {})
  | settings {text : String} {c : Configuration} (found : files.find path = .ok (.file text.toUTF8.data.toList))
    (notBlank : ¬∀ c ∈ text.toList, Text.isBlank c = true) (settings : deserialize text = .ok c) :
    ReadsAs deserialize files path (.ok c)
  | malformed {text reason : String} (found : files.find path = .ok (.file text.toUTF8.data.toList))
    (notBlank : ¬∀ c ∈ text.toList, Text.isBlank c = true) (refused : deserialize text = .error reason) :
    ReadsAs deserialize files path (.error (.malformed reason))

variable {deserialize : String → Except String Configuration} {files : Files} {path : String}
  {result : Except Fault Configuration}

theorem readText_of_file {text : String} (h : files.find path = .ok (.file text.toUTF8.data.toList)) :
    files.readText path = .ok text := by
  simp only [Files.readText, h, decodeText?_toUTF8]

theorem ReadsAs.read_eq (h : ReadsAs deserialize files path result) : read deserialize files path = result := by
  cases h with
  | missing found => simp only [read, Files.readText, found]
  | directory found => simp only [read, Files.readText, found]
  | encoding found noText =>
    have hnone := Option.eq_none_iff_forall_ne_some.2 fun text htext => noText text (toUTF8_of_decodeText? htext)
    simp only [read, Files.readText, found, hnone]
  | blank found blank => simp only [read, readText_of_file found, parse, if_pos (Text.trimChars_eq_nil_iff.2 blank)]
  | settings found notBlank settings =>
    simp only [read, readText_of_file found, parse, if_neg (mt Text.trimChars_eq_nil_iff.1 notBlank), settings]
  | malformed found notBlank refused =>
    simp only [read, readText_of_file found, parse, if_neg (mt Text.trimChars_eq_nil_iff.1 notBlank), refused]

/-- a file is read as something, whatever it is -/
theorem exists_readsAs (deserialize : String → Except String Configuration) (files : Files) (path : String) :
    ∃ result, ReadsAs deserialize files path result := by
  rcases hfound : files.find path with error | content | _
  · exact ⟨_, .missing hfound⟩
  · by_cases htext : ∃ text : String, text.toUTF8.data.toList = content
    · obtain ⟨text, rfl⟩ := htext
      by_cases hblank : ∀ c ∈ text.toList, Text.isBlank c = true
      · exact ⟨_, .blank hfound hblank⟩
      · rcases hsettings : deserialize text with reason | c
        · exact ⟨_, .malformed hfound hblank hsettings⟩
        · exact ⟨_, .settings hfound hblank hsettings⟩
    · exact ⟨_, .encoding hfound (not_exists.1 htext)⟩
  · exact ⟨_, .directory hfound⟩

theorem read_eq_iff : read deserialize files path = result ↔ ReadsAs deserialize files path result := by
  refine ⟨fun h => ?_, ReadsAs.read_eq⟩
  obtain ⟨result', hreads⟩ := exists_readsAs deserialize files path
  rwa [← h, hreads.read_eq]

end CfgMembership.Configuration
