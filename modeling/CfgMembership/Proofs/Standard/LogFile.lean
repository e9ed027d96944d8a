/-
What opening a log file leaves as it is.

Opening makes nothing but the file itself when the directory that it goes into is there (`openForAppending_cases`), so that
paths that name other places lead where they did (`opensQuietly_standard`).
-/
import Mathlib.Data.List.TakeWhile
import CfgMembership.Proofs.Files
import CfgMembership.Proofs.CommandLine.Libraries
import CfgMembership.Standard

namespace CfgMembership

namespace Files

variable {files : Files} {place : Place} {node : Node} {path : String}

/-! ## Making directories -/

section Split

/-- the first part of a path is empty if a slash comes first, and begins like the path otherwise -/
theorem split_eq_cons (cs : List Char) : ∃ part parts, split cs = part :: parts ∧
    part.head? = if cs.head? = some '/' then none else cs.head? := by
  cases cs with
  | nil => exact ⟨[], [], rfl, rfl⟩
  | cons c rest =>
    unfold split
    by_cases hc : c = '/'
    · exact ⟨[], split rest, by rw [if_pos hc], by simp [hc]⟩
    · rw [if_neg hc]
      split
      · exact ⟨[c], [], rfl, by simp [hc]⟩
      · rename_i part parts _
        exact ⟨c :: part, parts, rfl, by simp [hc]⟩

/-- the directory above is named by the first parts of a path, up to one that leads somewhere -/
theorem exists_parent_eq (path : String) : ∃ parts, parts <+: steps path ∧ parent path = "/".intercalate parts ∧
    ∀ part, parts.getLast? = some part → isIdle part = false := by
  refine ⟨_, ?_, rfl, fun part hpart => ?_⟩
  · rw [← List.reverse_suffix, List.reverse_reverse]
    exact (List.dropWhile_suffix _).trans ((List.drop_suffix _ _).trans (List.dropWhile_suffix _))
  · rw [List.getLast?_reverse] at hpart
    have hnot := List.head?_dropWhile_not isIdle (((steps path).reverse.dropWhile isIdle).drop 1)
    rw [hpart] at hnot
    simpa using hnot

/-- the directory above sets out where the path does -/
theorem origin_parent (h : parent path ≠ "") : origin (parent path) = origin path := by
  obtain ⟨parts, hprefix, hparent, hlast⟩ := exists_parent_eq path
  obtain ⟨part, others, hsplit, hhead⟩ := split_eq_cons path.toList
  rw [steps, hsplit] at hprefix
  cases parts with
  | nil => exact absurd hparent h
  | cons first parts =>
    obtain rfl : first = String.ofList part := by simpa using (List.cons_prefix_cons.1 hprefix).1
    rw [hparent]
    have hiff : ("/".intercalate (String.ofList part :: parts)).toList.head? = some '/' ↔ path.toList.head? = some '/' := by
      cases part with
      | cons c part =>
        -- a part with a character in it comes first, so no slash does
        have hfirst : ("/".intercalate (String.ofList (c :: part) :: parts)).toList.head? = some c := by
          cases parts <;> simp
        rw [hfirst, ← List.head?_cons, hhead]
        split <;> simp_all
      | nil =>
        have hslash : path.toList.head? = some '/' := by
          by_contra hno
          rw [if_neg hno, List.head?_nil, eq_comm, List.head?_eq_none_iff, String.toList_eq_nil_iff] at hhead
          rw [hhead] at h
          exact h (by decide)
        cases parts with
        | nil =>
          have hidle := hlast "" rfl
          simp [isIdle] at hidle
        | cons other parts => simp [hslash]
    simp only [origin, hiff]

end Split

section Directories

variable {start : Place} {steps : List String}

theorem enter_of_isIdle {step : String} (h : isIdle step = true) : enter start step = start := by
  unfold enter
  rw [if_pos (by simpa [isIdle] using h)]

/-- the way to a directory leads through directories -/
theorem at?_of_walk (hwalk : files.walk start steps = .ok place) (hdirectory : files.at? place = some .directory) :
    files.at? start = some .directory := by
  cases steps with
  | nil =>
    rw [Except.ok.inj hwalk]
    exact hdirectory
  | cons step steps =>
    rw [walk] at hwalk
    rcases hstart : files.at? start with _ | (content | _)
    · simp [hstart] at hwalk
    · simp [hstart] at hwalk
    · rfl

/-- on the way to a directory nothing is to be made -/
theorem makeDirectories_of_walk (hwalk : files.walk start steps = .ok place)
    (hdirectory : files.at? place = some .directory) :
    files.makeDirectories start (steps.filter (!isIdle ·)) = .ok files := by
  induction steps generalizing start with
  | nil => rfl
  | cons step steps ih =>
    have hstart := at?_of_walk hwalk hdirectory
    rw [walk, hstart] at hwalk
    simp only at hwalk
    split at hwalk
    · cases hwalk
    · rename_i hlimit
      by_cases hidle : isIdle step = true
      · rw [List.filter_cons_of_neg (by simp [hidle])]
        rw [enter_of_isIdle hidle] at hwalk
        exact ih hwalk
      · rw [List.filter_cons_of_pos (by simp [hidle]), makeDirectories]
        simp only [if_neg hlimit, at?_of_walk hwalk hdirectory]
        exact ih hwalk

end Directories

theorem makeParents_of_parentExists (h : files.ParentExists path) : files.makeParents path = .ok files := by
  unfold makeParents
  split
  · rfl
  · rename_i hparent
    obtain ⟨place, hlocate, hdirectory⟩ := find_eq_ok_iff.1 (h.resolve_left hparent)
    rcases hfault : pathFault? (parent path) with _ | error
    · simp only [locate, hfault, origin_parent hparent] at hlocate
      exact makeDirectories_of_walk hlocate hdirectory
    · simp [locate, hfault] at hlocate

/-- opening a file gives the files as they were, or with one more file, an empty one -/
theorem openForAppending_cases {files' : Files} (hparent : files.ParentExists path)
    (hopen : files.openForAppending path = .ok (place, files')) :
    files' = files ∨ files.at? place = none ∧ files' = files.put place (.file []) := by
  unfold openForAppending at hopen
  rw [makeParents_of_parentExists hparent] at hopen
  simp only [bind, Except.bind, pure, Except.pure, throw, throwThe, MonadExceptOf.throw] at hopen
  split at hopen
  · cases hopen
  · split at hopen
    · cases hopen
    · split at hopen
      · cases hopen
      · split at hopen
        · cases hopen
        · cases hopen
          exact .inl rfl
        · rename_i hnode
          cases hopen
          exact .inr ⟨hnode, rfl⟩

/-- opening a file in a directory that is there does not change where the paths to other places lead -/
theorem find_openForAppending {files' : Files} (hparent : files.ParentExists path)
    (hopen : files.openForAppending path = .ok (place, files')) {path' : String} (h : files'.locate path' ≠ .ok place) :
    files'.find path' = .ok node ↔ files.find path' = .ok node := by
  rcases openForAppending_cases hparent hopen with rfl | ⟨hnew, rfl⟩
  · rfl
  · rw [Ne, locate_put_eq_ok_iff hnew] at h
    exact find_put_eq_ok_iff hnew h

end Files

namespace CommandLine.Libraries

theorem opensQuietly_standard : standard.OpensQuietly := by
  intro files files' path path' channel node hparent hopen hother
  simp only [standard, Standard.openLog] at hopen
  split at hopen
  · -- a device is there already
    cases hopen
    rfl
  · split at hopen
    · cases hopen
    · rename_i hopened
      cases hopen
      exact Files.find_openForAppending hparent hopened (hother _ rfl)

end CommandLine.Libraries

end CfgMembership
