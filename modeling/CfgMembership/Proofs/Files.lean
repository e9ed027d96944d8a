/-
What a new file and appending to a file leave as they are.

Appending changes what lies at one place and turns no file into a directory, so that every path names the same place as
before (`locate_append`), and a path that names another place leads to the same node (`find_append`).

Where a file is put and nothing was before, a path that names another place leads to the same node as before, or to none as
before (`find_put_eq_ok_iff`). What is wrong with it may be something else: a way through the place of the new file was a way
through nothing, and now is one through a file.
-/
import CfgMembership.Files

namespace CfgMembership.Files

variable {files : Files} {place other : Place} {node : Node} {path : String}

theorem lookup_filter_ne {entries : List (Place × Node)} (h : other ≠ place) :
    (entries.filter (·.1 != place)).lookup other = entries.lookup other := by
  induction entries with
  | nil => rfl
  | cons entry entries ih =>
    obtain ⟨p, node⟩ := entry
    by_cases hp : p = place
    · have hother : (other == p) = false := by simpa [hp] using h
      rw [List.filter_cons_of_neg (by simp [hp]), ih, List.lookup_cons, hother]
    · rw [List.filter_cons_of_pos (by simpa using hp), List.lookup_cons, List.lookup_cons, ih]

theorem at?_put_of_ne (h : other ≠ place) : (files.put place node).at? other = files.at? other := by
  have hother : (other == place) = false := by simpa using h
  unfold at? put
  rw [List.lookup_cons, hother, lookup_filter_ne h]

theorem at?_put_self (h : ¬isOutside place) : (files.put place node).at? place = some node := by
  unfold at? put
  rw [if_neg h, List.lookup_cons_self]

/-! ## Appending -/

section Append

variable {bytes : List UInt8} {content : List UInt8}

theorem not_isOutside_of_file (h : files.at? place = some (.file content)) : ¬isOutside place := by
  intro houtside
  rw [at?, if_pos houtside] at h
  cases h

theorem at?_append_of_ne (h : other ≠ place) : (files.append place bytes).at? other = files.at? other := by
  unfold append
  split
  · exact at?_put_of_ne h
  · rfl

/-- what lies at a place is a file afterwards just when it was one before -/
theorem at?_append_self : (files.append place bytes).at? place =
    match files.at? place with
    | some (.file content) => some (.file (content ++ bytes))
    | node? => node? := by
  unfold append
  rcases hnode : files.at? place with _ | (content | _)
  · exact hnode
  · exact at?_put_self (not_isOutside_of_file hnode)
  · exact hnode

theorem walk_append (start : Place) (steps : List String) :
    (files.append place bytes).walk start steps = files.walk start steps := by
  induction steps generalizing start with
  | nil => rfl
  | cons step steps ih =>
    simp only [walk, ih]
    by_cases h : start = place
    · subst h
      rw [at?_append_self]
      cases files.at? start with
      | none => rfl
      | some node => cases node <;> rfl
    · rw [at?_append_of_ne h]

theorem locate_append (path : String) : (files.append place bytes).locate path = files.locate path := by
  unfold locate
  split
  · rfl
  · exact walk_append _ _

/-- appending to a file does not show at other places -/
theorem find_append (h : files.locate path ≠ .ok place) : (files.append place bytes).find path = files.find path := by
  unfold find
  rw [locate_append]
  split
  · rfl
  · rename_i other hother
    have hne : other ≠ place := by
      rintro rfl
      exact h hother
    rw [at?_append_of_ne hne]

end Append

/-! ## A new file -/

section New

variable {content : List UInt8}

theorem not_isOutside_of_none (h : files.at? place = none) : ¬isOutside place := by
  intro houtside
  rw [at?, if_pos houtside] at h
  cases h

/-- no way leads through a place where a file is put and nothing was before -/
theorem walk_put_eq_ok_iff {start goal : Place} {steps : List String} (hnew : files.at? place = none) :
    (files.put place (.file content)).walk start steps = .ok goal ↔ files.walk start steps = .ok goal := by
  induction steps generalizing start with
  | nil => rfl
  | cons step steps ih =>
    rw [walk, walk]
    by_cases hstart : start = place
    · subst hstart
      rw [hnew, at?_put_self (not_isOutside_of_none hnew)]
      simp
    · rw [at?_put_of_ne hstart]
      split
      · rfl
      · rfl
      · split
        · rfl
        · exact ih

theorem locate_put_eq_ok_iff (hnew : files.at? place = none) :
    (files.put place (.file content)).locate path = .ok other ↔ files.locate path = .ok other := by
  unfold locate
  split
  · rfl
  · exact walk_put_eq_ok_iff hnew

theorem find_eq_ok_iff : files.find path = .ok node ↔ ∃ place, files.locate path = .ok place ∧ files.at? place = some node := by
  unfold find
  cases files.locate path with
  | error error => simp
  | ok place => cases hnode : files.at? place <;> simp [hnode]

/-- a path that names another place than that of a new file leads where it did -/
theorem find_put_eq_ok_iff (hnew : files.at? place = none) (h : files.locate path ≠ .ok place) :
    (files.put place (.file content)).find path = .ok node ↔ files.find path = .ok node := by
  simp only [find_eq_ok_iff, locate_put_eq_ok_iff hnew]
  refine exists_congr fun other => and_congr_right fun hother => ?_
  have hne : other ≠ place := by
    rintro rfl
    exact h hother
  rw [at?_put_of_ne hne]

end New

def ParentExists (files : Files) (path : String) : Prop := parent path = "" ∨ files.find (parent path) = .ok .directory

end CfgMembership.Files
