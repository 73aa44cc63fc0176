import Mathlib.Logic.Function.Basic

namespace KOs.Data

open Function

/-! Frames of words, and a table of tables in them.

Some words of a directory point at other frames, the tables; at the indices `i` and `j` is the word `j` of
the table that the word `i` points at.  As long as the tables are apart from the directory and from each
other, a word that is written into a table is found at its two indices and nowhere else.
-/

variable {F I W : Type*}

/-- The word at the indices `i` and `j`, if there is a table for it. -/
def lookupWord (points : W → Option F) (dir : F) (words : F → I → W) (i j : I) : Option W :=
  (points (words dir i)).map (fun table => words table j)

/-- The words of `dir` at the indices `inside` point at tables of their own. -/
structure Directory (points : W → Option F) (inside : I → Prop) (dir : F) (words : F → I → W) : Prop where
  apart : ∀ i table, inside i → points (words dir i) = some table → table ≠ dir
  distinct : ∀ i j table, inside i → inside j → points (words dir i) = some table →
    points (words dir j) = some table → i = j

theorem Directory.of_same {points : W → Option F} {inside : I → Prop} {dir : F} {words after : F → I → W}
    (directory : Directory points inside dir words) (same : ∀ k, inside k → after dir k = words dir k) :
    Directory points inside dir after := by
  refine ⟨fun k table here found => ?_, fun k l table here there found again => ?_⟩
  · rw [same k here] at found
    exact directory.apart k _ here found
  · rw [same k here] at found
    rw [same l there] at again
    exact directory.distinct k l _ here there found again

variable [DecidableEq F] [DecidableEq I]

def putWord (words : F → I → W) (frame : F) (index : I) (word : W) : F → I → W :=
  Function.update words frame (Function.update (words frame) index word)

variable {words : F → I → W} {word : W}

section Put

variable {frame other : F} {index place : I}

@[simp] theorem putWord_here : putWord words frame index word frame index = word := by
  simp [putWord]

@[simp] theorem putWord_beside (apart : place ≠ index) : putWord words frame index word frame place = words frame place := by
  simp [putWord, update_of_ne apart]

@[simp] theorem putWord_elsewhere (apart : other ≠ frame) : putWord words frame index word other = words other :=
  update_of_ne apart ..

theorem putWord_apply : putWord words frame index word other place =
    if other = frame ∧ place = index then word else words other place := by
  by_cases here : other = frame
  · subst here
    simp [putWord, update_apply]
  · simp [here]

theorem putWord_self (same : words frame index = word) : putWord words frame index word = words := by
  rw [putWord, ← same, update_eq_self, update_eq_self]

end Put

/-- A new table, filled with `blank`, with one word written. -/
def withTable (words : F → I → W) (dir table : F) (i j : I) (entry blank word : W) : F → I → W :=
  putWord (putWord (Function.update words table (fun _ => blank)) dir i entry) table j word

namespace Directory

variable {points : W → Option F} {inside : I → Prop} {dir table : F} {i j k l : I} {entry blank : W}

section

variable (directory : Directory points inside dir words) (here : inside i) (found : points (words dir i) = some table)
include directory here found

theorem set : Directory points inside dir (putWord words table j word) := by
  apply directory.of_same
  intro k _
  rw [putWord_elsewhere (directory.apart i _ here found).symm]

theorem lookup_set (there : inside k) :
    lookupWord points dir (putWord words table j word) k l =
      if k = i ∧ l = j then some word else lookupWord points dir words k l := by
  have apart := directory.apart i table here found
  simp only [lookupWord, putWord_elsewhere apart.symm]
  by_cases same : k = i
  · subst same
    by_cases place : l = j
    · simp [found, place]
    · simp [found, place]
  · rw [if_neg fun both => same both.1]
    cases other : points (words dir k) with
    | none => rfl
    | some second =>
      have ne : second ≠ table := by
        rintro rfl
        exact same (directory.distinct k i _ there here other found)
      simp [putWord_elsewhere ne]

end

section Grow

variable (directory : Directory points inside dir words) (fresh : table ≠ dir)
  (unused : ∀ k, inside k → points (words dir k) ≠ some table) (names : points entry = some table)

theorem withTable_dir (fresh : table ≠ dir) :
    withTable words dir table i j entry blank word dir k = if k = i then entry else words dir k := by
  rw [withTable, putWord_elsewhere fresh.symm, putWord_apply, update_of_ne fresh.symm]
  simp

theorem withTable_table (fresh : table ≠ dir) :
    withTable words dir table i j entry blank word table k = if k = j then word else blank := by
  rw [withTable, putWord_apply, putWord_elsewhere fresh, update_self]
  simp

theorem withTable_other {other : F} (first : other ≠ dir) (second : other ≠ table) :
    withTable words dir table i j entry blank word other = words other := by
  rw [withTable, putWord_elsewhere second, putWord_elsewhere first, update_of_ne second]

include directory fresh unused names

theorem grow : Directory points inside dir (withTable words dir table i j entry blank word) := by
  refine ⟨fun k other here found => ?_, fun k l other here there found again => ?_⟩
  · rw [withTable_dir fresh] at found
    split at found
    · rw [names] at found
      exact Option.some.inj found ▸ fresh
    · exact directory.apart k _ here found
  · rw [withTable_dir fresh] at found again
    split at found
    next first =>
      split at again
      next second =>
        rw [first, second]
      · rw [names] at found
        cases found
        exact absurd again (unused l there)
    · split at again
      · rw [names] at again
        cases again
        exact absurd found (unused k here)
      · exact directory.distinct k l _ here there found again

theorem lookup_grow (there : inside k) :
    lookupWord points dir (withTable words dir table i j entry blank word) k l =
      if k = i then some (if l = j then word else blank) else lookupWord points dir words k l := by
  rw [lookupWord, withTable_dir fresh]
  split
  · simp [names, withTable_table fresh]
  · rw [lookupWord]
    cases found : points (words dir k) with
    | none => rfl
    | some other =>
      have old : other ≠ table := by
        rintro rfl
        exact unused k there found
      simp [withTable_other (directory.apart k _ there found) old]

end Grow

end Directory

end KOs.Data
