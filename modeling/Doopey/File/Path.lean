import Mathlib.Data.List.Basic
import Doopey.Common.Base

/-!
# Splitting paths at their last slash

`addFile` cuts a path at the last `'/'`. The part behind it is the name; the
part before it is the directory, except that a slash in front of everything
stands for the root itself.
-/

namespace Doopey

/-- `find_last_of` with a single character; `none` is `npos`. -/
def findLastOf (c : UInt8) : Bytes → Option Nat
  | [] => none
  | b :: rest =>
      match findLastOf c rest with
      | some i => some (i + 1)
      | none => if b = c then some 0 else none

/-- The key of the root directory. -/
abbrev rootPath : Bytes := [slash]

/-- The directory `addFile` looks up for a path; `none` if the path has no slash. -/
def dirOf (path : Bytes) : Option Bytes :=
  match findLastOf slash path with
  | none => none
  | some 0 => some rootPath
  | some (i + 1) => some (path.take (i + 1))

/-- `FileTree::getFileName`. Without a slash, `npos + 1` wraps around to `0`. -/
def getFileName (path : Bytes) : Bytes :=
  match findLastOf slash path with
  | none => path
  | some i => path.drop (i + 1)

theorem findLastOf_eq_none_iff {c : UInt8} {path : Bytes} :
    findLastOf c path = none ↔ c ∉ path := by
  induction path with
  | nil => simp [findLastOf]
  | cons b rest ih =>
      cases hrest : findLastOf c rest with
      | some i =>
          have hmem : c ∈ rest := by
            by_contra hnot
            simp [ih.mpr hnot] at hrest
          simp [findLastOf, hrest, hmem]
      | none =>
          have hnot := ih.mp hrest
          simp [findLastOf, hrest, hnot, eq_comm]

theorem findLastOf_split {c : UInt8} (pre : Bytes) {name : Bytes} (hname : c ∉ name) :
    findLastOf c (pre ++ c :: name) = some pre.length := by
  induction pre with
  | nil => simp [findLastOf, findLastOf_eq_none_iff.mpr hname]
  | cons b pre ih => simp [findLastOf, ih]

theorem exists_split_of_mem {c : UInt8} {path : Bytes} (hmem : c ∈ path) :
    ∃ pre name, path = pre ++ c :: name ∧ c ∉ name := by
  induction path with
  | nil => simp at hmem
  | cons b rest ih =>
      by_cases hrest : c ∈ rest
      · obtain ⟨pre, name, rfl, hname⟩ := ih hrest
        exact ⟨b :: pre, name, rfl, hname⟩
      · obtain rfl : c = b := by simpa [hrest] using hmem
        exact ⟨[], rest, rfl, hrest⟩

/-- The directory named by the part of a path before its last slash. -/
def dirKey (pre : Bytes) : Bytes := if pre = [] then rootPath else pre

theorem dirOf_split (pre : Bytes) {name : Bytes} (hname : slash ∉ name) :
    dirOf (pre ++ slash :: name) = some (dirKey pre) := by
  unfold dirOf dirKey
  rw [findLastOf_split pre hname]
  cases pre with
  | nil => rfl
  | cons b pre => simp

@[simp] theorem getFileName_split (pre : Bytes) {name : Bytes} (hname : slash ∉ name) :
    getFileName (pre ++ slash :: name) = name := by
  simp [getFileName, findLastOf_split pre hname]

/-- A path has a directory exactly if it splits at a last slash. -/
theorem dirOf_eq_some_iff {path dir : Bytes} :
    dirOf path = some dir ↔
      ∃ pre name, path = pre ++ slash :: name ∧ slash ∉ name ∧ dir = dirKey pre := by
  constructor
  · intro hdir
    have hmem : slash ∈ path := by
      by_contra hnot
      simp [dirOf, findLastOf_eq_none_iff.mpr hnot] at hdir
    obtain ⟨pre, name, rfl, hname⟩ := exists_split_of_mem hmem
    rw [dirOf_split pre hname] at hdir
    exact ⟨pre, name, rfl, hname, (Option.some.inj hdir).symm⟩
  · rintro ⟨pre, name, rfl, hname, rfl⟩
    exact dirOf_split pre hname

/-- Away from the root, the directory of a path is a shorter path. -/
theorem length_dirOf_lt {path dir : Bytes} (hdir : dirOf path = some dir)
    (hroot : path ≠ rootPath) : dir.length < path.length := by
  obtain ⟨pre, name, rfl, _, rfl⟩ := dirOf_eq_some_iff.mp hdir
  unfold dirKey
  split
  next hpre =>
    subst hpre
    have hname : name ≠ [] := fun heq => hroot (by rw [heq]; rfl)
    have := List.length_pos_iff.mpr hname
    simp only [List.nil_append, List.length_cons, List.length_nil]
    omega
  next =>
    simp only [List.length_append, List.length_cons]
    omega

end Doopey
