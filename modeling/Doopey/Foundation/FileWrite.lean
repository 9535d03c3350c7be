import Doopey.Foundation.Buffer

/-!
# Writing files at offsets

`write` behind a `seek`: a gap in front of the written bytes is filled up. Writes
that agree where they overlap may be made in any order.
-/

namespace Foundation

variable {α : Type*} [Zero α]

/-- Write bytes at an offset of a file. Writing no bytes does not fill a gap. -/
def writeFile (file : List α) (offset : Nat) (bytes : List α) : List α :=
  if bytes = [] then file
  else overwrite (file ++ List.replicate (offset + bytes.length - file.length) 0) offset bytes

/-- Several writes, one after the other. -/
def writeAll (file : List α) (writes : List (Nat × List α)) : List α :=
  writes.foldl (fun file write => writeFile file write.1 write.2) file

/-- The write reaches the byte at an index. -/
def Covers (write : Nat × List α) (index : Nat) : Prop :=
  write.1 ≤ index ∧ index < write.1 + write.2.length

variable {file bytes : List α} {offset : Nat}

theorem length_writeFile_le {bound : Nat} (hfile : file.length ≤ bound)
    (hbytes : offset + bytes.length ≤ bound) : (writeFile file offset bytes).length ≤ bound := by
  unfold writeFile
  split
  next => exact hfile
  next =>
    have hlength : (file ++ List.replicate (offset + bytes.length - file.length) (0 : α)).length =
        file.length + (offset + bytes.length - file.length) := by
      rw [List.length_append, List.length_replicate]
    rw [length_overwrite (by omega), hlength]
    omega

/-- What was written is found in its place. -/
theorem getElem?_writeFile_of_covers {index : Nat} (hcovers : Covers (offset, bytes) index) :
    (writeFile file offset bytes)[index]? = bytes[index - offset]? := by
  obtain ⟨hle, hlt⟩ := hcovers
  dsimp only at hle hlt
  have hne : bytes ≠ [] := by
    rintro rfl
    simp at hlt
    omega
  have hinside : offset + bytes.length ≤
      (file ++ List.replicate (offset + bytes.length - file.length) (0 : α)).length := by
    rw [List.length_append, List.length_replicate]
    omega
  have hpart := part_overwrite hinside
  rw [writeFile, if_neg hne]
  conv_rhs => rw [← hpart]
  rw [part, List.getElem?_take_of_lt (by omega), List.getElem?_drop]
  congr 1
  omega

/-- A byte that is not written stays. -/
theorem getElem?_writeFile_of_not_covers {index : Nat} (hnot : ¬ Covers (offset, bytes) index)
    (hindex : index < file.length) : (writeFile file offset bytes)[index]? = file[index]? := by
  unfold writeFile
  split
  next => rfl
  next =>
    have hpad : ∀ rest : List α, (file ++ rest)[index]? = file[index]? :=
      fun rest => List.getElem?_append_left hindex
    have hlength : (file ++ List.replicate (offset + bytes.length - file.length) (0 : α)).length =
        file.length + (offset + bytes.length - file.length) := by
      rw [List.length_append, List.length_replicate]
    have hinside : offset + bytes.length ≤
        (file ++ List.replicate (offset + bytes.length - file.length) (0 : α)).length := by omega
    have hread (data : List α) : data[index]? = (part data index 1)[0]? := by
      rw [part, List.getElem?_take_of_lt Nat.zero_lt_one, List.getElem?_drop, Nat.add_zero]
    rw [hread, ← hpad (List.replicate (offset + bytes.length - file.length) 0), hread (file ++ _)]
    by_cases hle : offset ≤ index
    · rw [part_overwrite_of_ge hinside]
      exact Nat.le_of_not_lt fun hlt => hnot ⟨hle, hlt⟩
    · rw [part_overwrite_of_le hinside (by omega)]

theorem length_writeAll_le {writes : List (Nat × List α)} {bound : Nat}
    (hfile : file.length ≤ bound)
    (hwrites : ∀ write ∈ writes, write.1 + write.2.length ≤ bound) :
    (writeAll file writes).length ≤ bound := by
  induction writes generalizing file with
  | nil => exact hfile
  | cons write writes ih =>
      refine ih (length_writeFile_le hfile (hwrites write List.mem_cons_self)) ?_
      exact fun other hmem => hwrites other (List.mem_cons_of_mem _ hmem)

/-- If all writes that reach a byte agree on it, it has their value in the end. -/
theorem getElem?_writeAll {writes : List (Nat × List α)} {index : Nat} {value : α}
    (hagree : ∀ write ∈ writes, Covers write index → write.2[index - write.1]? = some value)
    (hcovers : file[index]? = some value ∨ ∃ write ∈ writes, Covers write index) :
    (writeAll file writes)[index]? = some value := by
  induction writes generalizing file with
  | nil => simpa [writeAll] using hcovers
  | cons write writes ih =>
      apply ih fun other hmem => hagree other (List.mem_cons_of_mem _ hmem)
      by_cases hhead : Covers write index
      · left
        rw [getElem?_writeFile_of_covers hhead]
        exact hagree write List.mem_cons_self hhead
      · rcases hcovers with hfile | ⟨other, hmem, hother⟩
        · left
          rw [getElem?_writeFile_of_not_covers hhead, hfile]
          exact (List.getElem?_eq_some_iff.mp hfile).1
        · right
          rcases List.mem_cons.mp hmem with rfl | hmem
          · exact absurd hother hhead
          · exact ⟨other, hmem, hother⟩

/-- Writes of parts of some contents that reach all of it produce the contents,
in whatever order they are made. -/
theorem writeAll_eq {content : List α} {writes : List (Nat × List α)}
    (hparts : ∀ write ∈ writes, write.1 + write.2.length ≤ content.length ∧
      write.2 = part content write.1 write.2.length)
    (hall : ∀ index < content.length, ∃ write ∈ writes, Covers write index) :
    writeAll [] writes = content := by
  have hlength : (writeAll [] writes).length ≤ content.length :=
    length_writeAll_le (Nat.zero_le _) fun write hmem => (hparts write hmem).1
  ext index value
  by_cases hindex : index < content.length
  · obtain ⟨write, hmem, hcovers⟩ := hall index hindex
    have hget := List.getElem?_eq_getElem hindex
    rw [getElem?_writeAll _ (Or.inr ⟨write, hmem, hcovers⟩), hget]
    intro other hother hcovers'
    obtain ⟨hle, hlt⟩ := hcovers'
    rw [(hparts other hother).2, part, List.getElem?_take_of_lt (by omega), List.getElem?_drop,
      Nat.add_sub_cancel' hle, hget]
  · rw [List.getElem?_eq_none (by omega), List.getElem?_eq_none (by omega)]

end Foundation
