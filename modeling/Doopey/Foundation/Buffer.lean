import Mathlib.Data.List.Basic

/-!
# Parts of a buffer

Reading a part of a sequence at an offset and overwriting one. A write inside the
buffer keeps its length, is read back, and leaves every other part alone.
-/

namespace Foundation

variable {α : Type*}

/-- `size` elements from `offset` on. -/
def part (data : List α) (offset size : Nat) : List α := (data.drop offset).take size

/-- Overwrite the elements from `offset` on. -/
def overwrite (data : List α) (offset : Nat) (bytes : List α) : List α :=
  data.take offset ++ bytes ++ data.drop (offset + bytes.length)

variable {data bytes : List α} {offset : Nat}

theorem length_part {size : Nat} (hinside : offset + size ≤ data.length) :
    (part data offset size).length = size := by
  rw [part, List.length_take, List.length_drop]
  omega

@[simp] theorem length_overwrite (hinside : offset + bytes.length ≤ data.length) :
    (overwrite data offset bytes).length = data.length := by
  rw [overwrite, List.length_append, List.length_append, List.length_take, List.length_drop]
  omega

theorem part_append_left (data rest : List α) : part (data ++ rest) 0 data.length = data :=
  List.take_left

theorem part_append_right (data rest : List α) (offset size : Nat) :
    part (data ++ rest) (data.length + offset) size = part rest offset size := by
  rw [part, ← List.drop_drop, List.drop_left, part]

/-- A part between others. -/
theorem part_append_middle (front middle rest : List α) {offset size : Nat}
    (hoffset : offset = front.length) (hsize : size = middle.length) :
    part (front ++ middle ++ rest) offset size = middle := by
  subst hoffset hsize
  rw [List.append_assoc]
  exact (part_append_right front _ 0 _).trans (part_append_left middle rest)

/-- A part is made of two that follow each other. -/
theorem part_add (data : List α) (offset size size' : Nat) :
    part data offset (size + size') = part data offset size ++ part data (offset + size) size' := by
  rw [part, List.take_add, List.drop_drop, part, part]

/-- A part is what two others are made of if each of them is in its place. -/
theorem part_eq_append_iff {data front rest : List α} {offset size size' : Nat}
    (hsize : front.length = size) (hinside : offset + size ≤ data.length) :
    part data offset (size + size') = front ++ rest ↔
      part data offset size = front ∧ part data (offset + size) size' = rest := by
  rw [part_add]
  constructor
  · intro heq
    exact List.append_inj heq ((length_part hinside).trans hsize.symm)
  · rintro ⟨hfront, hrest⟩
    rw [hfront, hrest]

/-- A part inside the front. -/
theorem part_append_of_le {offset size : Nat} (hinside : offset + size ≤ data.length)
    (rest : List α) : part (data ++ rest) offset size = part data offset size := by
  rw [part, List.drop_append_of_le_length (by omega), List.take_append_of_le_length, part]
  rw [List.length_drop]
  omega

/-- A part of a part. -/
theorem part_part (data : List α) (start : Nat) {offset size bound : Nat}
    (hinside : offset + size ≤ bound) :
    part (part data start bound) offset size = part data (start + offset) size := by
  rw [part, part, part, List.drop_take, List.drop_drop, List.take_take, Nat.min_eq_left (by omega)]

theorem drop_overwrite (hinside : offset + bytes.length ≤ data.length) :
    (overwrite data offset bytes).drop offset = bytes ++ data.drop (offset + bytes.length) := by
  have htake : (data.take offset).length = offset := by
    rw [List.length_take]
    omega
  rw [overwrite, List.append_assoc, List.drop_left' htake]

/-- What was written is read back. -/
theorem part_overwrite (hinside : offset + bytes.length ≤ data.length) :
    part (overwrite data offset bytes) offset bytes.length = bytes := by
  rw [part, drop_overwrite hinside, List.take_left]

/-- A part in front of the written one stays. -/
theorem part_overwrite_of_le {offset' size : Nat}
    (hinside : offset + bytes.length ≤ data.length) (hbefore : offset' + size ≤ offset) :
    part (overwrite data offset bytes) offset' size = part data offset' size := by
  have htake : offset' ≤ (data.take offset).length := by
    rw [List.length_take]
    omega
  rw [part, part, overwrite, List.append_assoc, List.drop_append_of_le_length htake,
    List.take_append_of_le_length, List.drop_take, List.take_take]
  · congr 1
    omega
  · rw [List.length_drop, List.length_take]
    omega

/-- A part behind the written one stays. -/
theorem part_overwrite_of_ge {offset' size : Nat}
    (hinside : offset + bytes.length ≤ data.length) (hbehind : offset + bytes.length ≤ offset') :
    part (overwrite data offset bytes) offset' size = part data offset' size := by
  obtain ⟨gap, rfl⟩ := Nat.exists_eq_add_of_le hbehind
  have hdrop : (overwrite data offset bytes).drop (offset + bytes.length + gap) =
      data.drop (offset + bytes.length + gap) := by
    rw [Nat.add_assoc, ← List.drop_drop, drop_overwrite hinside, ← List.drop_drop (i := gap),
      List.drop_left, List.drop_drop]
    congr 1
    omega
  rw [part, hdrop, part]

/-- What stands where after a write. -/
theorem getElem?_overwrite (hinside : offset + bytes.length ≤ data.length) (i : Nat) :
    (overwrite data offset bytes)[i]? =
      if offset ≤ i ∧ i < offset + bytes.length then bytes[i - offset]? else data[i]? := by
  have htake : (data.take offset).length = offset := by
    rw [List.length_take]
    omega
  rw [overwrite, List.append_assoc, List.getElem?_append, htake]
  by_cases hbefore : i < offset
  · rw [if_pos hbefore, if_neg (fun h => Nat.not_le.mpr hbefore h.1), List.getElem?_take_of_lt hbefore]
  · rw [if_neg hbefore, List.getElem?_append]
    by_cases hwritten : i - offset < bytes.length
    · rw [if_pos hwritten, if_pos (by omega)]
    · rw [if_neg hwritten, if_neg (by omega), List.getElem?_drop]
      congr 1
      omega

/-- A part is known by what stands at every place of it. -/
theorem part_eq_iff {data bytes : List α} {offset : Nat} :
    part data offset bytes.length = bytes ↔
      ∀ i < bytes.length, data[offset + i]? = bytes[i]? := by
  constructor
  · intro hpart i hi
    have hget := congrArg (·[i]?) hpart
    dsimp only [part] at hget
    rwa [List.getElem?_take_of_lt hi, List.getElem?_drop] at hget
  · intro hget
    apply List.ext_getElem?
    intro i
    rw [part]
    by_cases hi : i < bytes.length
    · rw [List.getElem?_take_of_lt hi, List.getElem?_drop, hget i hi]
    · rw [List.getElem?_take_eq_none (Nat.not_lt.mp hi), List.getElem?_eq_none (Nat.not_lt.mp hi)]

/-- Two writes that follow each other are one. -/
theorem overwrite_overwrite {more : List α}
    (hinside : offset + (bytes.length + more.length) ≤ data.length) :
    overwrite (overwrite data offset bytes) (offset + bytes.length) more =
      overwrite data offset (bytes ++ more) := by
  have hfirst : offset + bytes.length ≤ data.length := by omega
  apply List.ext_getElem?
  intro i
  rw [getElem?_overwrite (by rw [length_overwrite hfirst]; omega), getElem?_overwrite hfirst,
    getElem?_overwrite (by rw [List.length_append]; omega), List.length_append, List.getElem?_append]
  by_cases hmore : offset + bytes.length ≤ i ∧ i < offset + bytes.length + more.length
  · rw [if_pos hmore, if_pos (by omega), if_neg (by omega)]
    congr 1
    omega
  · rw [if_neg hmore]
    by_cases hbytes : offset ≤ i ∧ i < offset + bytes.length
    · rw [if_pos hbytes, if_pos (by omega), if_pos (by omega)]
    · rw [if_neg hbytes, if_neg (by omega)]

/-- A write into a part that was written. -/
theorem overwrite_overwrite_middle {front middle rest new : List α}
    (hinside : offset + (front.length + (middle.length + rest.length)) ≤ data.length)
    (hlength : new.length = middle.length) :
    overwrite (overwrite data offset (front ++ (middle ++ rest))) (offset + front.length) new =
      overwrite data offset (front ++ (new ++ rest)) := by
  have hall : offset + (front ++ (middle ++ rest)).length ≤ data.length := by
    simpa only [List.length_append] using hinside
  have hall' : offset + (front ++ (new ++ rest)).length ≤ data.length := by
    simpa only [List.length_append, hlength] using hinside
  apply List.ext_getElem?
  intro i
  rw [getElem?_overwrite (by rw [length_overwrite hall]; omega), getElem?_overwrite hall,
    getElem?_overwrite hall']
  simp only [List.length_append, List.getElem?_append, hlength]
  by_cases hnew : offset + front.length ≤ i ∧ i < offset + front.length + middle.length
  · rw [if_pos hnew, if_pos (by omega), if_neg (by omega), if_pos (by omega)]
    congr 1
    omega
  · rw [if_neg hnew]
    by_cases hwritten : offset ≤ i ∧ i < offset + (front.length + (middle.length + rest.length))
    · rw [if_pos hwritten, if_pos hwritten]
      by_cases hfront : i - offset < front.length
      · rw [if_pos hfront, if_pos hfront]
      · rw [if_neg hfront, if_neg hfront, if_neg (by omega), if_neg (by omega)]
    · rw [if_neg hwritten, if_neg hwritten]

/-- A write that starts where the known part of a buffer ends extends that part. -/
theorem overwrite_append (data rest bytes : List α) :
    overwrite (data ++ rest) data.length bytes = data ++ bytes ++ rest.drop bytes.length := by
  rw [overwrite, List.take_left, ← List.drop_drop, List.drop_left]

end Foundation
