import Doopey.Block.MetaBlock

/-!
# The layout of a meta block

Where the fields of a meta block lie in its memory once a name, a creation time
and a size are set up, how an ID is added behind the others, and how a meta block
is found again in memory that was saved and loaded.
-/

namespace Doopey

open Foundation

namespace MetaBlock

/-- The fields lie behind each other in the memory. -/
structure Laid (data fileName : Bytes) (time fileSize : UInt64) (ids : List BlockID) : Prop where
  length : data.length = blockSize
  inside : 8 + fileName.length + 24 + 8 * ids.length ≤ blockSize
  nameLength : part data 0 8 = bytesOf (.ofNat fileName.length)
  name : part data 8 fileName.length = fileName
  ctime : part data (8 + fileName.length) 8 = bytesOf time
  size : part data (8 + fileName.length + 8) 8 = bytesOf fileSize
  count : part data (8 + fileName.length + 16) 8 = bytesOf (.ofNat ids.length)
  entries (i : Nat) (id : BlockID) : ids[i]? = some id →
    part data (8 + fileName.length + 24 + 8 * i) 8 = bytesOf id

/-- The object points to these fields; without IDs it need not point to the list. -/
structure Describes (block : MetaBlock) (fileName : Bytes) (time fileSize : UInt64)
    (ids : List BlockID) : Prop where
  laid : Laid block.data fileName time fileSize ids
  filename : block.filename = some 8
  ctime : block.ctime = some (8 + fileName.length)
  size : block.size = some (8 + fileName.length + 8)
  lists : block.blockNumber = none ∧ block.firstBlockID = none ∧ ids = [] ∨
    block.blockNumber = some (8 + fileName.length + 16) ∧
      block.firstBlockID = some (8 + fileName.length + 24)

section Laid

variable {data fileName : Bytes} {time fileSize : UInt64} {ids : List BlockID}

theorem Laid.toNat_nameLength (h : Laid data fileName time fileSize ids) :
    (UInt64.ofNat fileName.length).toNat = fileName.length := by
  have hinside := h.inside
  rw [blockSize] at hinside
  rw [UInt64.toNat_ofNat', Nat.mod_eq_of_lt (by omega)]

theorem Laid.readUInt64_nameLength (h : Laid data fileName time fileSize ids) :
    readUInt64 data 0 = .ok (.ofNat fileName.length) :=
  readUInt64_of_part (by have := h.length; have := h.inside; omega) h.nameLength

/-- Memory that is laid out like this is that of a meta block. -/
theorem Laid.ofData (h : Laid data fileName time fileSize ids) (hname : fileName ≠ []) (id : BlockID) :
    ∃ block, MetaBlock.ofData data id = .ok block ∧ block.data = data ∧ block.id = id ∧
      block.Describes fileName time fileSize ids := by
  have hne : UInt64.ofNat fileName.length ≠ 0 := by
    intro hzero
    have htoNat := congrArg UInt64.toNat hzero
    rw [h.toNat_nameLength] at htoNat
    exact hname (List.length_eq_zero_iff.mp htoNat)
  refine ⟨⟨data, id, some 8, some (8 + fileName.length), some (8 + fileName.length + 8),
    some (8 + fileName.length + 16), some (8 + fileName.length + 24)⟩, ?_, rfl, rfl,
    ⟨h, rfl, rfl, rfl, Or.inr ⟨rfl, rfl⟩⟩⟩
  rw [MetaBlock.ofData, h.readUInt64_nameLength, ok_bind, if_neg hne, h.toNat_nameLength]

/-- Setting up an empty list leaves the fields in front of it. -/
theorem Laid.setupCount (h : Laid data fileName time fileSize []) :
    ∃ data', writeUInt64 data (8 + fileName.length + 16) 0 = .ok data' ∧
      Laid data' fileName time fileSize [] := by
  have hlength := h.length
  have hroom := h.inside
  have hinside : 8 + fileName.length + 16 + (bytesOf 0).length ≤ data.length := by
    rw [length_bytesOf]
    omega
  have hkeep {offset size : Nat} (hle : offset + size ≤ 8 + fileName.length + 16) :=
    part_overwrite_of_le hinside hle
  have hcount := part_overwrite hinside
  rw [length_bytesOf] at hcount
  exact ⟨_, if_pos hinside, (length_overwrite hinside).trans hlength, hroom,
    (hkeep (by omega)).trans h.nameLength, (hkeep (by omega)).trans h.name,
    (hkeep (by omega)).trans h.ctime, (hkeep (by omega)).trans h.size, hcount, by simp⟩

/-- One more entry and its count are written behind the other fields. -/
theorem Laid.append (h : Laid data fileName time fileSize ids) (id : BlockID)
    (hroom : 8 + fileName.length + 24 + 8 * (ids.length + 1) ≤ blockSize) :
    ∃ data₁ data₂,
      writeUInt64 data (8 + fileName.length + 16) (.ofNat ids.length + 1) = .ok data₁ ∧
      writeUInt64 data₁ (8 + fileName.length + 24 + 8 * ids.length) id = .ok data₂ ∧
      Laid data₂ fileName time fileSize (ids ++ [id]) := by
  have hinside₁ : 8 + fileName.length + 16 + (bytesOf (.ofNat ids.length + 1)).length ≤
      data.length := by
    rw [length_bytesOf, h.length]
    omega
  have hlength₁ := length_overwrite hinside₁
  have hinside₂ : 8 + fileName.length + 24 + 8 * ids.length + (bytesOf id).length ≤
      (overwrite data (8 + fileName.length + 16) (bytesOf (.ofNat ids.length + 1))).length := by
    rw [length_bytesOf, hlength₁, h.length]
    omega
  have hkeep {offset size : Nat} (hle : offset + size ≤ 8 + fileName.length + 16) :
      part (overwrite (overwrite data (8 + fileName.length + 16) (bytesOf (.ofNat ids.length + 1)))
        (8 + fileName.length + 24 + 8 * ids.length) (bytesOf id)) offset size =
        part data offset size := by
    rw [part_overwrite_of_le hinside₂ (by omega), part_overwrite_of_le hinside₁ hle]
  have hcount := part_overwrite hinside₁
  have hid := part_overwrite hinside₂
  rw [length_bytesOf] at hcount hid
  refine ⟨_, _, if_pos hinside₁, if_pos hinside₂,
    (length_overwrite hinside₂).trans (hlength₁.trans h.length), ?_,
    (hkeep (by omega)).trans h.nameLength, (hkeep (by omega)).trans h.name,
    (hkeep (by omega)).trans h.ctime, (hkeep (by omega)).trans h.size, ?_, ?_⟩
  · rw [List.length_append, List.length_singleton]
    exact hroom
  · rw [part_overwrite_of_le hinside₂ (by omega), hcount, List.length_append,
      List.length_singleton, UInt64.ofNat_add]
    rfl
  · intro i id' hentry
    by_cases hi : i < ids.length
    · rw [List.getElem?_append_left hi] at hentry
      rw [part_overwrite_of_le hinside₂ (by omega),
        part_overwrite_of_ge hinside₁ (by rw [length_bytesOf]; omega), h.entries i id' hentry]
    · have hlast : i < (ids ++ [id]).length := (List.getElem?_eq_some_iff.mp hentry).1
      rw [List.length_append, List.length_singleton] at hlast
      obtain rfl : i = ids.length := by omega
      rw [List.getElem?_concat_length, Option.some.injEq] at hentry
      rw [hid, hentry]

end Laid

section Describes

variable {block : MetaBlock} {fileName : Bytes} {time fileSize : UInt64} {ids : List BlockID}

theorem Describes.usable (h : block.Describes fileName time fileSize ids) : block.Usable ids where
  length := h.laid.length
  lists := by
    rcases h.lists with hnone | ⟨hnumber, hfirst⟩
    · exact Or.inl hnone
    · refine Or.inr ⟨8 + fileName.length + 16, hnumber, hfirst, ?_, h.laid.count, h.laid.entries⟩
      have hinside := h.laid.inside
      rw [h.laid.length]
      omega
  filename := by rw [h.filename, h.size]; rfl
  blockNumber := by simp [h.size]

theorem Describes.getFileName_eq (h : block.Describes fileName time fileSize ids) :
    block.getFileName = .ok fileName := by
  have hinside := h.laid.inside
  rw [getFileName, h.filename]
  dsimp only
  rw [h.laid.readUInt64_nameLength, ok_bind, h.laid.toNat_nameLength,
    readAt_of_le (by rw [h.laid.length]; omega), h.laid.name]

theorem Describes.getFileSize_eq (h : block.Describes fileName time fileSize ids) :
    block.getFileSize = .ok fileSize := by
  have hinside := h.laid.inside
  unfold getFileSize getField
  rw [h.size]
  exact readUInt64_of_part (by rw [h.laid.length]; omega) h.laid.size

/-- The object points to its list from here on. -/
theorem Describes.setupIDs (h : block.Describes fileName time fileSize ids) :
    ∃ data, block.setupIDs (8 + fileName.length + 8) = .ok
      ({ block with
        data := data
        blockNumber := some (8 + fileName.length + 16)
        firstBlockID := some (8 + fileName.length + 24) }, 8 + fileName.length + 16,
        8 + fileName.length + 24) ∧ Laid data fileName time fileSize ids := by
  unfold MetaBlock.setupIDs
  rcases h.lists with ⟨hnone, hnone', rfl⟩ | ⟨hsome, hsome'⟩
  · obtain ⟨data, hwrite, hlaid⟩ := h.laid.setupCount
    rw [hnone, hnone']
    refine ⟨data, ?_, hlaid⟩
    dsimp only
    rw [Nat.add_assoc _ 8 8, hwrite]
    rfl
  · rw [hsome, hsome']
    have hsame : block = { block with
        blockNumber := some (8 + fileName.length + 16)
        firstBlockID := some (8 + fileName.length + 24) } := by
      rw [← hsome, ← hsome']
    exact ⟨block.data, congrArg (fun block => Except.ok (block, _, _)) hsame, h.laid⟩

/-- One more ID, as long as there is room for it. -/
theorem Describes.addDataID (h : block.Describes fileName time fileSize ids) (id : BlockID)
    (hroom : 8 + fileName.length + 24 + 8 * (ids.length + 1) ≤ blockSize) :
    ∃ block', block.addDataID id = .ok (block', true) ∧ block'.id = block.id ∧
      block'.Describes fileName time fileSize (ids ++ [id]) := by
  have hids : (UInt64.ofNat ids.length).toNat = ids.length := h.usable.toNat_length
  obtain ⟨data, hsetup, hlaid⟩ := h.setupIDs
  obtain ⟨data₁, data₂, hwrite₁, hwrite₂, hlaid₂⟩ := hlaid.append id hroom
  refine ⟨⟨data₂, block.id, block.filename, block.ctime, block.size,
    some (8 + fileName.length + 16), some (8 + fileName.length + 24)⟩, ?_, rfl,
    ⟨hlaid₂, h.filename, h.ctime, h.size, Or.inr ⟨rfl, rfl⟩⟩⟩
  rw [MetaBlock.addDataID, h.size]
  dsimp only
  rw [hsetup, ok_bind]
  dsimp only
  rw [readUInt64_of_part (by rw [hlaid.length]; omega) hlaid.count, ok_bind, hwrite₁, ok_bind,
    hids, hwrite₂, ok_bind, h.size]

end Describes

end MetaBlock

end Doopey
