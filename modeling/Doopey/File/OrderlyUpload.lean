import Doopey.Block.MetaLayout
import Doopey.File.FileUploader
import Doopey.File.TreeLinks

/-!
# An upload in order

What `receiveFile` makes of the facts about a file, its data in pieces and the end
if they come in this order and every block can be saved.
-/

namespace Doopey

open Foundation

/-- The facts about a file as `MC_UpFileMeta` carries them. -/
def metaData (fileName : Bytes) (time fileSize : UInt64) : Bytes :=
  bytesOf (.ofNat fileName.length) ++ (fileName ++ (bytesOf time ++ bytesOf fileSize))

section MetaData

variable (fileName : Bytes) (time fileSize : UInt64)

theorem length_metaData : (metaData fileName time fileSize).length = 8 + fileName.length + 16 := by
  simp [metaData]
  omega

/-- The fields of `metaData` in front of other bytes. -/
theorem part_metaData (rest : Bytes) :
    part (metaData fileName time fileSize ++ rest) 0 8 = bytesOf (.ofNat fileName.length) ∧
      part (metaData fileName time fileSize ++ rest) 8 fileName.length = fileName ∧
      part (metaData fileName time fileSize ++ rest) (8 + fileName.length) 8 = bytesOf time ∧
      part (metaData fileName time fileSize ++ rest) (8 + fileName.length + 8) 8 =
        bytesOf fileSize ∧
      ∀ size, part (metaData fileName time fileSize ++ rest) (8 + fileName.length + 16) size =
        part rest 0 size := by
  have hskip (n : UInt64) (bytes : Bytes) (offset size : Nat) :
      part (bytesOf n ++ bytes) (8 + offset) size = part bytes offset size :=
    length_bytesOf n ▸ part_append_right (bytesOf n) bytes offset size
  have hfirst (n : UInt64) (bytes : Bytes) : part (bytesOf n ++ bytes) 0 8 = bytesOf n :=
    length_bytesOf n ▸ part_append_left (bytesOf n) bytes
  simp only [metaData, List.append_assoc]
  refine ⟨hfirst _ _, ?_, ?_, ?_, fun size => ?_⟩
  · apply (hskip _ _ 0 _).trans
    exact part_append_left fileName _
  · rw [hskip]
    apply (part_append_right fileName _ 0 8).trans
    exact hfirst time _
  · rw [Nat.add_assoc, hskip, part_append_right]
    apply (hskip time _ 0 8).trans
    exact hfirst fileSize _
  · rw [Nat.add_assoc, hskip, part_append_right]
    apply (hskip time _ 8 size).trans
    exact hskip fileSize rest 0 size

/-- Memory that starts with the facts about a file and goes on with zeros. -/
theorem laid_metaData (hinside : 8 + fileName.length + 24 ≤ blockSize) :
    MetaBlock.Laid (metaData fileName time fileSize ++
      List.replicate (blockSize - (8 + fileName.length + 16)) 0) fileName time fileSize [] := by
  obtain ⟨hnameLength, hname, htime, hsize, hrest⟩ := part_metaData fileName time fileSize
    (List.replicate (blockSize - (8 + fileName.length + 16)) 0)
  refine ⟨?_, hinside, hnameLength, hname, htime, hsize, ?_, by simp⟩
  · rw [List.length_append, length_metaData, List.length_replicate]
    omega
  · have hzero : min 8 (blockSize - (8 + fileName.length + 16)) = 8 := by omega
    rw [hrest, part, List.drop_zero, List.take_replicate, hzero]
    decide

end MetaData

namespace FileUploader

/-- A new meta block without any fields. -/
theorem newMeta_eq : MetaBlock.newMeta = .ok ⟨allocateMem, 0, none, none, none, none, none⟩ := by
  have hzero : readUInt64 allocateMem 0 = .ok 0 := by
    refine readUInt64_of_part (by rw [length_allocateMem]; decide) ?_
    rw [part, allocateMem, List.drop_zero, List.take_replicate]
    decide
  rw [MetaBlock.newMeta, MetaBlock.ofData, hzero, ok_bind, if_pos rfl]

section Setup

variable {fileName : Bytes}

theorem setFileName_new (hinside : 8 + fileName.length + 24 ≤ blockSize) :
    MetaBlock.setFileName ⟨allocateMem, 0, none, none, none, none, none⟩ fileName =
      .ok (⟨bytesOf (.ofNat fileName.length) ++ fileName ++
        List.replicate (blockSize - 8 - fileName.length) 0, 0, some 8, none, none, none, none⟩,
        true) := by
  have hwrite₀ : writeUInt64 allocateMem 0 (.ofNat fileName.length) =
      .ok (bytesOf (.ofNat fileName.length) ++ List.replicate (blockSize - 8) 0) := by
    have hwrite := writeAt_zeros [] (bytesOf (.ofNat fileName.length)) rfl
      (by rw [length_bytesOf]; omega : _ ≤ blockSize)
    rwa [length_bytesOf] at hwrite
  have hwrite₁ : writeAt (bytesOf (.ofNat fileName.length) ++ List.replicate (blockSize - 8) 0) 8
      fileName = .ok (bytesOf (.ofNat fileName.length) ++ fileName ++
        List.replicate (blockSize - 8 - fileName.length) 0) :=
    writeAt_zeros _ fileName (length_bytesOf _).symm (by omega)
  unfold MetaBlock.setFileName
  dsimp only
  rw [hwrite₀, ok_bind, hwrite₁, ok_bind]

theorem setCreateTime_new (hinside : 8 + fileName.length + 24 ≤ blockSize) (time : UInt64) :
    MetaBlock.setCreateTime ⟨bytesOf (.ofNat fileName.length) ++ fileName ++
        List.replicate (blockSize - 8 - fileName.length) 0, 0, some 8, none, none, none, none⟩ time =
      .ok (⟨bytesOf (.ofNat fileName.length) ++ fileName ++ bytesOf time ++
        List.replicate (blockSize - 8 - fileName.length - 8) 0, 0, some 8,
        some (8 + fileName.length), none, none, none⟩, true) := by
  have hwrite : writeUInt64 (bytesOf (.ofNat fileName.length) ++ fileName ++
      List.replicate (blockSize - 8 - fileName.length) 0) (8 + fileName.length) time =
        .ok (bytesOf (.ofNat fileName.length) ++ fileName ++ bytesOf time ++
          List.replicate (blockSize - 8 - fileName.length - 8) 0) := by
    have hwrite := writeAt_zeros (bytesOf (.ofNat fileName.length) ++ fileName) (bytesOf time)
      (by rw [List.length_append, length_bytesOf])
      (by rw [length_bytesOf]; omega : _ ≤ blockSize - 8 - fileName.length)
    rwa [length_bytesOf] at hwrite
  have htoNat := (laid_metaData fileName 0 0 hinside).toNat_nameLength
  unfold MetaBlock.setCreateTime
  dsimp only
  rw [List.append_assoc, readUInt64_append, ok_bind, htoNat, Option.getD_none,
    ← List.append_assoc, hwrite, ok_bind]

theorem setFileSize_new (hinside : 8 + fileName.length + 24 ≤ blockSize) (time fileSize : UInt64) :
    MetaBlock.setFileSize ⟨bytesOf (.ofNat fileName.length) ++ fileName ++ bytesOf time ++
        List.replicate (blockSize - 8 - fileName.length - 8) 0, 0, some 8,
        some (8 + fileName.length), none, none, none⟩ fileSize =
      .ok (⟨metaData fileName time fileSize ++
        List.replicate (blockSize - (8 + fileName.length + 16)) 0, 0, some 8,
        some (8 + fileName.length), some (8 + fileName.length + 8), none, none⟩, true) := by
  have hwrite : writeUInt64 (bytesOf (.ofNat fileName.length) ++ fileName ++ bytesOf time ++
      List.replicate (blockSize - 8 - fileName.length - 8) 0) (8 + fileName.length + 8) fileSize =
        .ok (metaData fileName time fileSize ++
          List.replicate (blockSize - (8 + fileName.length + 16)) 0) := by
    have hwrite := writeAt_zeros (bytesOf (.ofNat fileName.length) ++ fileName ++ bytesOf time)
      (bytesOf fileSize) (by simp only [List.length_append, length_bytesOf] :
        8 + fileName.length + 8 = _)
      (by rw [length_bytesOf]; omega : _ ≤ blockSize - 8 - fileName.length - 8)
    have hroom : blockSize - 8 - fileName.length - 8 - 8 =
        blockSize - (8 + fileName.length + 16) := by omega
    rw [length_bytesOf, hroom] at hwrite
    rw [writeUInt64, hwrite, metaData]
    simp only [List.append_assoc]
  unfold MetaBlock.setFileSize
  dsimp only
  rw [Option.getD_none, hwrite, ok_bind]

/-- `setupMeta` copies the facts about a file into the memory of a new block. -/
theorem setupMeta_new (hinside : 8 + fileName.length + 24 ≤ blockSize) (time fileSize : UInt64) :
    ∃ block, setupMeta ⟨allocateMem, 0, none, none, none, none, none⟩
        (metaData fileName time fileSize) = .ok (block, true) ∧ block.id = 0 ∧
      block.Describes fileName time fileSize [] := by
  have hlength := length_metaData fileName time fileSize
  obtain ⟨hnameLength, hname, htime, hsize, -⟩ := part_metaData fileName time fileSize []
  rw [List.append_nil] at hnameLength hname htime hsize
  have hlaid := laid_metaData fileName time fileSize hinside
  have hread₀ := readUInt64_of_part (by omega) hnameLength
  have hread₁ : readAt (metaData fileName time fileSize) 8 fileName.length = .ok fileName := by
    rw [readAt_of_le (by omega), hname]
  have hread₂ := readUInt64_of_part (by omega) htime
  have hread₃ := readUInt64_of_part (by omega) hsize
  refine ⟨⟨_, 0, some 8, some (8 + fileName.length), some (8 + fileName.length + 8), none, none⟩,
    ?_, rfl, ⟨hlaid, rfl, rfl, rfl, Or.inl ⟨rfl, rfl, rfl⟩⟩⟩
  unfold setupMeta
  rw [hread₀, ok_bind, hlaid.toNat_nameLength, hread₁, ok_bind, setFileName_new hinside, ok_bind]
  dsimp only
  rw [if_neg (by simp), hread₂, ok_bind, setCreateTime_new hinside, ok_bind]
  dsimp only
  rw [if_neg (by simp), hread₃, ok_bind, setFileSize_new hinside]

end Setup

/-- The messages of an upload whose payload is as the client builds it. -/
def metaMessage (fileName : Bytes) (time fileSize : UInt64) : Message :=
  (Message.new .file .upFileMeta).addData (metaData fileName time fileSize)

def dataMessage (data : Bytes) : Message := (Message.new .file .upFileData).addData data

def endMessage : Message := .new .file .upFileEnd

theorem getMetaID_of_admits {tree : FileTree} {path : Bytes} (hadmits : tree.Admits path) :
    tree.getMetaID path = .ok 0 := by
  rw [FileTree.getMetaID, hadmits.1]

/-- The facts about a file whose path is free are acknowledged. -/
theorem receiveMessage_meta {tree : FileTree} {fileName : Bytes} (hadmits : tree.Admits fileName)
    (hinside : 8 + fileName.length + 24 ≤ blockSize) (manager : BlockManager)
    (time fileSize : UInt64) (opens : Bool) :
    ∃ block, receiveMessage ⟨⟨allocateMem, 0, none, none, none, none, none⟩, manager, tree⟩
        ⟨metaMessage fileName time fileSize, opens⟩ =
      .ok (⟨block, manager, tree⟩, some .fileACK, .goesOn) ∧
      block.id = 0 ∧ block.Describes fileName time fileSize [] := by
  obtain ⟨block, hsetup, hid, hdescribes⟩ := setupMeta_new hinside time fileSize
  refine ⟨block, ?_, hid, hdescribes⟩
  have hmeta : (metaMessage fileName time fileSize).Is .upFileMeta := rfl
  have hdata : (metaMessage fileName time fileSize).data = metaData fileName time fileSize := rfl
  rw [receiveMessage, if_pos hmeta, hdata, receiveMeta, hsetup, ok_bind]
  dsimp only
  rw [if_neg (by simp), hdescribes.getFileName_eq, ok_bind, getMetaID_of_admits hadmits, ok_bind,
    if_neg (by simp)]

section Rounds

variable {block : MetaBlock} {fileName : Bytes} {time fileSize : UInt64} {ids : List BlockID}

/-- A piece of data is acknowledged once the facts about the file are known. -/
theorem receiveMessage_data (h : block.Describes fileName time fileSize ids)
    (hroom : 8 + fileName.length + 24 + 8 * (ids.length + 1) ≤ blockSize) (data : Bytes)
    (hdata : data.length ≤ blockSize) (opens : Bool) (manager : BlockManager) (tree : FileTree) :
    ∃ block', receiveMessage ⟨block, manager, tree⟩ ⟨dataMessage data, opens⟩ =
      .ok (⟨block', (manager.saveBlock opens (newData data) 0).2, tree⟩, some .fileACK, .goesOn) ∧
      block'.id = block.id ∧ block'.Describes fileName time fileSize
        (ids ++ [(manager.saveBlock opens (newData data) 0).1]) := by
  obtain ⟨block', hadd, hid, hdescribes⟩ := h.addDataID
    (manager.saveBlock opens (newData data) 0).1 hroom
  refine ⟨block', ?_, hid, hdescribes⟩
  have hmeta : ¬ (dataMessage data).Is .upFileMeta := by
    change ¬ MessageCmd.code .upFileData = MessageCmd.code .upFileMeta
    decide
  have hcmd : (dataMessage data).Is .upFileData := rfl
  have hpayload : (dataMessage data).data = data := rfl
  rw [receiveMessage, if_neg hmeta, if_pos hcmd, hpayload, receiveData, setupData,
    if_neg (Nat.not_lt_of_le hdata)]
  dsimp only
  rw [hadd, ok_bind, ok_bind]
  dsimp only
  rw [if_neg (by simp)]

/-- The end of a file is acknowledged if its path is free. -/
theorem receiveMessage_end (h : block.Describes fileName time fileSize ids)
    (manager : BlockManager) {tree : FileTree} (hlinked : tree.Linked)
    (hadmits : tree.Admits fileName) :
    ∃ tree', receiveMessage ⟨block, manager, tree⟩ ⟨endMessage, true⟩ =
      .ok (⟨{ block with id := (manager.saveBlock true block.data block.id).1 },
        (manager.saveBlock true block.data block.id).2, tree'⟩, some .fileACK, .completed) ∧
      tree.addFile fileName (manager.saveBlock true block.data block.id).1 = .ok (tree', true) := by
  obtain ⟨tree', hadd⟩ := hlinked.addFile_of_admits hadmits
    (manager.saveBlock true block.data block.id).1
  refine ⟨tree', ?_, hadd⟩
  have hname : ({ block with id := (manager.saveBlock true block.data block.id).1 } :
      MetaBlock).getFileName = .ok fileName := h.getFileName_eq
  rw [receiveMessage, if_neg (by decide), if_neg (by decide), if_pos (by decide), receiveEnd]
  dsimp only
  rw [if_pos rfl, hname, ok_bind, hadd, ok_bind]
  dsimp only
  rw [if_neg (by simp)]

end Rounds

end FileUploader

end Doopey
