import Doopey.File.OrderlyUpload

/-!
# Records of meta blocks

A meta block is filled by calls in a fixed order: the name, the creation time, the
size, and then one call for each ID. What the calls write is a record, and the
getters show it, both on the object that wrote it and on one that is made from the
same memory later.
-/

namespace Doopey

open Foundation

/-- The facts that a meta block keeps about a file. -/
structure MetaRecord where
  name : Bytes
  time : UInt64
  size : UInt64
  ids : List BlockID

/-- The calls that write to a meta block. -/
inductive MetaCall
  | setFileName (name : Bytes)
  | setCreateTime (time : UInt64)
  | setFileSize (size : UInt64)
  | addDataID (id : BlockID)

namespace MetaCall

def run (block : MetaBlock) : MetaCall → Except Fault (MetaBlock × Bool)
  | setFileName name => block.setFileName name
  | setCreateTime time => block.setCreateTime time
  | setFileSize size => block.setFileSize size
  | addDataID id => block.addDataID id

/-- What a call means for the record. -/
def note (record : MetaRecord) : MetaCall → MetaRecord
  | setFileName name => { record with name := name }
  | setCreateTime time => { record with time := time }
  | setFileSize size => { record with size := size }
  | addDataID id => { record with ids := record.ids ++ [id] }

theorem foldl_note_addDataID (record : MetaRecord) (added : List BlockID) :
    (added.map addDataID).foldl note record = { record with ids := record.ids ++ added } := by
  induction added generalizing record with
  | nil => simp
  | cons id added ih => rw [List.map_cons, List.foldl_cons, ih, note, List.append_assoc]; rfl

end MetaCall

namespace MetaRecord

/-- Nothing was written yet. -/
def empty : MetaRecord := ⟨[], 0, 0, []⟩

/-- The calls that write a record. -/
def calls (record : MetaRecord) : List MetaCall :=
  .setFileName record.name :: .setCreateTime record.time :: .setFileSize record.size ::
    record.ids.map .addDataID

/-- There is room for the record in a block. -/
def Fits (record : MetaRecord) : Prop :=
  8 + record.name.length + 24 + 8 * record.ids.length ≤ blockSize

instance (record : MetaRecord) : Decidable record.Fits := inferInstanceAs (Decidable (_ ≤ _))

end MetaRecord

namespace MetaBlock

/-- Make calls one after the other, and report whether all of them were accepted. -/
def runCalls (block : MetaBlock) : List MetaCall → Except Fault (MetaBlock × Bool)
  | [] => .ok (block, true)
  | call :: calls => do
      let (block, done) ← call.run block
      let (block, rest) ← block.runCalls calls
      .ok (block, done && rest)

/-- The getters show the record. -/
structure Shows (block : MetaBlock) (record : MetaRecord) : Prop where
  fileName : block.getFileName = .ok record.name
  createTime : block.getCreateTime = .ok record.time
  fileSize : block.getFileSize = .ok record.size
  dataBlockNumber : block.getDataBlockNumber = .ok (.ofNat record.ids.length)
  dataBlockID (number : UInt64) : block.getDataBlockID number = .ok (record.ids.getD number.toNat 0)

theorem runCalls_cons {block block' : MetaBlock} {call : MetaCall} (hcall : call.run block =
    .ok (block', true)) (calls : List MetaCall) :
    block.runCalls (call :: calls) = block'.runCalls calls := by
  rw [runCalls, hcall, ok_bind]
  dsimp only
  cases block'.runCalls calls with
  | error e => rfl
  | ok result => rw [ok_bind, Bool.true_and]

theorem runCalls_cons_error {block : MetaBlock} {call : MetaCall} {e : Fault}
    (hcall : call.run block = .error e) (calls : List MetaCall) :
    block.runCalls (call :: calls) = .error e := by
  rw [runCalls, hcall]
  rfl

section Describes

variable {block : MetaBlock} {fileName : Bytes} {time fileSize : UInt64} {ids : List BlockID}

theorem Usable.getDataBlockID_getD (h : block.Usable ids) (number : UInt64) :
    block.getDataBlockID number = .ok (ids.getD number.toNat 0) := by
  rcases h.lists with ⟨hnumber, hfirst, rfl⟩ | ⟨place, hnumber, hfirst, hinside, hcount, hids⟩
  · rw [getDataBlockID, hnumber, hfirst]
    rfl
  · rw [getDataBlockID, hnumber, hfirst]
    dsimp only
    rw [readUInt64_of_part (by omega) hcount, ok_bind]
    split
    next hle =>
      rw [UInt64.le_iff_toNat_le, h.toNat_length] at hle
      rw [List.getD, List.getElem?_eq_none hle]
      rfl
    next hlt =>
      rw [UInt64.le_iff_toNat_le, h.toNat_length, Nat.not_le] at hlt
      have hget := List.getElem?_eq_getElem hlt
      rw [List.getD, hget]
      exact readUInt64_of_part (by omega) (hids _ _ hget)

theorem Describes.getCreateTime_eq (h : block.Describes fileName time fileSize ids) :
    block.getCreateTime = .ok time := by
  have hinside := h.laid.inside
  unfold getCreateTime getField
  rw [h.ctime]
  exact readUInt64_of_part (by rw [h.laid.length]; omega) h.laid.ctime

theorem Describes.shows (h : block.Describes fileName time fileSize ids) :
    block.Shows ⟨fileName, time, fileSize, ids⟩ where
  fileName := h.getFileName_eq
  createTime := h.getCreateTime_eq
  fileSize := h.getFileSize_eq
  dataBlockNumber := h.usable.getDataBlockNumber_eq
  dataBlockID := h.usable.getDataBlockID_getD

/-- IDs are added one by one, as many as there is room for. -/
theorem Describes.runCalls_addDataID (h : block.Describes fileName time fileSize ids)
    (more : List BlockID)
    (hroom : 8 + fileName.length + 24 + 8 * (ids.length + more.length) ≤ blockSize) :
    ∃ block', block.runCalls (more.map .addDataID) = .ok (block', true) ∧
      block'.Describes fileName time fileSize (ids ++ more) := by
  induction more generalizing block ids with
  | nil => exact ⟨block, rfl, by rwa [List.append_nil]⟩
  | cons id more ih =>
      rw [List.length_cons] at hroom
      obtain ⟨block₁, hadd, -, h₁⟩ := h.addDataID id (by omega)
      obtain ⟨block₂, hrest, h₂⟩ := ih h₁ (by
        rw [List.length_append, List.length_singleton]
        omega)
      refine ⟨block₂, ?_, by rwa [List.append_cons]⟩
      rw [List.map_cons, @runCalls_cons _ _ (.addDataID id) hadd, hrest]

end Describes

/-! ## Writing a record into a new block -/

section Fresh

variable {fileName : Bytes}

/-- Every call of a record but those for the IDs, and the memory after it. -/
theorem runCalls_fields (hinside : 8 + fileName.length + 24 ≤ blockSize) (time fileSize : UInt64) :
    ∃ named timed sized,
      MetaCall.run ⟨allocateMem, 0, none, none, none, none, none⟩ (.setFileName fileName) =
        .ok (named, true) ∧ named.Shows ⟨fileName, 0, 0, []⟩ ∧
      MetaCall.run named (.setCreateTime time) = .ok (timed, true) ∧
        timed.Shows ⟨fileName, time, 0, []⟩ ∧
      MetaCall.run timed (.setFileSize fileSize) = .ok (sized, true) ∧
        sized.Describes fileName time fileSize [] := by
  have hlaid := laid_metaData fileName time fileSize hinside
  have hname (rest : Bytes) (hrest : rest.length = blockSize - 8 - fileName.length) :
      readUInt64 (bytesOf (.ofNat fileName.length) ++ fileName ++ rest) 0 =
          .ok (.ofNat fileName.length) ∧
        readAt (bytesOf (.ofNat fileName.length) ++ fileName ++ rest) 8 fileName.length =
          .ok fileName := by
    refine ⟨?_, ?_⟩
    · rw [List.append_assoc, readUInt64_append]
    · rw [readAt_of_le (by simp only [List.length_append, length_bytesOf]; omega),
        part_append_middle _ _ _ (length_bytesOf _).symm rfl]
  refine ⟨_, _, _, FileUploader.setFileName_new hinside, ?_,
    FileUploader.setCreateTime_new hinside time, ?_,
    FileUploader.setFileSize_new hinside time fileSize, hlaid, rfl, rfl, rfl,
    Or.inl ⟨rfl, rfl, rfl⟩⟩
  · obtain ⟨hlength, hread⟩ := hname (List.replicate (blockSize - 8 - fileName.length) 0)
      (by simp)
    refine ⟨?_, rfl, rfl, rfl, fun number => rfl⟩
    rw [getFileName]
    dsimp only
    rw [hlength, ok_bind, hlaid.toNat_nameLength, hread]
  · obtain ⟨hlength, hread⟩ := hname
      (bytesOf time ++ List.replicate (blockSize - 8 - fileName.length - 8) 0)
      (by rw [List.length_append, length_bytesOf, List.length_replicate]; omega)
    rw [← List.append_assoc] at hlength hread
    refine ⟨?_, ?_, rfl, rfl, fun number => rfl⟩
    · rw [getFileName]
      dsimp only
      rw [hlength, ok_bind, hlaid.toNat_nameLength, hread]
    · refine readUInt64_of_part ?_ ?_
      · simp only [List.length_append, length_bytesOf, List.length_replicate]
        omega
      · exact part_append_middle _ _ _ (by rw [List.length_append, length_bytesOf])
          (length_bytesOf _).symm

end Fresh

/-- A record that fits is shown by the object that writes it, as far as the calls
have come, and by every object that is made from its memory afterwards. -/
theorem newMeta_shows {record : MetaRecord} (hname : record.name ≠ []) (hfits : record.Fits) :
    ∃ fresh, newMeta = .ok fresh ∧
      (∀ calls, calls <+: record.calls → ∃ block, fresh.runCalls calls = .ok (block, true) ∧
        block.Shows (calls.foldl MetaCall.note .empty)) ∧
      ∃ written, fresh.runCalls record.calls = .ok (written, true) ∧
        ∀ id, ∃ loaded, ofData written.data id = .ok loaded ∧ loaded.Shows record := by
  obtain ⟨fileName, time, fileSize, ids⟩ := record
  have hroom : 8 + fileName.length + 24 + 8 * ids.length ≤ blockSize := hfits
  obtain ⟨named, timed, sized, hcall₁, hnamed, hcall₂, htimed, hcall₃, hsized⟩ :=
    @runCalls_fields fileName (by omega) time fileSize
  refine ⟨_, FileUploader.newMeta_eq, ?_, ?_⟩
  · intro calls hprefix
    rcases List.prefix_cons_iff.mp hprefix with rfl | ⟨calls₁, rfl, hprefix₁⟩
    · exact ⟨_, rfl, rfl, rfl, rfl, rfl, fun number => rfl⟩
    rw [runCalls_cons hcall₁]
    rcases List.prefix_cons_iff.mp hprefix₁ with rfl | ⟨calls₂, rfl, hprefix₂⟩
    · exact ⟨named, rfl, hnamed⟩
    rw [runCalls_cons hcall₂]
    rcases List.prefix_cons_iff.mp hprefix₂ with rfl | ⟨calls₃, rfl, hprefix₃⟩
    · exact ⟨timed, rfl, htimed⟩
    rw [runCalls_cons hcall₃]
    obtain ⟨added, hadded, rfl⟩ := List.prefix_map_iff.mp hprefix₃
    have hle : added.length ≤ ids.length := hadded.length_le
    obtain ⟨block, hrun, hblock⟩ := hsized.runCalls_addDataID added (by
      rw [List.length_nil]
      omega)
    refine ⟨block, hrun, ?_⟩
    rw [List.foldl_cons, List.foldl_cons, List.foldl_cons, MetaCall.foldl_note_addDataID]
    exact hblock.shows
  · obtain ⟨written, hrun, hwritten⟩ := hsized.runCalls_addDataID ids (by
      rw [List.length_nil]
      omega)
    refine ⟨written, ?_, fun id => ?_⟩
    · rw [MetaRecord.calls, runCalls_cons hcall₁, runCalls_cons hcall₂, runCalls_cons hcall₃, hrun]
    · obtain ⟨loaded, hload, -, -, hdescribes⟩ := hwritten.laid.ofData hname id
      exact ⟨loaded, hload, hdescribes.shows⟩

/-- A record with two IDs. -/
theorem newMeta_shows_example : ∃ fresh, newMeta = .ok fresh ∧
    ∃ written, fresh.runCalls (MetaRecord.calls ⟨[47, 97], 5, 70000, [3, 8]⟩) = .ok (written, true) ∧
      ∀ id, ∃ loaded, ofData written.data id = .ok loaded ∧
        loaded.Shows ⟨[47, 97], 5, 70000, [3, 8]⟩ := by
  obtain ⟨fresh, hfresh, -, hwritten⟩ :=
    @newMeta_shows ⟨[47, 97], 5, 70000, [3, 8]⟩ (by simp) (by decide)
  exact ⟨fresh, hfresh, hwritten⟩

end MetaBlock

end Doopey
