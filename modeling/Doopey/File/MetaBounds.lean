import Doopey.File.MetaWrites
import Doopey.File.UploadAcks
import Doopey.Foundation.Runs

/-!
# Meta blocks that are too small for an upload

An upload writes a name of any length and any number of IDs into its meta block. The
writes stay inside as long as every name, with the creation time behind it, and the
IDs, behind the place of the first name, end inside the block; nothing is refused
where they do not.
-/

namespace Doopey

open Foundation

/-- What the messages of an upload say about the places in its meta block: the length of
the first name, and the number of pieces of data since the last name. -/
structure Ledger where
  first : Option Nat
  count : Nat

/-- The length of the name in the payload of `MC_UpFileMeta`. -/
def nameLength (data : Bytes) : Nat := ofLE (part data 0 8)

namespace Ledger

def note (ledger : Ledger) (input : Input) : Ledger :=
  if input.msg.Is .upFileMeta then ⟨some (ledger.first.getD (nameLength input.msg.data)), 0⟩
  else if input.msg.Is .upFileData then { ledger with count := ledger.count + 1 }
  else ledger

/-- The ledger of the messages before the next one. -/
def ofInputs (inputs : List Input) : Ledger := inputs.foldl note ⟨none, 0⟩

/-- The name fits in the block, the creation time behind it does, and the size does behind
the first name. A message that ends early counts as far as it goes: a name whose announced
length goes beyond the payload counts as fitting, for it is not read. -/
def FitsMeta (ledger : Ledger) (data : Bytes) : Prop :=
  (8 + nameLength data ≤ data.length → 8 + nameLength data ≤ blockSize) ∧
  (8 + nameLength data + 8 ≤ data.length → 8 + nameLength data + 8 ≤ blockSize) ∧
  (8 + nameLength data + 16 ≤ data.length →
    16 + ledger.first.getD (nameLength data) + 8 ≤ blockSize)

/-- One more ID fits behind those that the block has. -/
def FitsData (ledger : Ledger) : Prop :=
  ∀ first, ledger.first = some first → 16 + first + 16 + 8 * (ledger.count + 1) ≤ blockSize

/-- What a message puts into the meta block fits. -/
def Fits (ledger : Ledger) (input : Input) : Prop :=
  (input.msg.Is .upFileMeta → ledger.FitsMeta input.msg.data) ∧
  (input.msg.Is .upFileData → input.msg.data.length ≤ blockSize → ledger.FitsData)

end Ledger

/-- The places of the fields of an object between two messages. The size stays behind the
first name. -/
structure MetaBlock.Places (block : MetaBlock) (ledger : Ledger) : Prop where
  length : block.data.length = blockSize
  filename : block.filename = ledger.first.map fun _ => 8
  ctime : ledger.first = none → block.ctime = none
  size : block.size = ledger.first.map (16 + ·)
  lists : block.blockNumber = none ∧ block.firstBlockID = none ∧ ledger.count = 0 ∨
    ∃ first, ledger.first = some first ∧ block.blockNumber = some (16 + first + 8) ∧
      block.firstBlockID = some (16 + first + 16) ∧
      16 + first + 16 + 8 * ledger.count ≤ blockSize ∧
      readUInt64 block.data (16 + first + 8) = .ok (.ofNat ledger.count)

namespace MetaBlock

open MetaCall

/-- An object that was just given a name. -/
structure Named (block : MetaBlock) (first : Option Nat) (nameLength : Nat) (ctime : Option Nat) :
    Prop where
  length : block.data.length = blockSize
  inside : 8 + nameLength ≤ blockSize
  nameLength : readUInt64 block.data 0 = .ok (.ofNat nameLength)
  filename : block.filename = some 8
  ctime : block.ctime = ctime
  size : block.size = first.map (16 + ·)
  lists : block.blockNumber = none ∧ block.firstBlockID = none

section Calls

variable {block : MetaBlock} {ledger : Ledger} {first : Option Nat} {nameLength : Nat}

/-- With a new name only the size keeps its place. -/
theorem Places.repoint_setFileName (h : block.Places ledger) (name : Bytes) :
    repoint block (.setFileName name) =
      { block with filename := some 8, ctime := none, blockNumber := none, firstBlockID := none } := by
  -- before the first name nothing else is set up
  have hfilename := h.filename
  cases hfirst : ledger.first with
  | none =>
      rw [hfirst] at hfilename
      have hctime := h.ctime hfirst
      rcases h.lists with ⟨hnumber, hlist, -⟩ | ⟨first, hsome, -⟩
      · obtain ⟨data, id, filename, ctime, size, blockNumber, firstBlockID⟩ := block
        obtain rfl : filename = none := hfilename
        obtain rfl : ctime = none := hctime
        obtain rfl : blockNumber = none := hnumber
        obtain rfl : firstBlockID = none := hlist
        rfl
      · rw [hfirst] at hsome
        exact absurd hsome (by simp)
  | some first =>
      rw [hfirst] at hfilename
      obtain ⟨data, id, filename, ctime, size, blockNumber, firstBlockID⟩ := block
      obtain rfl : filename = some 8 := hfilename
      rfl

theorem Places.setFileName (h : block.Places ledger) (name : Bytes) :
    ((∀ write ∈ MetaCall.writes block (.setFileName name), write.Inside) ↔
        8 + name.length ≤ blockSize) ∧
      (8 + name.length ≤ blockSize → ∃ block', run block (.setFileName name) = .ok (block', true) ∧
        block'.Named ledger.first name.length none) := by
  have hplace : block.filename.getD 8 = 8 := by
    rw [h.filename]
    cases ledger.first <;> rfl
  have hwrites : MetaCall.writes block (.setFileName name) =
      [⟨0, bytesOf (.ofNat name.length)⟩, ⟨8, name⟩] := by
    unfold MetaCall.writes
    dsimp only
    rw [hplace]
  have hiff : (∀ write ∈ MetaCall.writes block (.setFileName name), write.Inside) ↔
      8 + name.length ≤ blockSize := by
    rw [hwrites]
    simp only [List.forall_mem_cons, Write.Inside, length_bytesOf]
    constructor
    · rintro ⟨-, hname, -⟩
      exact hname
    · intro hname
      exact ⟨by omega, hname, by simp⟩
  refine ⟨hiff, fun hinside => ?_⟩
  obtain ⟨hrun, hlength⟩ := run_of_inside h.length (hiff.mpr hinside)
  have hwrite : 0 + (bytesOf (.ofNat name.length)).length ≤ block.data.length := by
    rw [length_bytesOf, h.length]
    omega
  have hpart := part_overwrite hwrite
  rw [length_bytesOf] at hpart
  -- the name lies behind its length
  have hkeep : part (applyWrites block.data (MetaCall.writes block (.setFileName name))) 0 8 =
      bytesOf (.ofNat name.length) := by
    rw [hwrites]
    exact (part_overwrite_of_le (by rw [length_overwrite hwrite, h.length]; exact hinside)
      (Nat.le_refl 8)).trans hpart
  rw [h.repoint_setFileName] at hrun
  exact ⟨_, hrun, hlength, hinside, readUInt64_of_part (by rw [hlength]; omega) hkeep, rfl, rfl,
    h.size, rfl, rfl⟩

theorem Named.setCreateTime (h : block.Named first nameLength none) (time : UInt64) :
    ((∀ write ∈ MetaCall.writes block (.setCreateTime time), write.Inside) ↔
        8 + nameLength + 8 ≤ blockSize) ∧
      (8 + nameLength + 8 ≤ blockSize → ∃ block', run block (.setCreateTime time) = .ok (block', true) ∧
        block'.Named first nameLength (some (8 + nameLength))) := by
  have htoNat : (UInt64.ofNat nameLength).toNat = nameLength := by
    have hinside := h.inside
    rw [blockSize] at hinside
    rw [UInt64.toNat_ofNat', Nat.mod_eq_of_lt (by omega)]
  have hwrites : MetaCall.writes block (.setCreateTime time) = [⟨8 + nameLength, bytesOf time⟩] := by
    unfold MetaCall.writes
    dsimp only
    rw [h.filename, h.nameLength, h.ctime]
    dsimp only [Option.getD]
    rw [htoNat]
  have hpoint : repoint block (.setCreateTime time) =
      { block with ctime := some (8 + nameLength) } := by
    unfold repoint
    dsimp only
    rw [h.filename, h.nameLength, h.ctime]
    dsimp only [Option.getD]
    rw [htoNat]
  have hiff : (∀ write ∈ MetaCall.writes block (.setCreateTime time), write.Inside) ↔
      8 + nameLength + 8 ≤ blockSize := by
    rw [hwrites, List.forall_mem_singleton, Write.Inside, length_bytesOf]
  refine ⟨hiff, fun hinside => ?_⟩
  obtain ⟨hrun, hlength⟩ := run_of_inside h.length (hiff.mpr hinside)
  have haccepts : accepts block (.setCreateTime time) = true := by
    rw [accepts, h.filename]
    rfl
  have hkeep : part (applyWrites block.data (MetaCall.writes block (.setCreateTime time))) 0 8 =
      bytesOf (.ofNat nameLength) := by
    rw [hwrites]
    exact (part_overwrite_of_le (by rw [length_bytesOf, h.length]; exact hinside)
      (Nat.le_add_right 8 nameLength)).trans (readUInt64_eq_ok_iff.mp h.nameLength).2
  rw [hpoint, haccepts] at hrun
  exact ⟨_, hrun, hlength, h.inside, readUInt64_of_part (by rw [hlength]; omega) hkeep, h.filename,
    rfl, h.size, h.lists⟩

theorem Named.setFileSize (h : block.Named first nameLength (some (8 + nameLength)))
    (size : UInt64) :
    ((∀ write ∈ MetaCall.writes block (.setFileSize size), write.Inside) ↔
        16 + first.getD nameLength + 8 ≤ blockSize) ∧
      (16 + first.getD nameLength + 8 ≤ blockSize →
        ∃ block', run block (.setFileSize size) = .ok (block', true) ∧
          block'.Places ⟨some (first.getD nameLength), 0⟩) := by
  -- the size stays where the first name had it
  have hplace : block.size.getD (8 + nameLength + 8) = 16 + first.getD nameLength := by
    rw [h.size]
    cases first with
    | none => exact (Nat.add_right_comm 8 nameLength 8)
    | some first => rfl
  have hwrites : MetaCall.writes block (.setFileSize size) =
      [⟨16 + first.getD nameLength, bytesOf size⟩] := by
    unfold MetaCall.writes
    dsimp only
    rw [h.ctime]
    dsimp only
    rw [hplace]
  have hpoint : repoint block (.setFileSize size) =
      { block with size := some (16 + first.getD nameLength) } := by
    unfold repoint
    dsimp only
    rw [h.ctime]
    dsimp only
    rw [hplace]
  have hiff : (∀ write ∈ MetaCall.writes block (.setFileSize size), write.Inside) ↔
      16 + first.getD nameLength + 8 ≤ blockSize := by
    rw [hwrites, List.forall_mem_singleton, Write.Inside, length_bytesOf]
  refine ⟨hiff, fun hinside => ?_⟩
  obtain ⟨hrun, hlength⟩ := run_of_inside h.length (hiff.mpr hinside)
  have haccepts : accepts block (.setFileSize size) = true := by
    rw [accepts, h.ctime]
    rfl
  rw [hpoint, haccepts] at hrun
  exact ⟨_, hrun, hlength, h.filename, by simp, rfl, Or.inl ⟨h.lists.1, h.lists.2, rfl⟩⟩

/-- The number of IDs is read back after an ID was written behind it. -/
theorem readUInt64_counted {data bytes : Bytes} {count place : Nat} {n : UInt64}
    (hlength : data.length = blockSize) (hbehind : count + 8 ≤ place)
    (hinside : place + bytes.length ≤ blockSize) :
    readUInt64 (overwrite (overwrite data count (bytesOf n)) place bytes) count = .ok n := by
  have hcount : count + (bytesOf n).length ≤ data.length := by
    rw [length_bytesOf, hlength]
    omega
  have hplace : place + bytes.length ≤ (overwrite data count (bytesOf n)).length := by
    rwa [length_overwrite hcount, hlength]
  have hpart := part_overwrite hcount
  rw [length_bytesOf] at hpart hcount
  apply readUInt64_of_part
  · rwa [length_overwrite hplace, length_overwrite (by rwa [length_bytesOf])]
  · rw [part_overwrite_of_le hplace hbehind, hpart]

/-- Without a name no ID is taken. -/
theorem Places.addDataID_none (h : block.Places ledger) (hfirst : ledger.first = none)
    (id : BlockID) : MetaCall.writes block (.addDataID id) = [] ∧
      run block (.addDataID id) = .ok (block, false) := by
  have hsize : block.size = none := by rw [h.size, hfirst]; rfl
  refine ⟨?_, ?_⟩
  · unfold MetaCall.writes
    dsimp only
    rw [hsize]
  · rw [run, MetaBlock.addDataID, hsize]

/-- The first ID starts the list behind the size. -/
theorem Places.addDataID_start (h : block.Places ledger) {first : Nat}
    (hfirst : ledger.first = some first) (hnumber : block.blockNumber = none)
    (hcount : ledger.count = 0) (id : BlockID) :
    ((∀ write ∈ MetaCall.writes block (.addDataID id), write.Inside) ↔
        16 + first + 16 + 8 * (ledger.count + 1) ≤ blockSize) ∧
      (16 + first + 16 + 8 * (ledger.count + 1) ≤ blockSize →
        ∃ block', run block (.addDataID id) = .ok (block', true) ∧
          block'.Places { ledger with count := ledger.count + 1 }) := by
  have hsize : block.size = some (16 + first) := by rw [h.size, hfirst]; rfl
  have haccepts : accepts block (.addDataID id) = true := by
    rw [accepts, hsize]
    rfl
  have hwrites : MetaCall.writes block (.addDataID id) =
      [⟨16 + first + 8, bytesOf 0⟩, ⟨16 + first + 8, bytesOf 1⟩,
        ⟨16 + first + 16, bytesOf id⟩] := by
    unfold MetaCall.writes
    dsimp only
    rw [hsize, hnumber]
  have hpoint : repoint block (.addDataID id) = { block with
      blockNumber := some (16 + first + 8), firstBlockID := some (16 + first + 16) } := by
    unfold repoint
    dsimp only
    rw [hsize, hnumber]
  have hiff : (∀ write ∈ MetaCall.writes block (.addDataID id), write.Inside) ↔
      16 + first + 16 + 8 * (ledger.count + 1) ≤ blockSize := by
    rw [hwrites, hcount]
    simp only [List.forall_mem_cons, Write.Inside, length_bytesOf]
    constructor
    · rintro ⟨-, -, hid, -⟩
      omega
    · intro hfits
      exact ⟨by omega, by omega, by omega, by simp⟩
  refine ⟨hiff, fun hfits => ?_⟩
  obtain ⟨hrun, hlength⟩ := run_of_inside h.length (hiff.mpr hfits)
  rw [hpoint, haccepts] at hrun
  refine ⟨_, hrun, hlength, h.filename, h.ctime, h.size, Or.inr ⟨first, hfirst, rfl, rfl, hfits, ?_⟩⟩
  have hzero : 16 + first + 8 + (bytesOf 0).length ≤ block.data.length := by
    rw [length_bytesOf, h.length]
    omega
  have hlast : 16 + first + 16 + (bytesOf id).length ≤ blockSize := by
    rw [length_bytesOf]
    omega
  rw [hcount, hwrites]
  exact readUInt64_counted ((length_overwrite hzero).trans h.length) (Nat.le_refl _) hlast

/-- Another ID goes behind those that are listed, and is counted. -/
theorem Places.addDataID_next (h : block.Places ledger) {first : Nat}
    (hfirst : ledger.first = some first) (hnumber : block.blockNumber = some (16 + first + 8))
    (hlist : block.firstBlockID = some (16 + first + 16))
    (hroom : 16 + first + 16 + 8 * ledger.count ≤ blockSize)
    (hread : readUInt64 block.data (16 + first + 8) = .ok (.ofNat ledger.count)) (id : BlockID) :
    ((∀ write ∈ MetaCall.writes block (.addDataID id), write.Inside) ↔
        16 + first + 16 + 8 * (ledger.count + 1) ≤ blockSize) ∧
      (16 + first + 16 + 8 * (ledger.count + 1) ≤ blockSize →
        ∃ block', run block (.addDataID id) = .ok (block', true) ∧
          block'.Places { ledger with count := ledger.count + 1 }) := by
  have hsize : block.size = some (16 + first) := by rw [h.size, hfirst]; rfl
  have haccepts : accepts block (.addDataID id) = true := by
    rw [accepts, hsize]
    rfl
  have htoNat : (UInt64.ofNat ledger.count).toNat = ledger.count := by
    rw [blockSize] at hroom
    rw [UInt64.toNat_ofNat', Nat.mod_eq_of_lt (by omega)]
  have hwrites : MetaCall.writes block (.addDataID id) =
      [⟨16 + first + 8, bytesOf (.ofNat ledger.count + 1)⟩,
        ⟨16 + first + 16 + 8 * ledger.count, bytesOf id⟩] := by
    unfold MetaCall.writes
    dsimp only
    rw [hsize, hnumber, hlist]
    dsimp only
    rw [hread]
    dsimp only
    rw [htoNat]
  have hpoint : repoint block (.addDataID id) = block := by
    unfold repoint
    dsimp only
    rw [hsize, hnumber, hlist]
  have hiff : (∀ write ∈ MetaCall.writes block (.addDataID id), write.Inside) ↔
      16 + first + 16 + 8 * (ledger.count + 1) ≤ blockSize := by
    rw [hwrites]
    simp only [List.forall_mem_cons, Write.Inside, length_bytesOf]
    constructor
    · rintro ⟨-, hid, -⟩
      omega
    · intro hfits
      exact ⟨by omega, by omega, by simp⟩
  refine ⟨hiff, fun hfits => ?_⟩
  obtain ⟨hrun, hlength⟩ := run_of_inside h.length (hiff.mpr hfits)
  rw [hpoint, haccepts] at hrun
  refine ⟨_, hrun, hlength, h.filename, h.ctime, h.size, Or.inr ⟨first, hfirst, hnumber, hlist,
    hfits, ?_⟩⟩
  have hbehind : 16 + first + 8 + 8 ≤ 16 + first + 16 + 8 * ledger.count := by omega
  have hlast : 16 + first + 16 + 8 * ledger.count + (bytesOf id).length ≤ blockSize := by
    rw [length_bytesOf]
    omega
  dsimp only
  rw [hwrites, UInt64.ofNat_add]
  exact readUInt64_counted h.length hbehind hlast

/-- An ID goes behind those that are listed, or starts the list. -/
theorem Places.addDataID_some (h : block.Places ledger) {first : Nat}
    (hfirst : ledger.first = some first) (id : BlockID) :
    ((∀ write ∈ MetaCall.writes block (.addDataID id), write.Inside) ↔
        16 + first + 16 + 8 * (ledger.count + 1) ≤ blockSize) ∧
      (16 + first + 16 + 8 * (ledger.count + 1) ≤ blockSize →
        ∃ block', run block (.addDataID id) = .ok (block', true) ∧
          block'.Places { ledger with count := ledger.count + 1 }) := by
  rcases h.lists with ⟨hnumber, -, hcount⟩ | ⟨first', hfirst', hnumber, hlist, hroom, hread⟩
  · exact h.addDataID_start hfirst hnumber hcount id
  · obtain rfl : first = first' := Option.some.inj (hfirst.symm.trans hfirst')
    exact h.addDataID_next hfirst hnumber hlist hroom hread id

end Calls

end MetaBlock

namespace FileUploader

/-- The calls of `setupMeta`, as far as the message can be read. -/
def setupCalls (data : Bytes) : List MetaCall :=
  match readUInt64 data 0 with
  | .error _ => []
  | .ok nameLength =>
      match readAt data 8 nameLength.toNat with
      | .error _ => []
      | .ok name => .setFileName name ::
          match readUInt64 data (8 + nameLength.toNat) with
          | .error _ => []
          | .ok ctime => .setCreateTime ctime ::
              match readUInt64 data (8 + nameLength.toNat + 8) with
              | .error _ => []
              | .ok size => [.setFileSize size]

/-- The calls on the meta block that a message leads to. -/
def calls (up : Upload) (input : Input) : List MetaCall :=
  if input.msg.Is .upFileMeta then setupCalls input.msg.data
  else if input.msg.Is .upFileData ∧ ¬ blockSize < input.msg.data.length then
    [.addDataID (up.manager.saveBlock input.opens (newData input.msg.data) 0).1]
  else []

/-- What the setters write to the meta block on account of a message. -/
def writes (up : Upload) (input : Input) : List Write := up.metaBlock.writes (calls up input)

theorem readUInt64_nameLength {data : Bytes} (hlength : 8 ≤ data.length) :
    readUInt64 data 0 = .ok (.ofNat (nameLength data)) ∧
      (UInt64.ofNat (nameLength data)).toNat = nameLength data := by
  have hlt : nameLength data < 2 ^ 64 := by
    have hlt := ofLE_lt (part data 0 8)
    rw [length_part (by omega)] at hlt
    exact hlt
  refine ⟨?_, ?_⟩
  · rw [readUInt64, readAt_of_le (by omega), ok_bind]
    rfl
  · rw [UInt64.toNat_ofNat', Nat.mod_eq_of_lt hlt]

/-- The calls of a message by how much of it there is. -/
theorem setupCalls_cases (data : Bytes) :
    data.length < 8 + nameLength data ∧ setupCalls data = [] ∨
    ∃ name, name.length = nameLength data ∧
      (data.length < 8 + nameLength data + 8 ∧ 8 + nameLength data ≤ data.length ∧
          setupCalls data = [.setFileName name] ∨
        ∃ ctime, data.length < 8 + nameLength data + 16 ∧ 8 + nameLength data + 8 ≤ data.length ∧
            setupCalls data = [.setFileName name, .setCreateTime ctime] ∨
          ∃ size, 8 + nameLength data + 16 ≤ data.length ∧
            setupCalls data = [.setFileName name, .setCreateTime ctime, .setFileSize size]) := by
  unfold setupCalls
  by_cases hfirst : 8 ≤ data.length
  · obtain ⟨hread, htoNat⟩ := readUInt64_nameLength hfirst
    rw [hread]
    dsimp only
    rw [htoNat, readAt]
    by_cases hname : 8 + nameLength data ≤ data.length
    · refine Or.inr ⟨part data 8 (nameLength data), length_part hname, ?_⟩
      rw [if_pos hname]
      dsimp only
      by_cases htime : 8 + nameLength data + 8 ≤ data.length
      · rw [readUInt64, readAt_of_le htime, ok_bind]
        refine Or.inr ⟨.ofNat (ofLE (part data (8 + nameLength data) 8)), ?_⟩
        dsimp only
        by_cases hsize : 8 + nameLength data + 8 + 8 ≤ data.length
        · rw [readUInt64, readAt_of_le hsize, ok_bind]
          exact Or.inr ⟨_, hsize, rfl⟩
        · rw [readUInt64, readAt, if_neg hsize]
          exact Or.inl ⟨by omega, htime, rfl⟩
      · rw [readUInt64, readAt, if_neg htime]
        exact Or.inl ⟨by omega, hname, rfl⟩
    · rw [if_neg hname]
      exact Or.inl ⟨by omega, rfl⟩
  · rw [readUInt64, readAt, if_neg (by omega)]
    exact Or.inl ⟨by omega, rfl⟩

section Rounds

variable {block : MetaBlock} {ledger : Ledger}

/-- The facts about a file stay inside exactly if they fit. -/
theorem inside_setupCalls (h : block.Places ledger) (data : Bytes) :
    (∀ write ∈ block.writes (setupCalls data), write.Inside) ↔ ledger.FitsMeta data := by
  rcases setupCalls_cases data with ⟨hshort, hcalls⟩ | ⟨name, hlength, hcases⟩
  · rw [hcalls]
    exact ⟨fun _ => ⟨by omega, by omega, by omega⟩, fun _ => by simp [MetaBlock.writes]⟩
  have hname := h.setFileName name
  rw [hlength] at hname
  rcases hcases with ⟨hshort, hle, hcalls⟩ | ⟨time, ⟨hshort, hle, hcalls⟩ | ⟨size, hle, hcalls⟩⟩
  · rw [hcalls, MetaBlock.inside_cons_iff hname.1 hname.2 fun named _ => named.inside_nil]
    exact ⟨fun hfits => ⟨fun _ => hfits.1, by omega, by omega⟩, fun hfits => ⟨hfits.1 hle, trivial⟩⟩
  · rw [hcalls, MetaBlock.inside_cons_iff hname.1 hname.2 fun named hnamed =>
      MetaBlock.inside_cons_iff (hnamed.setCreateTime time).1 (hnamed.setCreateTime time).2
        fun timed _ => timed.inside_nil]
    exact ⟨fun hfits => ⟨fun _ => hfits.1, fun _ => hfits.2.1, by omega⟩,
      fun hfits => ⟨hfits.1 (by omega), hfits.2.1 hle, trivial⟩⟩
  · rw [hcalls, MetaBlock.inside_cons_iff hname.1 hname.2 fun named hnamed =>
      MetaBlock.inside_cons_iff (hnamed.setCreateTime time).1 (hnamed.setCreateTime time).2
        fun timed htimed =>
          MetaBlock.inside_cons_iff (htimed.setFileSize size).1 (htimed.setFileSize size).2
            fun sized _ => sized.inside_nil]
    exact ⟨fun hfits => ⟨fun _ => hfits.1, fun _ => hfits.2.1, fun _ => hfits.2.2.1⟩,
      fun hfits => ⟨hfits.1 (by omega), hfits.2.1 (by omega), hfits.2.2 hle, trivial⟩⟩

/-- What the setters write on account of a message stays inside exactly if it fits. -/
theorem inside_writes_iff {up : Upload} (h : up.metaBlock.Places ledger) (input : Input) :
    (∀ write ∈ writes up input, write.Inside) ↔ ledger.Fits input := by
  unfold writes calls
  by_cases hmeta : input.msg.Is .upFileMeta
  · have hdata : ¬ input.msg.Is .upFileData := fun hdata => absurd (hmeta.eq hdata) (by simp)
    rw [if_pos hmeta, inside_setupCalls h]
    exact ⟨fun hfits => ⟨fun _ => hfits, fun h => absurd h hdata⟩, fun hfits => hfits.1 hmeta⟩
  rw [if_neg hmeta]
  by_cases hdata : input.msg.Is .upFileData ∧ ¬ blockSize < input.msg.data.length
  · have hfits : ledger.Fits input ↔ ledger.FitsData :=
      ⟨fun hfits => hfits.2 hdata.1 (Nat.not_lt.mp hdata.2),
        fun hfits => ⟨fun h => absurd h hmeta, fun _ _ => hfits⟩⟩
    rw [if_pos hdata, hfits, Ledger.FitsData]
    cases hfirst : ledger.first with
    | none =>
        obtain ⟨hwrites, hrun⟩ := h.addDataID_none hfirst
          (up.manager.saveBlock input.opens (newData input.msg.data) 0).1
        rw [MetaBlock.writes, hwrites, hrun]
        simp
    | some first =>
        obtain ⟨hiff, hrun⟩ := h.addDataID_some hfirst
          (up.manager.saveBlock input.opens (newData input.msg.data) 0).1
        rw [MetaBlock.inside_cons_iff hiff hrun fun added _ => added.inside_nil]
        simp
  · rw [if_neg hdata]
    refine iff_of_true (by simp [MetaBlock.writes]) ⟨fun h => absurd h hmeta, fun h hle => ?_⟩
    exact absurd ⟨h, Nat.not_lt.mpr hle⟩ hdata

/-- `setupMeta` works only if everything fits. -/
theorem places_of_setupMeta (h : block.Places ledger) {data : Bytes} {block' : MetaBlock} {done : Bool}
    (hrun : setupMeta block data = .ok (block', done)) :
    ledger.FitsMeta data ∧ done = true ∧
      block'.Places ⟨some (ledger.first.getD (nameLength data)), 0⟩ := by
  unfold setupMeta at hrun
  obtain ⟨length, hlength, hrun⟩ := bind_eq_ok_iff.mp hrun
  obtain ⟨name, hname, hrun⟩ := bind_eq_ok_iff.mp hrun
  obtain ⟨hread, htoNat⟩ := readUInt64_nameLength
    (by simpa using (readUInt64_eq_ok_iff.mp hlength).1 : 8 ≤ data.length)
  obtain rfl : .ofNat (nameLength data) = length := Except.ok.inj (hread.symm.trans hlength)
  rw [htoNat] at hname hrun
  have hsize : name.length = nameLength data := by
    rw [readAt] at hname
    split at hname
    next hinside => rw [← Except.ok.inj hname, length_part hinside]
    next => exact absurd hname (by simp)
  obtain ⟨⟨named, accepted₁⟩, hcall₁, hrun⟩ := bind_eq_ok_iff.mp hrun
  obtain ⟨hiff₁, hnext₁⟩ := h.setFileName name
  have hfits₁ := hiff₁.mp (@MetaCall.inside_of_run _ h.length (.setFileName name) _ hcall₁)
  obtain ⟨named', hcall₁', hnamed⟩ := hnext₁ hfits₁
  obtain ⟨rfl, rfl⟩ := Prod.mk.inj (Except.ok.inj (hcall₁.symm.trans hcall₁'))
  dsimp only at hrun
  rw [if_neg (by simp)] at hrun
  obtain ⟨time, htime, hrun⟩ := bind_eq_ok_iff.mp hrun
  obtain ⟨⟨timed, accepted₂⟩, hcall₂, hrun⟩ := bind_eq_ok_iff.mp hrun
  obtain ⟨hiff₂, hnext₂⟩ := hnamed.setCreateTime time
  have hfits₂ := hiff₂.mp (@MetaCall.inside_of_run _ hnamed.length (.setCreateTime time) _ hcall₂)
  obtain ⟨timed', hcall₂', htimed⟩ := hnext₂ hfits₂
  obtain ⟨rfl, rfl⟩ := Prod.mk.inj (Except.ok.inj (hcall₂.symm.trans hcall₂'))
  dsimp only at hrun
  rw [if_neg (by simp)] at hrun
  obtain ⟨size, hsize', hcall₃⟩ := bind_eq_ok_iff.mp hrun
  obtain ⟨hiff₃, hnext₃⟩ := htimed.setFileSize size
  have hfits₃ := hiff₃.mp (@MetaCall.inside_of_run _ htimed.length (.setFileSize size) _ hcall₃)
  obtain ⟨sized, hcall₃', hplaces⟩ := hnext₃ hfits₃
  obtain ⟨rfl, rfl⟩ := Prod.mk.inj (Except.ok.inj (hcall₃.symm.trans hcall₃'))
  rw [hsize] at hfits₁ hfits₂ hfits₃ hplaces
  exact ⟨⟨fun _ => hfits₁, fun _ => hfits₂, fun _ => hfits₃⟩, rfl, hplaces⟩

/-- `addDataID` works only if one more ID fits. -/
theorem places_of_addDataID (h : block.Places ledger) {id : BlockID} {block' : MetaBlock}
    {done : Bool} (hrun : block.addDataID id = .ok (block', done)) :
    ledger.FitsData ∧
      (done = true → block'.Places { ledger with count := ledger.count + 1 }) := by
  cases hfirst : ledger.first with
  | none =>
      obtain ⟨-, hnone⟩ := h.addDataID_none hfirst id
      obtain ⟨rfl, rfl⟩ := Prod.mk.inj (Except.ok.inj (hrun.symm.trans hnone))
      exact ⟨by simp [Ledger.FitsData, hfirst], by simp⟩
  | some first =>
      obtain ⟨hiff, hnext⟩ := h.addDataID_some hfirst id
      have hfits := hiff.mp (@MetaCall.inside_of_run _ h.length (.addDataID id) _ hrun)
      obtain ⟨added, hadded, hplaces⟩ := hnext hfits
      obtain ⟨rfl, rfl⟩ := Prod.mk.inj (Except.ok.inj (hrun.symm.trans hadded))
      refine ⟨fun first' hfirst' => ?_, fun _ => hfirst ▸ hplaces⟩
      rw [hfirst] at hfirst'
      rwa [← Option.some.inj hfirst']

/-- A round that works fits, and keeps the places if the loop goes on. -/
theorem places_of_receiveMessage {up up' : Upload} (h : up.metaBlock.Places ledger) {input : Input}
    {reply : Option MessageCmd} {outcome : Outcome}
    (hrun : receiveMessage up input = .ok (up', reply, outcome)) :
    ledger.Fits input ∧ (outcome = .goesOn → up'.metaBlock.Places (ledger.note input)) := by
  unfold receiveMessage at hrun
  by_cases hmeta : input.msg.Is .upFileMeta
  · have hdata : ¬ input.msg.Is .upFileData := fun hdata => absurd (hmeta.eq hdata) (by simp)
    rw [if_pos hmeta] at hrun
    obtain ⟨⟨block, done⟩, hsetup, hrun⟩ := bind_eq_ok_iff.mp hrun
    obtain ⟨hfits, rfl, hplaces⟩ := places_of_setupMeta h hsetup
    refine ⟨⟨fun _ => hfits, fun hdata' => absurd hdata' hdata⟩, fun _ => ?_⟩
    rw [Ledger.note, if_pos hmeta]
    dsimp only at hrun
    rw [if_neg (by simp)] at hrun
    obtain ⟨name, -, hrun⟩ := bind_eq_ok_iff.mp hrun
    obtain ⟨existing, -, hrun⟩ := bind_eq_ok_iff.mp hrun
    obtain ⟨rfl, -⟩ := Prod.mk.inj (Except.ok.inj hrun)
    exact hplaces
  rw [if_neg hmeta] at hrun
  by_cases hdata : input.msg.Is .upFileData
  · rw [if_pos hdata] at hrun
    obtain ⟨⟨up₁, done⟩, hsetup, hrun⟩ := bind_eq_ok_iff.mp hrun
    unfold setupData at hsetup
    split at hsetup
    next hlong =>
      obtain ⟨rfl, rfl⟩ := Prod.mk.inj (Except.ok.inj hsetup)
      obtain ⟨-, hreply⟩ := Prod.mk.inj (Except.ok.inj hrun)
      obtain ⟨-, rfl⟩ := Prod.mk.inj hreply
      exact ⟨⟨fun h => absurd h hmeta, fun _ hle => absurd hlong (Nat.not_lt.mpr hle)⟩, by simp⟩
    next =>
      obtain ⟨⟨block, added⟩, hadd, hpure⟩ := bind_eq_ok_iff.mp hsetup
      obtain ⟨rfl, rfl⟩ := Prod.mk.inj (Except.ok.inj hpure)
      obtain ⟨hfits, hplaces⟩ := places_of_addDataID h hadd
      refine ⟨⟨fun h => absurd h hmeta, fun _ _ => hfits⟩, fun hgoes => ?_⟩
      rw [Ledger.note, if_neg hmeta, if_pos hdata]
      cases added with
      | false =>
          obtain ⟨-, hreply⟩ := Prod.mk.inj (Except.ok.inj hrun)
          obtain ⟨-, rfl⟩ := Prod.mk.inj hreply
          exact absurd hgoes (by simp)
      | true =>
          obtain ⟨rfl, -⟩ := Prod.mk.inj (Except.ok.inj hrun)
          exact hplaces rfl
  rw [if_neg hdata] at hrun
  refine ⟨⟨fun h => absurd h hmeta, fun h => absurd h hdata⟩, fun hgoes => ?_⟩
  rw [Ledger.note, if_neg hmeta, if_neg hdata]
  split at hrun
  next =>
    obtain ⟨name, -, hrun⟩ := bind_eq_ok_iff.mp hrun
    obtain ⟨⟨tree, added⟩, -, hrun⟩ := bind_eq_ok_iff.mp hrun
    dsimp only at hrun
    split at hrun
    all_goals
      obtain ⟨-, hreply⟩ := Prod.mk.inj (Except.ok.inj hrun)
      obtain ⟨-, rfl⟩ := Prod.mk.inj hreply
      exact absurd hgoes (by simp)
  next =>
    obtain ⟨rfl, -⟩ := Prod.mk.inj (Except.ok.inj hrun)
    exact h

end Rounds

/-! ## The messages of a whole upload -/

/-- The rounds of `receiveFile` after which the loop goes on. -/
def uploading (manager : BlockManager) (tree : FileTree) : System Upload Input where
  init up := ∃ block, MetaBlock.newMeta = .ok block ∧ up = ⟨block, manager, tree⟩
  step up input up' := ∃ reply, receiveMessage up input = .ok (up', reply, .goesOn)

section Uploading

variable {manager : BlockManager} {tree : FileTree} {past : List Input} {up : Upload}

theorem receiveLoop_of_steps {start : Upload} (hsteps : (uploading manager tree).Steps start past up)
    (rest : List Input) : receiveLoop start (past ++ rest) = receiveLoop up rest := by
  induction hsteps with
  | nil => rfl
  | cons hstep _ ih =>
      obtain ⟨reply, hmessage⟩ := hstep
      rw [List.cons_append, receiveLoop_cons hmessage, ih]

/-- After these rounds `receiveFile` goes on with the other messages. -/
theorem receiveFile_of_run (hrun : (uploading manager tree).Run past up) (rest : List Input) :
    receiveFile manager tree (past ++ rest) = receiveLoop up rest := by
  obtain ⟨start, ⟨block, hnew, rfl⟩, hsteps⟩ := hrun
  rw [receiveFile, hnew, ok_bind, receiveLoop_of_steps hsteps]

theorem places_of_steps {start : Upload} {ledger : Ledger}
    (hsteps : (uploading manager tree).Steps start past up) (h : start.metaBlock.Places ledger) :
    up.metaBlock.Places (past.foldl Ledger.note ledger) := by
  induction hsteps generalizing ledger with
  | nil => exact h
  | cons hstep _ ih =>
      obtain ⟨reply, hmessage⟩ := hstep
      exact ih ((places_of_receiveMessage h hmessage).2 rfl)

/-- The ledger of the messages says where the fields of the meta block are. -/
theorem places_of_run (hrun : (uploading manager tree).Run past up) :
    up.metaBlock.Places (.ofInputs past) := by
  obtain ⟨start, ⟨block, hnew, rfl⟩, hsteps⟩ := hrun
  rw [newMeta_eq] at hnew
  obtain rfl := Except.ok.inj hnew
  exact places_of_steps hsteps
    ⟨length_allocateMem, rfl, fun _ => rfl, rfl, Or.inl ⟨rfl, rfl, rfl⟩⟩

/-- What the setters write stays inside the meta block in every round, and a message whose
facts or IDs do not fit is refused. -/
def Bounded (manager : BlockManager) (tree : FileTree) (inputs : List Input) : Prop :=
  ∀ past input rest up, inputs = past ++ input :: rest → (uploading manager tree).Run past up →
    (∀ write ∈ writes up input, write.Inside) ∧
      (¬ (Ledger.ofInputs past).Fits input →
        ∃ up', receiveMessage up input = .ok (up', some .fileError, .failed))

/-- A message that does not fit is never refused: the round leaves the block. -/
theorem receiveMessage_of_not_fits (hrun : (uploading manager tree).Run past up) {input : Input}
    (hfull : ¬ (Ledger.ofInputs past).Fits input) (result : Upload × Option MessageCmd × Outcome) :
    receiveMessage up input ≠ .ok result := by
  intro hmessage
  exact hfull (places_of_receiveMessage (places_of_run hrun) hmessage).1

/-- The writes of an upload stay inside exactly if every message that the loop comes to fits. -/
theorem bounded_iff (manager : BlockManager) (tree : FileTree) (inputs : List Input) :
    Bounded manager tree inputs ↔
      ∀ past input rest up, inputs = past ++ input :: rest → (uploading manager tree).Run past up →
        (Ledger.ofInputs past).Fits input := by
  constructor
  · intro hbounded past input rest up hinputs hrun
    exact (inside_writes_iff (places_of_run hrun) input).mp
      (hbounded past input rest up hinputs hrun).1
  · intro hfits past input rest up hinputs hrun
    have hfit := hfits past input rest up hinputs hrun
    exact ⟨(inside_writes_iff (places_of_run hrun) input).mpr hfit, fun hfull => absurd hfit hfull⟩

/-- A name that ends behind the end of the block is copied all the same. -/
theorem not_bounded_of_long_name {name : Bytes} (hlong : blockSize < 8 + name.length)
    (hlength : name.length < 2 ^ 64) (time size : UInt64) (opens : Bool) :
    ¬ Bounded manager tree [⟨metaMessage name time size, opens⟩] := by
  intro hbounded
  have hrun : (uploading manager tree).Run [] ⟨_, manager, tree⟩ :=
    ⟨_, ⟨_, newMeta_eq, rfl⟩, .nil _⟩
  obtain ⟨hinside, -⟩ := hbounded [] _ [] _ rfl hrun
  have hmeta : (metaMessage name time size).Is .upFileMeta := rfl
  have hdata : (metaMessage name time size).data = metaData name time size := rfl
  obtain ⟨hfirst, -⟩ := ((inside_writes_iff (places_of_run hrun) _).mp hinside).1 hmeta
  dsimp only at hfirst
  obtain ⟨hpart, -⟩ := part_metaData name time size []
  have hname : nameLength (metaData name time size) = name.length := by
    rw [List.append_nil] at hpart
    rw [nameLength, hpart, bytesOf, ofLE_le_of_lt (UInt64.toNat_lt _), UInt64.toNat_ofNat',
      Nat.mod_eq_of_lt hlength]
  rw [hdata, hname, length_metaData] at hfirst
  have hfits := hfirst (by omega)
  omega

/-- A name as long as a block. -/
theorem exists_not_bounded : ∃ inputs, ∀ manager tree, ¬ Bounded manager tree inputs := by
  have hlength : (List.replicate blockSize (97 : UInt8)).length = blockSize := List.length_replicate
  refine ⟨[⟨metaMessage (List.replicate blockSize 97) 0 0, true⟩], fun manager tree => ?_⟩
  apply not_bounded_of_long_name
  · rw [hlength]
    omega
  · rw [hlength, blockSize]
    omega

end Uploading

end FileUploader

end Doopey
