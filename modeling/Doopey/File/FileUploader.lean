import Doopey.Block.BlockManager
import Doopey.Common.Message
import Doopey.File.FileTree

/-!
# Receiving a file

`FileUploader::receiveFile` takes the messages of an upload one after the other:
the name and the other facts about the file, its data in pieces of at most a
block, and the end. Each piece is saved as a data block whose ID goes into the
meta block, and the meta block is saved at the end.

The inputs of an upload are the messages, each with whether the file of a block
can be created if one is saved for it. A list of inputs that is used up stands
for a client that disconnects.
-/

namespace Doopey

open Foundation

/-- A message of an upload, and the outcome of the save it may lead to. -/
structure Input where
  msg : Message
  opens : Bool

/-- The objects that `receiveFile` works on. -/
structure Upload where
  metaBlock : MetaBlock
  manager : BlockManager
  tree : FileTree

/-- What the loop of `receiveFile` does after a message. -/
inductive Outcome
  | goesOn
  /-- `return NULL` -/
  | failed
  /-- `return meta` -/
  | completed
  deriving DecidableEq

namespace FileUploader

/-- `FileUploader::setupMeta` -/
def setupMeta (block : MetaBlock) (data : Bytes) : Except Fault (MetaBlock × Bool) := do
  let nameLength ← readUInt64 data 0
  let nameStr ← readAt data 8 nameLength.toNat
  let (block, named) ← block.setFileName nameStr
  if named = false then .ok (block, false)
  else do
    let ctime ← readUInt64 data (8 + nameLength.toNat)
    let (block, timed) ← block.setCreateTime ctime
    if timed = false then .ok (block, false)
    else do
      let size ← readUInt64 data (8 + nameLength.toNat + 8)
      block.setFileSize size

/-- `DataBlock::copyData` into a new block. -/
def newData (data : Bytes) : Bytes := overwrite allocateMem 0 data

/-- `FileUploader::setupData` -/
def setupData (up : Upload) (data : Bytes) (opens : Bool) : Except Fault (Upload × Bool) :=
  if blockSize < data.length then .ok (up, false)
  else do
    let (blockID, manager) := up.manager.saveBlock opens (newData data) 0
    -- `blockID` is `0` if the block could not be saved
    let (block, added) ← up.metaBlock.addDataID blockID
    .ok ({ up with metaBlock := block, manager := manager }, added)

/-- `FileUploader::cleanData` -/
def cleanData (block : MetaBlock) (manager : BlockManager) : Except Fault BlockManager := do
  let nBlock ← block.getDataBlockNumber
  if nBlock = 0 then .ok manager
  else do
    let manager ← (List.range nBlock.toNat).foldlM (fun manager i => do
      let id ← block.getDataBlockID (.ofNat i)
      manager.deleteBlock id) manager
    manager.deleteBlock block.id

/-- The blocks that `cleanData` deletes: those that are listed and then the meta block, and
none at all if none is listed. -/
theorem cleanData_of_dataIDs {block : MetaBlock} {ids : List BlockID}
    (hids : block.dataIDs = .ok ids) (manager : BlockManager) : cleanData block manager =
      manager.deleteBlocks (if ids = [] then [] else ids ++ [block.id]) := by
  obtain ⟨nBlock, hnumber, hread⟩ := bind_eq_ok_iff.mp hids
  have hlength := (mapM_eq_ok_iff.mp hread).length_eq
  rw [List.length_range] at hlength
  rw [cleanData, hnumber, ok_bind]
  split
  next hzero =>
    rw [hzero] at hlength
    rw [if_pos (List.length_eq_zero_iff.mp hlength.symm)]
    rfl
  next hne =>
    have hpos : ids ≠ [] := by
      rintro rfl
      exact hne (UInt64.toNat_inj.mp hlength)
    rw [foldlM_bind BlockManager.deleteBlock hread, if_neg hpos, BlockManager.deleteBlocks,
      List.foldlM_append]
    exact congrArg _ (funext fun manager => (bind_pure _).symm)

/-- The list is read to its end. -/
theorem exists_dataIDs_of_cleanData {block : MetaBlock} {manager manager' : BlockManager}
    (hrun : cleanData block manager = .ok manager') : ∃ ids, block.dataIDs = .ok ids := by
  obtain ⟨nBlock, hnumber, hrun⟩ := bind_eq_ok_iff.mp hrun
  rw [MetaBlock.dataIDs, hnumber, ok_bind]
  split at hrun
  next hzero =>
    rw [hzero]
    exact ⟨[], rfl⟩
  next =>
    obtain ⟨middle, hread, -⟩ := bind_eq_ok_iff.mp hrun
    exact exists_mapM_of_foldlM hread

/-- The case `MC_UpFileMeta`. A name that is in use is only reported. -/
def receiveMeta (up : Upload) (data : Bytes) :
    Except Fault (Upload × Option MessageCmd × Outcome) := do
  let (block, done) ← setupMeta up.metaBlock data
  let up := { up with metaBlock := block }
  if done = false then .ok (up, some .fileError, .failed)
  else do
    let name ← block.getFileName
    let checkExist ← up.tree.getMetaID name
    .ok (up, some (if checkExist ≠ 0 then .fileUploadRepeat else .fileACK), .goesOn)

/-- The case `MC_UpFileData` -/
def receiveData (up : Upload) (data : Bytes) (opens : Bool) :
    Except Fault (Upload × Option MessageCmd × Outcome) := do
  let (up, done) ← setupData up data opens
  if done = false then .ok (up, some .fileError, .failed)
  else .ok (up, some .fileACK, .goesOn)

/-- The case `MC_UpFileEnd` -/
def receiveEnd (up : Upload) (opens : Bool) :
    Except Fault (Upload × Option MessageCmd × Outcome) := do
  let (blockID, manager) := up.manager.saveBlock opens up.metaBlock.data up.metaBlock.id
  let block := if opens then { up.metaBlock with id := blockID } else up.metaBlock
  let name ← block.getFileName
  let (tree, added) ← up.tree.addFile name blockID
  let up := { up with metaBlock := block, manager := manager, tree := tree }
  if added = false then .ok (up, some .fileError, .failed)
  else .ok (up, some .fileACK, .completed)

/-- One round of the loop of `receiveFile`: the reply and what happens next. A
message of another type than `MT_File` is treated like any other. -/
def receiveMessage (up : Upload) (input : Input) :
    Except Fault (Upload × Option MessageCmd × Outcome) :=
  if input.msg.Is .upFileMeta then receiveMeta up input.msg.data
  else if input.msg.Is .upFileData then receiveData up input.msg.data input.opens
  else if input.msg.Is .upFileEnd then receiveEnd up input.opens
  else .ok (up, none, .goesOn)

/-- The loop of `receiveFile`; the meta block is the value it returns. -/
def receiveLoop (up : Upload) : List Input → Except Fault (Option MetaBlock × Upload)
  | [] => do
      let manager ← cleanData up.metaBlock up.manager
      .ok (none, { up with manager := manager })
  | input :: inputs => do
      let (up, _, outcome) ← receiveMessage up input
      match outcome with
      | .goesOn => receiveLoop up inputs
      | .failed => .ok (none, up)
      | .completed => .ok (some up.metaBlock, up)

/-- `FileUploader::receiveFile` -/
def receiveFile (manager : BlockManager) (tree : FileTree) (inputs : List Input) :
    Except Fault (Option MetaBlock × Upload) := do
  let metaBlock ← MetaBlock.newMeta
  receiveLoop ⟨metaBlock, manager, tree⟩ inputs

/-! ## The meta block during an upload -/

section Setup

variable {block : MetaBlock} {ids : List BlockID}

/-- `setupMeta` starts the list of IDs over. -/
theorem setupMeta_usable (h : block.Usable ids) {data : Bytes} {block' : MetaBlock} {done : Bool}
    (hrun : setupMeta block data = .ok (block', done)) :
    done = true ∧ block'.Usable [] ∧ block'.size.isSome ∧ block'.id = block.id := by
  unfold setupMeta at hrun
  obtain ⟨nameLength, -, hrun⟩ := bind_eq_ok_iff.mp hrun
  obtain ⟨nameStr, -, hrun⟩ := bind_eq_ok_iff.mp hrun
  obtain ⟨⟨named, _⟩, hname, hrun⟩ := bind_eq_ok_iff.mp hrun
  obtain ⟨rfl, data₁, filename, hlength₁, rfl⟩ := MetaBlock.setFileName_spec hname
  obtain ⟨ctime, -, hrun⟩ := bind_eq_ok_iff.mp hrun
  obtain ⟨⟨timed, _⟩, htime, hrun⟩ := bind_eq_ok_iff.mp hrun
  obtain ⟨rfl, data₂, place, hlength₂, rfl⟩ := MetaBlock.setCreateTime_spec rfl htime
  obtain ⟨size, -, hrun⟩ := bind_eq_ok_iff.mp hrun
  obtain ⟨rfl, data₃, place', hlength₃, rfl⟩ := MetaBlock.setFileSize_spec rfl hrun
  have hlength := hlength₃.trans (hlength₂.trans hlength₁)
  refine ⟨rfl, ⟨hlength.trans h.length, Or.inl ?_, rfl, by simp⟩, rfl, rfl⟩
  dsimp only
  by_cases hfilename : block.filename = none
  · -- a fresh object has no list either
    have hsize : block.size = none := by simpa [hfilename] using h.filename
    rcases h.lists with ⟨hnumber, hfirst, -⟩ | ⟨place, hnumber, -⟩
    · simp [hnumber, hfirst]
    · rw [h.blockNumber hsize] at hnumber
      exact absurd hnumber (by simp)
  · simp [hfilename]

end Setup

/-- What a round of the loop can do while `ids` are the IDs in the meta block. -/
inductive Received (up : Upload) (ids : List BlockID) (input : Input) :
    Upload → Option MessageCmd → Outcome → Prop
  | named (block : MetaBlock) (reply : MessageCmd) (hcmd : input.msg.Is .upFileMeta)
      (husable : block.Usable []) (hsize : block.size.isSome) (hid : block.id = up.metaBlock.id) :
      Received up ids input { up with metaBlock := block } (some reply) .goesOn
  | oversized (hcmd : input.msg.Is .upFileData) (hlong : blockSize < input.msg.data.length) :
      Received up ids input up (some .fileError) .failed
  | nameless (manager : BlockManager) (id : BlockID) (hcmd : input.msg.Is .upFileData)
      (hfits : ¬ blockSize < input.msg.data.length) (hsize : up.metaBlock.size = none)
      (hsave : up.manager.saveBlock input.opens (newData input.msg.data) 0 = (id, manager)) :
      Received up ids input { up with manager := manager } (some .fileError) .failed
  | stored (manager : BlockManager) (id : BlockID) (block : MetaBlock)
      (hcmd : input.msg.Is .upFileData) (hfits : ¬ blockSize < input.msg.data.length)
      (hsize : up.metaBlock.size.isSome)
      (hsave : up.manager.saveBlock input.opens (newData input.msg.data) 0 = (id, manager))
      (husable : block.Usable (ids ++ [id])) (hid : block.id = up.metaBlock.id)
      (hsize' : block.size.isSome) :
      Received up ids input { up with metaBlock := block, manager := manager }
        (some .fileACK) .goesOn
  | rejected (manager : BlockManager) (id : BlockID) (block : MetaBlock) (name : Bytes)
      (hcmd : input.msg.Is .upFileEnd)
      (hsave : up.manager.saveBlock input.opens up.metaBlock.data up.metaBlock.id = (id, manager))
      (hname : up.metaBlock.getFileName = .ok name)
      (hadd : up.tree.addFile name id = .ok (up.tree, false)) :
      Received up ids input { up with metaBlock := block, manager := manager }
        (some .fileError) .failed
  | entered (manager : BlockManager) (id : BlockID) (tree : FileTree) (name : Bytes)
      (hcmd : input.msg.Is .upFileEnd)
      (hsave : up.manager.saveBlock input.opens up.metaBlock.data up.metaBlock.id = (id, manager))
      (hname : up.metaBlock.getFileName = .ok name)
      (hadd : up.tree.addFile name id = .ok (tree, true)) :
      Received up ids input
        ⟨if input.opens then { up.metaBlock with id := id } else up.metaBlock, manager, tree⟩
        (some .fileACK) .completed
  | ignored (hmeta : ¬ input.msg.Is .upFileMeta) (hdata : ¬ input.msg.Is .upFileData)
      (hend : ¬ input.msg.Is .upFileEnd) : Received up ids input up none .goesOn

/-- The rounds of the loop are those of `Received`. -/
theorem received_of_receiveMessage {up up' : Upload} {ids : List BlockID} {input : Input}
    {reply : Option MessageCmd} {outcome : Outcome} (h : up.metaBlock.Usable ids)
    (hrun : receiveMessage up input = .ok (up', reply, outcome)) :
    Received up ids input up' reply outcome := by
  unfold receiveMessage at hrun
  split at hrun
  next hcmd =>
    obtain ⟨⟨block, done⟩, hsetup, hrun⟩ := bind_eq_ok_iff.mp hrun
    obtain ⟨rfl, husable, hsize, hid⟩ := setupMeta_usable h hsetup
    obtain ⟨name, -, hrun⟩ := bind_eq_ok_iff.mp hrun
    obtain ⟨checkExist, -, hrun⟩ := bind_eq_ok_iff.mp hrun
    obtain ⟨rfl, hreply⟩ := Prod.mk.inj (Except.ok.inj hrun)
    obtain ⟨rfl, rfl⟩ := Prod.mk.inj hreply
    exact .named block _ hcmd husable hsize hid
  next =>
    split at hrun
    next hcmd =>
      obtain ⟨⟨up₁, done⟩, hsetup, hrun⟩ := bind_eq_ok_iff.mp hrun
      unfold setupData at hsetup
      split at hsetup
      next hlong =>
        obtain ⟨rfl, rfl⟩ := Prod.mk.inj (Except.ok.inj hsetup)
        obtain ⟨rfl, hreply⟩ := Prod.mk.inj (Except.ok.inj hrun)
        obtain ⟨rfl, rfl⟩ := Prod.mk.inj hreply
        exact .oversized hcmd hlong
      next hfits =>
        cases hsave : up.manager.saveBlock input.opens (newData input.msg.data) 0 with
        | mk id manager =>
          rw [hsave] at hsetup
          obtain ⟨⟨block, added⟩, hadd, hsetup⟩ := bind_eq_ok_iff.mp hsetup
          obtain ⟨rfl, rfl⟩ := Prod.mk.inj (Except.ok.inj hsetup)
          rcases h.addDataID hadd with ⟨hsize, rfl, rfl⟩ | ⟨hsize, rfl, husable, hid, hsize'⟩
          · obtain ⟨rfl, hreply⟩ := Prod.mk.inj (Except.ok.inj hrun)
            obtain ⟨rfl, rfl⟩ := Prod.mk.inj hreply
            exact .nameless manager id hcmd hfits hsize hsave
          · obtain ⟨rfl, hreply⟩ := Prod.mk.inj (Except.ok.inj hrun)
            obtain ⟨rfl, rfl⟩ := Prod.mk.inj hreply
            exact .stored manager id block hcmd hfits hsize hsave husable hid (hsize' ▸ hsize)
    next hdata =>
      split at hrun
      next hcmd =>
        unfold receiveEnd at hrun
        cases hsave : up.manager.saveBlock input.opens up.metaBlock.data up.metaBlock.id with
        | mk id manager =>
          rw [hsave] at hrun
          obtain ⟨name, hname, hrun⟩ := bind_eq_ok_iff.mp hrun
          obtain ⟨⟨tree, added⟩, hadd, hrun⟩ := bind_eq_ok_iff.mp hrun
          have hname' : up.metaBlock.getFileName = .ok name := by
            rw [← hname]
            split <;> rfl
          cases added with
          | false =>
              obtain rfl := FileTree.eq_of_addFile_false hadd
              obtain ⟨rfl, hreply⟩ := Prod.mk.inj (Except.ok.inj hrun)
              obtain ⟨rfl, rfl⟩ := Prod.mk.inj hreply
              exact .rejected manager id _ name hcmd hsave hname' hadd
          | true =>
              obtain ⟨rfl, hreply⟩ := Prod.mk.inj (Except.ok.inj hrun)
              obtain ⟨rfl, rfl⟩ := Prod.mk.inj hreply
              exact .entered manager id tree name hcmd hsave hname' hadd
      next hend =>
        obtain ⟨rfl, hreply⟩ := Prod.mk.inj (Except.ok.inj hrun)
        obtain ⟨rfl, rfl⟩ := Prod.mk.inj hreply
        exact .ignored ‹_› hdata hend

/-- A round that goes on is followed by the next one. -/
theorem receiveLoop_cons {up up' : Upload} {input : Input} {reply : Option MessageCmd}
    (hmessage : receiveMessage up input = .ok (up', reply, .goesOn)) (inputs : List Input) :
    receiveLoop up (input :: inputs) = receiveLoop up' inputs := by
  rw [receiveLoop, hmessage, ok_bind]

/-- The loop completes an upload with the acknowledgement of its end only. -/
theorem completed_of_receiveMessage {up up' : Upload} {input : Input} {reply : Option MessageCmd}
    (hrun : receiveMessage up input = .ok (up', reply, .completed)) :
    input.msg.Is .upFileEnd ∧ reply = some .fileACK := by
  unfold receiveMessage at hrun
  split at hrun
  next =>
    obtain ⟨⟨block, done⟩, -, hrun⟩ := bind_eq_ok_iff.mp hrun
    dsimp only at hrun
    split at hrun
    next => simp at hrun
    next =>
      obtain ⟨name, -, hrun⟩ := bind_eq_ok_iff.mp hrun
      obtain ⟨checkExist, -, hrun⟩ := bind_eq_ok_iff.mp hrun
      simp at hrun
  next =>
    split at hrun
    next =>
      obtain ⟨⟨up₁, done⟩, -, hrun⟩ := bind_eq_ok_iff.mp hrun
      dsimp only at hrun
      split at hrun <;> simp at hrun
    next =>
      split at hrun
      next hcmd =>
        obtain ⟨name, -, hrun⟩ := bind_eq_ok_iff.mp hrun
        obtain ⟨⟨tree, added⟩, -, hrun⟩ := bind_eq_ok_iff.mp hrun
        dsimp only at hrun
        split at hrun
        next => simp at hrun
        next =>
          obtain ⟨-, hreply⟩ := Prod.mk.inj (Except.ok.inj hrun)
          exact ⟨hcmd, (Prod.mk.inj hreply).1.symm⟩
      next => simp at hrun

end FileUploader

end Doopey
