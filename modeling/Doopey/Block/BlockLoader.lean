import Doopey.Block.BlockManager
import Doopey.Common.Message

/-!
# Loading blocks

A block is loaded from the directory of the machine if the machine lists its ID,
and from another machine otherwise. What the other machines know and send is a
parameter.
-/

namespace Doopey

open Foundation

/-- What a machine learns from the other ones about a block it does not list. -/
structure Remote where
  /-- The machine that is chosen of those known to have the block. -/
  askBlock : BlockID → Option MachineID
  /-- The contents that a machine sends. -/
  getData : MachineID → BlockID → Option Bytes

namespace BlockManager

/-- Read the file of a block into new memory. -/
def loadFile (content : Bytes) : Bytes := overwrite allocateMem 0 (content.take blockSize)

/-- `BlockLoader::handleRequestBlockData`. Nothing is sent without the file. -/
def handleRequestBlockData (manager : BlockManager) (msg : Message) :
    Except Fault (Option Message) := do
  let id ← readUInt64 msg.data 0
  match manager.files id with
  | none => .ok none
  | some content => .ok (some ((Message.new .block .blockACK).addData (loadFile content)))

variable (remote : Remote)

/-- `BlockResolver::askBlock` -/
def askBlock (manager : BlockManager) (id : BlockID) : Option MachineID :=
  match manager.localIDs id with
  | some _ => some manager.machineID
  | none => remote.askBlock id

/-- `BlockLoader::getData` -/
def getData (manager : BlockManager) (id : BlockID) (machine : MachineID) : Option Bytes :=
  if machine = manager.machineID then (manager.files id).map loadFile
  else remote.getData machine id

/-- `BlockManager::getMeta`, which returns `NULL` if the block is not found. -/
def getMeta (manager : BlockManager) (id : BlockID) : Except Fault (Option MetaBlock) :=
  match manager.askBlock remote id with
  | none => .ok none
  | some machine =>
      match manager.getData remote id machine with
      | none => .ok none
      | some data => do
          let block ← MetaBlock.ofData data id
          .ok (some block)

theorem loadFile_eq {content : Bytes} (hlength : content.length = blockSize) :
    loadFile content = content := by
  rw [loadFile, overwrite, List.take_zero, List.nil_append, List.take_of_length_le (by omega),
    hlength, Nat.zero_add, List.drop_of_length_le (Nat.le_of_eq length_allocateMem),
    List.append_nil]

theorem askBlock_of_listed {manager : BlockManager} {id : BlockID} {machines : List MachineID}
    (hlisted : manager.localIDs id = some machines) :
    manager.askBlock remote id = some manager.machineID := by
  rw [askBlock, hlisted]

/-- A block of the machine itself is loaded from its file. -/
theorem getMeta_of_listed {manager : BlockManager} {id : BlockID} {machines : List MachineID}
    (hlisted : manager.localIDs id = some machines) {content : Bytes}
    (hfile : manager.files id = some content) (hlength : content.length = blockSize)
    {block : MetaBlock} (hblock : MetaBlock.ofData content id = .ok block) :
    manager.getMeta remote id = .ok (some block) := by
  rw [getMeta, askBlock_of_listed remote hlisted]
  dsimp only
  rw [getData, if_pos rfl, hfile, Option.map_some, loadFile_eq hlength]
  dsimp only
  rw [hblock, ok_bind]

end BlockManager

end Doopey
