import Doopey.Block.BlockLoader
import Doopey.File.FileUploader

/-!
# The requests of clients and the broadcasts between machines

The handlers of `FileManager`. A handler that changes the file tree of its machine
may tell the others by a broadcast, and the machines that receive the broadcast
repeat the change.
-/

namespace Doopey

open Foundation

/-- The part of `class Router` that answers where a machine is. -/
structure Router where
  localIP : Bytes
  routingTable : MachineID → Option Bytes

/-- `Router::askMachineIP` on the machine `machineID`. -/
def Router.askMachineIP (router : Router) (machineID id : MachineID) : Bytes :=
  if machineID = id then router.localIP else (router.routingTable id).getD []

/-- What the handlers of a machine work on. -/
structure Store where
  manager : BlockManager
  tree : FileTree

namespace FileManager

/-- The broadcast of a new file. -/
def newFileMessage (fileName : Bytes) (id : BlockID) : Message :=
  (((Message.new .file .broadcastNewFile).addData (bytesOf (.ofNat fileName.length))).addData
    fileName).addData (bytesOf id)

/-- The broadcast of a new directory. -/
def newDirMessage (dir : Bytes) : Message := (Message.new .file .broadcastNewDir).addData dir

/-- The broadcast of the removal of a file. -/
def rmFileMessage (path : Bytes) : Message := (Message.new .file .broadcastRmFile).addData path

/-- `FileManager::handleUpload`: the new state, the broadcast, and whether the
client has received `MC_FileACK` for its request. -/
def handleUpload (store : Store) (inputs : List Input) :
    Except Fault (Store × Option Message × Bool) := do
  let (block, up) ← FileUploader.receiveFile store.manager store.tree inputs
  match block with
  | none => .ok (⟨up.manager, up.tree⟩, none, false)
  | some block => do
      let fileName ← block.getFileName
      .ok (⟨up.manager, up.tree⟩, some (newFileMessage fileName block.id), true)

/-- `FileManager::handleAddDir` -/
def handleAddDir (store : Store) (dir : Bytes) :
    Except Fault (Store × Option Message × Bool) := do
  let (tree, success) ← store.tree.addDir dir
  .ok (⟨store.manager, tree⟩,
    if success then some (newDirMessage dir) else none, success)

/-- `FileManager::handleRemove`. Removing a directory is not broadcast. -/
def handleRemove (remote : Remote) (fuel : Nat) (store : Store) (msg : Message) :
    Except Fault (Store × Option Message × Bool) :=
  if msg.Is .rmDir then do
    let (tree, success) ← FileTree.removeDir fuel store.tree msg.data
    .ok (⟨store.manager, tree⟩, none, success)
  else if msg.Is .rmFile then do
    let id ← store.tree.getMetaID msg.data
    if id = 0 then .ok (store, none, false)
    else do
      -- the path is removed before its blocks are looked for
      let (tree, _) ← store.tree.removeFile msg.data
      let block ← store.manager.getMeta remote id
      match block with
      -- `cleanData` follows the pointer without a check
      | none => .error .badPointer
      | some block => do
          let manager ← FileUploader.cleanData block store.manager
          .ok (⟨manager, tree⟩, some (rmFileMessage msg.data), true)
  else .ok (store, none, false)

/-- `FileManager::handleBroadcast` -/
def handleBroadcast (fuel : Nat) (tree : FileTree) (msg : Message) :
    Except Fault (FileTree × Bool) :=
  if msg.Is .broadcastNewFile then do
    let length ← readUInt64 msg.data 0
    let name ← readAt msg.data 8 length.toNat
    let block ← readUInt64 msg.data (8 + length.toNat)
    tree.addFile name block
  else if msg.Is .broadcastNewDir then tree.addDir msg.data
  else if msg.Is .broadcastRmFile then tree.removeFile msg.data
  else if msg.Is .broadcastRmDir then FileTree.removeDir fuel tree msg.data
  else .ok (tree, false)

/-- The message with the place of one data block. If the block is not found, an
error is sent and the pointer is followed all the same. -/
def locationMessage (remote : Remote) (router : Router) (manager : BlockManager)
    (block : MetaBlock) (number : Nat) : Except Fault Message := do
  let id ← block.getDataBlockID (.ofNat number)
  match manager.askBlock remote id with
  | none => .error .badPointer
  | some machine => .ok (((Message.new .file .requestFile).addData (bytesOf id)).addData
      (router.askMachineIP manager.machineID machine))

/-- `FileManager::handleGetFile`: the replies to the client. -/
def handleGetFile (remote : Remote) (router : Router) (store : Store) (path : Bytes) :
    Except Fault (List Message × Bool) := do
  let metaID ← store.tree.getMetaID path
  if metaID = 0 then .ok ([.new .file .fileError], false)
  else do
    let block ← store.manager.getMeta remote metaID
    match block with
    | none => .ok ([.new .file .fileError], false)
    | some block => do
        let filesize ← block.getFileSize
        let nBlock ← block.getDataBlockNumber
        let locations ←
          (List.range nBlock.toNat).mapM (locationMessage remote router store.manager block)
        .ok (.new .file .fileACK ::
          (Message.new .file .requestFile).addData (bytesOf filesize) ::
          (Message.new .file .requestFile).addData (bytesOf nBlock) ::
          (locations ++ [.new .file .fileACK]), true)

end FileManager

end Doopey
