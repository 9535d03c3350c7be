import Doopey.File.FreedStorage
import Doopey.Machine.StorageDownload

/-!
# Files that are removed

Clients remove files and directories while others are uploaded and downloaded. A handler takes
the path of a file out of the tree of its machine, loads the meta block, and has the blocks
deleted one after the other before it tells the other machines. Between any two of these steps
the cluster goes on: deletions reach the machines when they do, and copies that are under way
are stored all the same.

The meta block of a file that is removed can be loaded. A handler of a deletion that fails takes
no step; that its machine ends with it is one of the runs in which that machine does nothing more.
-/

namespace Doopey

open Foundation FileUploader Client

/-- A call of `handleRemove` for a file: the meta block that it has found under the path, and
the blocks that it has yet to have deleted, once it has loaded the meta block. -/
structure Removal where
  metaID : BlockID
  path : Bytes
  left : Option (List BlockID)

/-- Machines that store files, with the removals that are under way, and the IDs of the files
that were to be removed so far. -/
structure RemovalNet where
  storage : StorageNet
  removals : MachineID → List Removal
  removed : List BlockID

/-- What can happen to them. -/
inductive RemovalEvent
  | runs (event : StorageEvent)
  /-- `handleRemove` is called for a file, and takes it out of the tree. -/
  | removeFile (n : MachineID) (path : Bytes)
  /-- `handleRemove` loads the meta block. -/
  | loads (n : MachineID) (k : Nat)
  /-- `cleanData` comes to the next block. -/
  | deletes (n : MachineID) (k : Nat)
  /-- `handleRemove` tells the others. -/
  | tells (n : MachineID) (k : Nat)
  | removeDir (n : MachineID) (path : Bytes)

/-- What a machine is sent of a block is what the other one has. -/
def StorageNet.Tells (s : StorageNet) (remote : Remote) : Prop :=
  ∀ m id data, remote.getData m id = some data →
    ∃ content, (s.net.nodes m).files id = some content ∧ data = BlockManager.loadFile content

namespace RemovalNet

/-- No machine has a file yet. -/
def empty (keyHash : Bytes → Nat) : RemovalNet := ⟨.empty keyHash, fun _ => [], []⟩

/-- The removals on one machine change. -/
def attend (s : RemovalNet) (n : MachineID) (storage : StorageNet) (removals : List Removal) :
    RemovalNet :=
  { s with storage := storage, removals := Function.update s.removals n removals }

/-- A machine goes over to another tree. -/
def replant (s : RemovalNet) (n : MachineID) (tree : FileTree) : StorageNet :=
  s.storage.serve n s.storage.net tree (s.storage.sessions n)

end RemovalNet

/-- The steps of such machines. -/
inductive RemovalStep (blockReplica : UInt64) (s : RemovalNet) : RemovalEvent → RemovalNet → Prop
  | runs (event : StorageEvent) (storage : StorageNet)
      (hstep : StorageStep blockReplica s.storage event storage) :
      RemovalStep blockReplica s (.runs event) { s with storage := storage }
  | removeFile (n : MachineID) (path : Bytes) (id : BlockID) (tree : FileTree) (result : Bool)
      (hmeta : (s.storage.trees n).getMetaID path = .ok id) (hid : id ≠ 0)
      (hremove : (s.storage.trees n).removeFile path = .ok (tree, result)) :
      RemovalStep blockReplica s (.removeFile n path)
        { s.attend n (s.replant n tree) (⟨id, path, none⟩ :: s.removals n) with
          removed := id :: s.removed }
  | loads (n : MachineID) (k : Nat) (removal : Removal) (store : Store) (remote : Remote)
      (ids : List BlockID) (hfound : (s.removals n)[k]? = some removal)
      (hstarts : removal.left = none) (hstore : s.storage.Has n store)
      (hremote : s.storage.Tells remote)
      (hlisted : FileManager.listed remote store.manager removal.metaID = some ids) :
      RemovalStep blockReplica s (.loads n k)
        (s.attend n s.storage ((s.removals n).set k { removal with
          left := some (FileManager.cleaned remote store.manager removal.metaID) }))
  | deletes (n : MachineID) (k : Nat) (removal : Removal) (id : BlockID) (rest : List BlockID)
      (net : BlockNet) (hfound : (s.removals n)[k]? = some removal)
      (hleft : removal.left = some (id :: rest))
      (hstep : BlockStep blockReplica s.storage.net (.delete n id) net) :
      RemovalStep blockReplica s (.deletes n k) (s.attend n { s.storage with net := net }
        ((s.removals n).set k { removal with left := some rest }))
  | tells (n : MachineID) (k : Nat) (removal : Removal)
      (hfound : (s.removals n)[k]? = some removal) (hleft : removal.left = some []) :
      RemovalStep blockReplica s (.tells n k) (s.attend n { s.storage with
        sent := FileManager.rmFileMessage removal.path :: s.storage.sent }
        ((s.removals n).eraseIdx k))
  | removeDir (n : MachineID) (path : Bytes) (fuel : Nat) (tree : FileTree) (result : Bool)
      (hremove : FileTree.removeDir fuel (s.storage.trees n) path = .ok (tree, result)) :
      RemovalStep blockReplica s (.removeDir n path) { s with storage := s.replant n tree }

/-- Machines that start without files. -/
def removalSystem (blockReplica : UInt64) (keyHash : Bytes → Nat) :
    System RemovalNet RemovalEvent where
  init s := s = .empty keyHash
  step := RemovalStep blockReplica

namespace RemovalNet

/-- Only removals have blocks deleted, no alive check takes machines out of a list that copies
are being made for, no counter comes around, every file fits into one meta block, and directories
are removed along links that are set. -/
def Enduring (s : RemovalNet) : RemovalEvent → Prop
  | .runs (.blocks event) => s.storage.net.Enduring event ∧ s.storage.net.Undisturbed event
  | .runs event => s.storage.Enduring event
  | .removeDir n path => (TreeOp.removeDir path).Unlinks (s.storage.trees n)
  | .removeFile _ _ | .loads _ _ | .deletes _ _ | .tells _ _ => True

/-- Nobody asks for the removal of the file with this meta block. -/
def Leaves (id : BlockID) (s : RemovalNet) : RemovalEvent → Prop
  | .removeFile n path => (s.storage.trees n).getMetaID path ≠ .ok id
  | _ => True

end RemovalNet

end Doopey
