import Doopey.Block.RestartedNodes
import Doopey.File.TreeReplay
import Doopey.Machine.StorageDownload
import Doopey.Network.Router

/-!
# Servers that stop and start

A server that stops writes its machine ID and its file tree to a snapshot. Its directory of
blocks stays as it is, and what else it had in its heap is gone: the lists of its blocks, its
counter, the calls that were under way and the uploads. A server that is killed starts from the
snapshot that it wrote when it stopped before. If it is killed while it writes a snapshot or a
block, the file is cut off.
-/

namespace Doopey

open Foundation

/-- What is in the file of a snapshot, and whether all of it was written. -/
structure SnapshotFile where
  content : Bytes
  whole : Bool

/-- Machines that store files, with their snapshot files. -/
structure RestartNet where
  storage : StorageNet
  snapshots : MachineID → Option SnapshotFile

/-- What can happen to them. -/
inductive RestartEvent
  | runs (event : StorageEvent)
  /-- `saveSnapshot` is called, and gets as far as to this number of bytes. -/
  | saves (n : MachineID) (written : Nat)
  /-- The server ends at any point, also while it writes the file of a block, and a new one
  finds these names in its directory. -/
  | restarts (n : MachineID) (torn : Option BlockID) (names : List Bytes)

/-- What the process of a machine leaves in its directory. If `saveBlock` was about to write a
file, it may be cut off. -/
inductive BlockNet.Leaves (blockReplica : UInt64) (net : BlockNet) (n : MachineID) :
    Option BlockID → BlockNet → Prop
  | whole : Leaves blockReplica net n none net
  | torn (data : Bytes) (id written : BlockID) (node : BlockNode) (kept : Nat)
      (hsave : (net.nodes n).saveBlock blockReplica n true data id = (written, node)) :
      Leaves blockReplica net n (some written) { net with
        nodes := Function.update net.nodes n { net.nodes n with
          files := Function.update (net.nodes n).files written (some (data.take kept)) } }

/-- `Router::initMachineID` may make this ID out of that in the snapshot. It depends on the
neighbors, and on what they answer. -/
def RouterNode.MayTake (oldID id : MachineID) : Prop :=
  ∃ (node given : RouterNode) (localIP : Bytes) (checked : Option RouterNode)
    (reached : Bytes → Option RouterNode), node.machineID = oldID ∧
      node.initMachineID localIP checked reached = .ok given ∧ given.machineID = id

namespace RestartNet

/-- No machine has a file yet, or a snapshot. -/
def empty (keyHash : Bytes → Nat) : RestartNet := ⟨.empty keyHash, fun _ => none⟩

/-- `Server::loadSnapshot`, which leaves a new server without ID if there is no file. -/
def loadSnapshot (s : RestartNet) (n : MachineID) (tree : FileTree) :
    Except Fault (MachineID × FileTree) :=
  match s.snapshots n with
  | none => .ok (0, tree)
  | some file => Server.loadSnapshot file.content tree

/-- A server that has started on the files that an earlier one has left. No upload to it goes
on, and no cleanup. -/
def restarted (blockReplica : UInt64) (s : RestartNet) (n : MachineID) (net : BlockNet)
    (names : List Bytes) (tree : FileTree) : RestartNet :=
  { s with storage := { s.storage.serve n (net.restart blockReplica n names) tree [] with
      cleanups := Function.update s.storage.cleanups n [] } }

@[simp] theorem trees_restarted_self (blockReplica : UInt64) (s : RestartNet) (n : MachineID)
    (net : BlockNet) (names : List Bytes) (tree : FileTree) :
    (s.restarted blockReplica n net names tree).storage.trees n = tree := Function.update_self ..

end RestartNet

/-- The steps of such machines. A server that starts gets its ID back from
`Router::initMachineID`: under another one it would be another machine. -/
inductive RestartStep (blockReplica : UInt64) (keyHash : Bytes → Nat) (s : RestartNet) :
    RestartEvent → RestartNet → Prop
  | runs (event : StorageEvent) (storage : StorageNet)
      (hstep : StorageStep blockReplica s.storage event storage) :
      RestartStep blockReplica keyHash s (.runs event) { s with storage := storage }
  | saves (n : MachineID) (written fuel : Nat) (content : Bytes)
      (hsave : Server.saveSnapshot fuel n (s.storage.trees n) = .ok content) :
      RestartStep blockReplica keyHash s (.saves n written) { s with
        snapshots := Function.update s.snapshots n
          (some ⟨content.take written, content.length ≤ written⟩) }
  | restarts (n oldID : MachineID) (torn : Option BlockID) (net : BlockNet) (names : List Bytes)
      (tree : FileTree) (hn : n ≠ 0) (hleaves : s.storage.net.Leaves blockReplica n torn net)
      (hnames : (net.nodes n).Lists names)
      (hload : s.loadSnapshot n (.new keyHash) = .ok (oldID, tree))
      (hID : RouterNode.MayTake oldID n) :
      RestartStep blockReplica keyHash s (.restarts n torn names)
        (s.restarted blockReplica n net names tree)

/-- Machines that start without files. -/
def restartSystem (blockReplica : UInt64) (keyHash : Bytes → Nat) :
    System RestartNet RestartEvent where
  init s := s = .empty keyHash
  step := RestartStep blockReplica keyHash

/-- What is entered in a tree can be written to a snapshot and read back. -/
def StorageEvent.Plain : StorageEvent → Prop
  | .blocks (.save n _ _) => n.toNat < 2 ^ 31
  | .put _ file => FileTree.Canonical file.path
  | .receive n _ _ => n.toNat < 2 ^ 31
  | .addDir _ dir => FileTree.Canonical dir
  | .blocks _ | .leaves _ _ | .cleans _ _ | .hear _ _ => True

/-- No block is deleted, every one can be saved, no counter comes around, and no path has a
separator in it. No server starts from a snapshot that was cut off, or after it was killed
while it wrote a block. -/
def RestartNet.Enduring (s : RestartNet) : RestartEvent → Prop
  | .runs event => s.storage.Enduring event ∧ event.Plain
  | .saves _ _ => True
  | .restarts n torn _ => torn = none ∧ ∀ file ∈ s.snapshots n, file.whole = true

/-- A server without neighbors keeps its ID. -/
theorem RouterNode.mayTake_self {id : MachineID} (hid : id ≠ 0) : MayTake id id := by
  have hneighbors : (RouterNode.new id).neighbors.isEmpty = true := rfl
  refine ⟨.new id, _, [], none, fun _ => none, rfl, initMachineID_of_isEmpty hneighbors .., ?_⟩
  have hID : (RouterNode.new id).machineID ≠ 0 := hid
  rw [if_neg hID]
  rfl

/-- A server that starts from a snapshot has the entries that were in the tree when it was
written. -/
theorem FileTree.Represents.reload {tree : FileTree} {ns : PathTree} {addr : Bytes → Nat}
    (h : Represents tree ns [] addr)
    (hportable : ∀ path id, ns.entry path = some id → Portable path id) (keyHash : Bytes → Nat)
    {fuel : Nat} {machineID : MachineID} {content : Bytes}
    (hsave : Server.saveSnapshot fuel machineID tree = .ok content) :
    ∃ tree' addr', Server.loadSnapshot content (new keyHash) = .ok (machineID, tree') ∧
      Represents tree' ns [] addr' := by
  obtain ⟨bound, hbound⟩ := h.exists_length_lt
  obtain ⟨paths, hwalk, horder⟩ := Namespace.inOrder_walk length_dirOf_lt ns hbound
  obtain ⟨tree', addr', haccepted, h'⟩ :=
    (represents_new keyHash).replay ns.rebuilt_initial horder
  have hbytes : ∀ path ∈ rootPath :: paths, ∀ b ∈ path, PlainByte b := by
    intro path hmem
    have hentry : ns.entry path ≠ none := by
      rcases List.mem_cons.mp hmem with rfl | hmem
      · simp [ns.root_entry]
      · exact (horder.mem.mp hmem).2
    obtain ⟨id, hid⟩ := Option.ne_none_iff_exists'.mp hentry
    exact (hportable path id hid).bytes
  -- any two bounds on the steps give the same dump
  obtain ⟨fuel', hdump⟩ := h.getTotalTree_walk hbound
  obtain ⟨dump, hdump', hsave⟩ := bind_eq_ok_iff.mp hsave
  have hextends {m n : Nat} (hle : m ≤ n) :
      Extends (getTotalTree m tree) (getTotalTree n tree) :=
    Extends.of_le (fun fuel => (getTotalNode_extends fuel).1 tree _ _) hle
  obtain rfl : dump = (ns.walk (bound + 1) rootPath).flatMap (lineOf ns) := by
    rcases Nat.le_total fuel fuel' with hle | hle
    · exact Except.ok.inj ((hextends hle _ hdump').symm.trans hdump)
    · exact Except.ok.inj (hdump'.symm.trans (hextends hle _ hdump))
  rw [hwalk, List.flatMap_cons] at hsave
  obtain rfl := Except.ok.inj hsave
  refine ⟨tree', addr', ?_, h'⟩
  have hread := readDump_words machineID (lineOf ns rootPath ++ paths.flatMap (lineOf ns))
  rw [words_dump hbytes, mapM_readRecord_of_portable (fun _ => horder.mem) hportable, ok_bind,
    List.filterMap_cons_none rfl, List.filterMap_map] at hread
  have hrecords : paths.filterMap (id ∘ fun path => some (path, (ns.entry path).getD 0)) =
      paths.map fun path => (path, (ns.entry path).getD 0) := by
    simp
  rw [hrecords] at hread
  rw [Server.loadSnapshot_save, FileManager.loadSnapshot_of_readDump hread, haccepted.foldlM,
    ok_bind]

end Doopey
