import Mathlib.Logic.Function.Basic
import Std.Data.TreeMap
import Doopey.Block.BlockLoader
import Doopey.Block.LocationAttr

/-!
# The location lists of a machine

The handlers of `BlockResolver` and `BlockManager` that keep the two maps from
block IDs to location lists. The maps hold shared pointers: a list is a cell of a
heap, which a handler may still hold when the map has another cell for the block.

`handleDoReplica` and `handleCopyBlockFromRemote` wait for other machines. What
is left of them to do is part of the state, and other handlers run meanwhile.
-/

namespace Doopey

open Foundation

/-- A message between the block managers of two machines. Lists of machines are
in the payload; a copy is acknowledged on the socket of its request. -/
inductive BlockMessage
  | requestBlockLocation (asker : MachineID) (id : BlockID)
  | requestBlockLocationACK (data : Bytes)
  | doReplica (data : Bytes)
  | updateReplica (data : Bytes)
  | copyBlockFromRemote (id : BlockID)
  | blockACK (id : BlockID)
  | doDelete (id : BlockID)
  | deleteBlock (id : BlockID)

/-- Whom `Router::sendTo` or `Router::broadcast` sends a message to. -/
inductive Target
  | machine (m : MachineID)
  | others

/-- What is left of a call of `handleDoReplica`: the machines that are yet to be
asked for a copy, and whether it waits for the answer of the first one. -/
structure ReplicaTask where
  block : BlockID
  attr : Nat
  candidate : List MachineID
  asked : Bool

/-- What is left of a call of `handleCopyBlockFromRemote`: with the bytes, once
they are loaded. -/
structure CopyTask where
  block : BlockID
  src : MachineID
  data : Option Bytes

/-- The block manager of a machine with its resolver. -/
structure BlockNode where
  localIDs : Std.TreeMap BlockID Nat
  remoteIDs : Std.TreeMap BlockID Nat
  localMax : LocalBlockID
  attrs : Nat → BlockLocationAttr
  brk : Nat
  files : BlockID → Option Bytes
  replicas : List ReplicaTask
  copies : List CopyTask

/-- `BlockResolver::remoteSizeMax` -/
def remoteSizeMax : Nat := 1000

namespace BlockNode

/-- A machine without blocks. -/
def empty : BlockNode where
  localIDs := ∅
  remoteIDs := ∅
  localMax := 0
  attrs := fun _ => ⟨0, [], .invalid⟩
  brk := 0
  files := fun _ => none
  replicas := []
  copies := []

variable (blockReplica : UInt64) (me : MachineID)

/-- A new list with one machine. -/
def attrOf (id : BlockID) (m : MachineID) : BlockLocationAttr :=
  BlockLocationAttr.addMachine blockReplica ⟨id, [], .available⟩ m

/-- `BlockResolver::forceAddLocalID` -/
def forceAddLocalID (node : BlockNode) (id : BlockID) : BlockNode :=
  { node with
    attrs := Function.update node.attrs node.brk (attrOf blockReplica id me)
    brk := node.brk + 1
    localIDs := node.localIDs.insert id node.brk
    remoteIDs := node.remoteIDs.erase id }

/-- `BlockResolver::forceAddRemoteID` -/
def forceAddRemoteID (node : BlockNode) (m : MachineID) (id : BlockID) : BlockNode :=
  { node with
    attrs := Function.update node.attrs node.brk (attrOf blockReplica id m)
    brk := node.brk + 1
    remoteIDs := node.remoteIDs.insert id node.brk }

/-- `BlockResolver::removeRemoteID` -/
def removeRemoteID (node : BlockNode) (id : BlockID) : BlockNode :=
  { node with remoteIDs := node.remoteIDs.erase id }

/-- `BlockResolver::removeLocalID` -/
def removeLocalID (node : BlockNode) (id : BlockID) : BlockNode :=
  { node with
    localIDs := node.localIDs.erase id
    files := Function.update node.files id none }

/-- Change a list in its place. -/
def modify (node : BlockNode) (attr : Nat) (change : BlockLocationAttr → BlockLocationAttr) :
    BlockNode := { node with attrs := Function.update node.attrs attr (change (node.attrs attr)) }

/-- `BlockResolver::addLocalID` -/
def addLocalID (node : BlockNode) (id : BlockID) : BlockNode :=
  if node.files id = none then node else node.forceAddLocalID blockReplica me id

/-- `BlockResolver::newLocalID` -/
def newLocalID (node : BlockNode) : BlockID × BlockNode :=
  (buildBlockID me (node.localMax + 1), { node with localMax := node.localMax + 1 })

/-- `BlockSaver::saveBlock` of a block with the ID `id`. -/
def saveBlock (node : BlockNode) (opens : Bool) (data : Bytes) (id : BlockID) :
    BlockID × BlockNode :=
  let (newID, node) := if id = 0 then node.newLocalID me else (id, node)
  if opens then
    (newID, { node with files := Function.update node.files newID (some data) }.addLocalID
      blockReplica me newID)
  else (0, node)

/-- One round of `cleanCache`: the first entry is erased. -/
def eraseFirst (node : BlockNode) : BlockNode :=
  match node.remoteIDs.minKey? with
  | none => node
  | some id => node.removeRemoteID id

/-- `BlockResolver::cleanCache` -/
def cleanCache (node : BlockNode) : BlockNode :=
  node.eraseFirst.eraseFirst.eraseFirst.eraseFirst.eraseFirst

/-- The entry that `BlockResolver::askBlockDetail` returns. When it looks it up,
`askBlock` has been through with its requests. -/
def askBlockDetail (node : BlockNode) (id : BlockID) : Option Nat :=
  (node.localIDs[id]?).or node.remoteIDs[id]?

/-- `BlockResolver::checkReplica` of an entry, where `alive` tells which machines
answer that they have the block. The loop goes from the last machine to the first
one. -/
def checkReplica (node : BlockNode) (attr : Nat) (alive : MachineID → Bool) :
    BlockNode × List (Target × BlockMessage) :=
  let id := (node.attrs attr).block
  let machine := (node.attrs attr).machine
  let left := machine.filter alive
  let node := node.modify attr fun attr => { attr with machine := left }
  match left with
  | [] => (node.removeRemoteID id, [])
  | first :: _ =>
      -- a machine that is erased sets the flag, too
      let requestReplica := decide (machine.length < blockReplica.toNat) || !machine.all alive
      (node, if requestReplica then [(.machine first, .doReplica (locationData id left))] else [])

/-- `BlockResolver::handleRequestBlockLocation` -/
def handleRequestBlockLocation (node : BlockNode) (asker : MachineID) (id : BlockID) :
    List (Target × BlockMessage) :=
  [(.machine asker, .requestBlockLocationACK (match node.localIDs[id]? with
    | none => []
    | some attr => locationData id (node.attrs attr).machine))]

/-- `BlockResolver::handleRequestBlockLocationACK`. The first machine is read
whether or not there is one. -/
def handleRequestBlockLocationACK (node : BlockNode) (data : Bytes) : Except Fault BlockNode :=
  if data = [] then .ok node
  else do
    let (id, machines) ← readLocation data
    match machines with
    | [] => .error .outOfBounds
    | m :: rest =>
        match node.remoteIDs[id]? with
        | some attr => .ok (node.modify attr (·.addMachines blockReplica (m :: rest)))
        | none =>
            let node := if remoteSizeMax ≤ node.remoteIDs.size then node.cleanCache else node
            let attr := node.brk
            let node := node.forceAddRemoteID blockReplica m id
            .ok (node.modify attr (·.addMachines blockReplica rest))

/-- `BlockResolver::handleUpdateReplica` -/
def handleUpdateReplica (node : BlockNode) (data : Bytes) : Except Fault BlockNode := do
  let (id, machines) ← readLocation data
  let setTo (node : BlockNode) : Option Nat → BlockNode
    | none => node
    | some attr => node.modify attr fun attr => { attr with machine := machines }
  .ok (setTo (setTo node node.localIDs[id]?) node.remoteIDs[id]?)

/-- `BlockManager::handleDoReplica` up to the point where it waits for the first
copy. `pick` is the answer of `pickMachineBesideList`. -/
def handleDoReplica (pick : List MachineID → UInt64 → List MachineID) (node : BlockNode)
    (data : Bytes) : Except Fault BlockNode := do
  let (id, machines) ← readLocation data
  match node.askBlockDetail id with
  | none => .ok node
  | some attr =>
      if (node.attrs attr).state ≠ .available then .ok node
      else
        -- the list of the message takes the place of the own one
        let node := node.modify attr fun attr =>
          { attr with machine := [] }.addMachines blockReplica machines
        let machine := (node.attrs attr).machine
        -- an unsigned difference, which may wrap around
        let candidate := pick machine (blockReplica - .ofNat machine.length)
        .ok { node with replicas := ⟨id, attr, candidate, false⟩ :: node.replicas }

/-- A copy was acknowledged, and the candidate is added to the list. -/
def addCandidate (node : BlockNode) (k : Nat) (task : ReplicaTask) (m : MachineID)
    (rest : List MachineID) : BlockNode :=
  { node.modify task.attr (·.addMachine blockReplica m) with
    replicas := node.replicas.set k { task with candidate := rest, asked := false } }

/-- The end of `handleDoReplica`: `BlockUpdater::updateRemoteBlockInfo` -/
def finishReplica (node : BlockNode) (k : Nat) (task : ReplicaTask) :
    BlockNode × List (Target × BlockMessage) :=
  let attr := node.attrs task.attr
  ({ node with replicas := node.replicas.eraseIdx k },
    [(.others, .updateReplica (locationData attr.block attr.machine))])

variable (room : Nat)

/-- `BlockManager::handleDeleteBlock`. It copies as many bytes as a block has; the program
fails unless `room` for them does no harm. -/
def handleDeleteBlock (node : BlockNode) (id : BlockID) : Except Fault BlockNode := do
  let id ← BlockManager.copyID room id
  .ok ((node.removeLocalID id).removeRemoteID id)

/-- `BlockManager::handleDoDelete` -/
def handleDoDelete (node : BlockNode) (id : BlockID) :
    Except Fault (BlockNode × List (Target × BlockMessage)) := do
  let id ← BlockManager.copyID room id
  match node.askBlockDetail id with
  | none => .ok (node, [])
  | some attr => do
      let node := node.modify attr fun attr => { attr with state := .deleting }
      let node ← node.handleDeleteBlock room id
      .ok (node, [(.others, .deleteBlock id)])

/-- `BlockManager::deleteBlock` -/
def deleteBlock (node : BlockNode) (id : BlockID) :
    Except Fault (BlockNode × List (Target × BlockMessage)) :=
  match node.askBlockDetail id with
  | none => .ok (node, [])
  | some attr =>
      match (node.attrs attr).machine with
      | [] => .ok (node, [])
      | first :: _ =>
          if me = first then node.handleDoDelete room id
          else .ok (node, [(.machine first, .doDelete id)])

/-- What `handleDeleteBlock` does if it does not fail. -/
def afterDeleteBlock (node : BlockNode) (id : BlockID) : BlockNode :=
  (node.removeLocalID id).removeRemoteID id

/-- What `handleDoDelete` does, and what it sends, if it does not fail. -/
def afterDoDelete (node : BlockNode) (id : BlockID) : BlockNode × List (Target × BlockMessage) :=
  match node.askBlockDetail id with
  | none => (node, [])
  | some attr =>
      ((node.modify attr fun attr => { attr with state := .deleting }).afterDeleteBlock id,
        [(.others, .deleteBlock id)])

/-- What `deleteBlock` does, and what it sends, if it does not fail. -/
def afterDelete (node : BlockNode) (id : BlockID) : BlockNode × List (Target × BlockMessage) :=
  match node.askBlockDetail id with
  | none => (node, [])
  | some attr =>
      match (node.attrs attr).machine with
      | [] => (node, [])
      | first :: _ =>
          if me = first then node.afterDoDelete id
          else (node, [(.machine first, .doDelete id)])

/-- `BlockManager::request`. An acknowledgement arrives elsewhere. -/
def request (pick : List MachineID → UInt64 → List MachineID) (node : BlockNode) (src : MachineID) :
    BlockMessage → Except Fault (BlockNode × List (Target × BlockMessage))
  | .requestBlockLocation asker id => .ok (node, node.handleRequestBlockLocation asker id)
  | .requestBlockLocationACK data => do
      let node ← node.handleRequestBlockLocationACK blockReplica data
      .ok (node, [])
  | .doReplica data => do
      let node ← node.handleDoReplica blockReplica pick data
      .ok (node, [])
  | .updateReplica data => do
      let node ← node.handleUpdateReplica data
      .ok (node, [])
  | .copyBlockFromRemote id => .ok ({ node with copies := ⟨id, src, none⟩ :: node.copies }, [])
  | .doDelete id => node.handleDoDelete room id
  | .deleteBlock id => do
      let node ← node.handleDeleteBlock room id
      .ok (node, [])
  | .blockACK _ => .ok (node, [])

/-- A new list has the machine alone. -/
theorem machine_attrOf {blockReplica : UInt64} (hreplica : 1 ≤ blockReplica)
    (id : BlockID) (m : MachineID) : (attrOf blockReplica id m).machine = [m] := by
  have hroom : ¬ blockReplica.toNat ≤ 0 := by
    have hone := UInt64.le_iff_toNat_le.mp hreplica
    exact Nat.not_le_of_lt hone
  unfold attrOf BlockLocationAttr.addMachine
  dsimp only [List.length_nil]
  rw [if_neg hroom, if_neg List.not_mem_nil]
  rfl

section Deletion

variable {me : MachineID} {room : Nat} {node node' : BlockNode} {id : BlockID}
  {sends : List (Target × BlockMessage)}

theorem handleDeleteBlock_eq (hroom : BlockManager.sizeofBlock ≤ room) (node : BlockNode)
    (id : BlockID) : node.handleDeleteBlock room id = .ok (node.afterDeleteBlock id) := by
  rw [handleDeleteBlock, BlockManager.copyID, if_pos hroom, ok_bind, afterDeleteBlock]

theorem handleDeleteBlock_fails (hroom : ¬ BlockManager.sizeofBlock ≤ room) (node : BlockNode)
    (id : BlockID) : node.handleDeleteBlock room id = .error .outOfBounds := by
  rw [handleDeleteBlock, BlockManager.copyID, if_neg hroom]
  rfl

theorem handleDoDelete_eq (hroom : BlockManager.sizeofBlock ≤ room) (node : BlockNode)
    (id : BlockID) : node.handleDoDelete room id = .ok (node.afterDoDelete id) := by
  rw [handleDoDelete, BlockManager.copyID, if_pos hroom, ok_bind, afterDoDelete]
  cases node.askBlockDetail id with
  | none => rfl
  | some attr =>
      dsimp only
      rw [handleDeleteBlock_eq hroom, ok_bind]

theorem handleDoDelete_fails (hroom : ¬ BlockManager.sizeofBlock ≤ room) (node : BlockNode)
    (id : BlockID) : node.handleDoDelete room id = .error .outOfBounds := by
  rw [handleDoDelete, BlockManager.copyID, if_neg hroom]
  rfl

theorem deleteBlock_eq (hroom : BlockManager.sizeofBlock ≤ room) (me : MachineID)
    (node : BlockNode) (id : BlockID) :
    node.deleteBlock me room id = .ok (node.afterDelete me id) := by
  unfold deleteBlock afterDelete
  cases node.askBlockDetail id with
  | none => rfl
  | some attr =>
      dsimp only
      cases (node.attrs attr).machine with
      | nil => rfl
      | cons first rest =>
          dsimp only
          split
          next => exact handleDoDelete_eq hroom node id
          next => rfl

/-- Handlers that come to their end have done what they are for. -/
theorem eq_of_handleDeleteBlock (hrun : node.handleDeleteBlock room id = .ok node') :
    BlockManager.sizeofBlock ≤ room ∧ node.afterDeleteBlock id = node' := by
  by_cases hroom : BlockManager.sizeofBlock ≤ room
  · rw [handleDeleteBlock_eq hroom] at hrun
    exact ⟨hroom, Except.ok.inj hrun⟩
  · rw [handleDeleteBlock_fails hroom] at hrun
    exact absurd hrun (by simp)

theorem eq_of_handleDoDelete (hrun : node.handleDoDelete room id = .ok (node', sends)) :
    BlockManager.sizeofBlock ≤ room ∧ node.afterDoDelete id = (node', sends) := by
  by_cases hroom : BlockManager.sizeofBlock ≤ room
  · rw [handleDoDelete_eq hroom] at hrun
    exact ⟨hroom, Except.ok.inj hrun⟩
  · rw [handleDoDelete_fails hroom] at hrun
    exact absurd hrun (by simp)

theorem eq_of_deleteBlock (hrun : node.deleteBlock me room id = .ok (node', sends)) :
    node.afterDelete me id = (node', sends) := by
  unfold deleteBlock at hrun
  unfold afterDelete
  cases hask : node.askBlockDetail id with
  | none =>
      rw [hask] at hrun
      exact Except.ok.inj hrun
  | some attr =>
      rw [hask] at hrun
      dsimp only at hrun ⊢
      cases hmachine : (node.attrs attr).machine with
      | nil =>
          rw [hmachine] at hrun
          exact Except.ok.inj hrun
      | cons first rest =>
          rw [hmachine] at hrun
          dsimp only at hrun ⊢
          split at hrun
          next heq =>
            rw [if_pos heq]
            exact (eq_of_handleDoDelete hrun).2
          next heq =>
            rw [if_neg heq]
            exact Except.ok.inj hrun

theorem eq_of_request_deleteBlock {blockReplica : UInt64}
    {pick : List MachineID → UInt64 → List MachineID} {src : MachineID}
    (hrun : node.request blockReplica room pick src (.deleteBlock id) = .ok (node', sends)) :
    BlockManager.sizeofBlock ≤ room ∧ node.afterDeleteBlock id = node' ∧ sends = [] := by
  obtain ⟨middle, hdelete, hrun⟩ := bind_eq_ok_iff.mp hrun
  obtain ⟨rfl, rfl⟩ := Prod.mk.inj (Except.ok.inj hrun)
  obtain ⟨hroom, heq⟩ := eq_of_handleDeleteBlock hdelete
  exact ⟨hroom, heq, rfl⟩

end Deletion

end BlockNode

end Doopey
