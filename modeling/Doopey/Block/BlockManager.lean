import Mathlib.Data.List.Induction
import Mathlib.Logic.Function.Basic
import Doopey.Block.MetaBlock

/-!
# The blocks of a machine

A machine keeps its blocks as files in a directory and lists their IDs, each with
the machines that are known to have a copy. New IDs are made of the machine ID
and a counter.

Whether a file can be created or not is an input of `saveBlock`. What the
requests to other machines lead to is not part of this module.
-/

namespace Doopey

open Foundation

/-- A `MachineID` other than `0` makes an ID other than `0`. -/
theorem buildBlockID_ne_zero {machine : MachineID} (hmachine : machine ≠ 0)
    (local_ : LocalBlockID) : buildBlockID machine local_ ≠ 0 := by
  have hpos : 0 < machine.toNat := by
    refine Nat.pos_of_ne_zero fun hzero => hmachine ?_
    rw [← UInt32.toNat_inj, hzero]
    rfl
  have hmachineLt := machine.toNat_lt
  have hlocalLt := local_.toNat_lt
  intro hzero
  have htoNat := congrArg UInt64.toNat hzero
  simp [buildBlockID, UInt64.toNat_add, UInt64.toNat_shiftLeft, Nat.shiftLeft_eq] at htoNat
  omega

/-- An ID gives back the number it was made of. -/
theorem getLocalIDFromBlockID_buildBlockID (machine : MachineID) (local_ : LocalBlockID) :
    getLocalIDFromBlockID (buildBlockID machine local_) = local_ := by
  rw [← UInt32.toNat_inj]
  simp [getLocalIDFromBlockID, buildBlockID, UInt64.toNat_shiftLeft, Nat.shiftLeft_eq]

/-- An ID gives back the machine that it was made by. -/
theorem getMachineIDFromBlockID_buildBlockID (machine : MachineID) (local_ : LocalBlockID) :
    getMachineIDFromBlockID (buildBlockID machine local_) = machine := by
  have hmachine := machine.toNat_lt
  have hlocal := local_.toNat_lt
  rw [← UInt32.toNat_inj]
  simp [getMachineIDFromBlockID, buildBlockID, UInt64.toNat_shiftLeft, Nat.shiftLeft_eq,
    UInt64.toNat_add, UInt64.toNat_shiftRight, Nat.shiftRight_eq_div_pow]
  omega

/-- The part of `class BlockManager` and of its resolver that is about the blocks
of the machine itself. No block has the ID `0`. The handlers of a deletion copy more
bytes than an ID has; `room` is how many they may copy before the program fails. -/
structure BlockManager where
  machineID : MachineID
  room : Nat
  localMax : LocalBlockID
  localIDs : BlockID → Option (List MachineID)
  files : BlockID → Option Bytes
  machineID_ne : machineID ≠ 0
  localIDs_zero : localIDs 0 = none
  files_zero : files 0 = none

namespace BlockManager

/-- `sizeof(Block)`: a pointer to the virtual functions, the data and the ID. -/
def sizeofBlock : Nat := 24

/-- `sizeof(BlockID)` -/
def sizeofBlockID : Nat := 8

/-- A machine that has no blocks yet, and on which no copy may leave its variable. -/
def new (machineID : MachineID) (hmachineID : machineID ≠ 0) : BlockManager where
  machineID := machineID
  room := sizeofBlockID
  localMax := 0
  localIDs := fun _ => none
  files := fun _ => none
  machineID_ne := hmachineID
  localIDs_zero := rfl
  files_zero := rfl

/-- `BlockResolver::newLocalID` -/
def newLocalID (manager : BlockManager) : BlockID × BlockManager :=
  let localMax := manager.localMax + 1
  (buildBlockID manager.machineID localMax, { manager with localMax := localMax })

/-- Write the file of a block and list its ID, as `forceAddLocalID` does. -/
def store (manager : BlockManager) (id : BlockID) (hid : id ≠ 0) (data : Bytes) :
    BlockManager where
  machineID := manager.machineID
  room := manager.room
  localMax := manager.localMax
  localIDs := Function.update manager.localIDs id (some [manager.machineID])
  files := Function.update manager.files id (some data)
  machineID_ne := manager.machineID_ne
  localIDs_zero := by rw [Function.update_of_ne hid.symm, manager.localIDs_zero]
  files_zero := by rw [Function.update_of_ne hid.symm, manager.files_zero]

/-- `BlockSaver::saveBlock`: the ID under which the block was saved, or `0` if its
file cannot be created. A block without an ID uses up a new one in either case. -/
def saveBlock (manager : BlockManager) (opens : Bool) (data : Bytes) (id : BlockID) :
    BlockID × BlockManager :=
  if hid : id = 0 then
    let advanced := manager.newLocalID.2
    if opens then (manager.newLocalID.1,
      advanced.store manager.newLocalID.1 (buildBlockID_ne_zero manager.machineID_ne _) data)
    else (0, advanced)
  else if opens then (id, manager.store id hid data)
  else (0, manager)

/-- `BlockResolver::removeLocalID` -/
def removeLocalID (manager : BlockManager) (id : BlockID) : BlockManager where
  machineID := manager.machineID
  room := manager.room
  localMax := manager.localMax
  localIDs := Function.update manager.localIDs id none
  files := Function.update manager.files id none
  machineID_ne := manager.machineID_ne
  localIDs_zero := by rw [Function.update_apply]; split <;> simp [manager.localIDs_zero]
  files_zero := by rw [Function.update_apply]; split <;> simp [manager.files_zero]

/-- `memcpy(&id, data, sizeof(Block))`, where the variable and the payload have room for an
ID only. The block is the one that the first eight bytes name. -/
def copyID (room : Nat) (id : BlockID) : Except Fault BlockID :=
  if sizeofBlock ≤ room then .ok id else .error .outOfBounds

/-- `BlockManager::handleDeleteBlock` -/
def handleDeleteBlock (manager : BlockManager) (id : BlockID) : Except Fault BlockManager := do
  let id ← copyID manager.room id
  .ok (manager.removeLocalID id)

/-- `BlockManager::handleDoDelete` of a block of the machine. What it sends to the others
leaves the machine as it is. -/
def handleDoDelete (manager : BlockManager) (id : BlockID) : Except Fault BlockManager := do
  let id ← copyID manager.room id
  match manager.localIDs id with
  | none => .ok manager
  | some _ => manager.handleDeleteBlock id

/-- `BlockManager::deleteBlock`, as far as it is about the blocks of the machine. If another
machine is the first one that is known to have the block, a request goes there. -/
def deleteBlock (manager : BlockManager) (id : BlockID) : Except Fault BlockManager :=
  match manager.localIDs id with
  | some (first :: _) =>
      if first = manager.machineID then manager.handleDoDelete id else .ok manager
  | _ => .ok manager

/-- The ID is listed, and its file exists. -/
def Stored (manager : BlockManager) (id : BlockID) : Prop :=
  manager.localIDs id ≠ none ∧ manager.files id ≠ none

/-- The ID is not listed, and there is no file for it. -/
def Unused (manager : BlockManager) (id : BlockID) : Prop :=
  manager.localIDs id = none ∧ manager.files id = none

/-- The ID that the next new block gets if it is saved. -/
def nextID (manager : BlockManager) : BlockID :=
  buildBlockID manager.machineID (manager.localMax + 1)

theorem nextID_ne_zero (manager : BlockManager) : manager.nextID ≠ 0 :=
  buildBlockID_ne_zero manager.machineID_ne _

/-- Saving a new block. -/
theorem saveBlock_new (manager : BlockManager) (opens : Bool) (data : Bytes) :
    ∃ manager', manager.saveBlock opens data 0 =
        (if opens then manager.nextID else 0, manager') ∧
      manager'.machineID = manager.machineID ∧ manager'.localMax = manager.localMax + 1 ∧
      (∀ id, manager'.localIDs id =
        if opens ∧ id = manager.nextID then some [manager.machineID] else manager.localIDs id) ∧
      ∀ id, manager'.files id =
        if opens ∧ id = manager.nextID then some data else manager.files id := by
  cases opens
  · exact ⟨manager.newLocalID.2, by simp [saveBlock], rfl, rfl, by simp [newLocalID],
      by simp [newLocalID]⟩
  · refine ⟨manager.newLocalID.2.store manager.newLocalID.1
      (buildBlockID_ne_zero manager.machineID_ne _) data, by simp [saveBlock, nextID, newLocalID],
      rfl, rfl, ?_, ?_⟩ <;>
    · intro id
      simp [store, newLocalID, nextID, Function.update_apply]

/-- Saving a block with or without an ID. -/
theorem saveBlock_spec (manager : BlockManager) (opens : Bool) (data : Bytes) (id : BlockID) :
    (manager.saveBlock opens data id).1 =
        (if opens then if id = 0 then manager.nextID else id else 0) ∧
      (manager.saveBlock opens data id).2.machineID = manager.machineID ∧
      (manager.saveBlock opens data id).2.localMax =
        (if id = 0 then manager.localMax + 1 else manager.localMax) ∧
      (manager.saveBlock opens data id).2.localIDs = (if opens then
        Function.update manager.localIDs (if id = 0 then manager.nextID else id)
          (some [manager.machineID]) else manager.localIDs) ∧
      (manager.saveBlock opens data id).2.files = (if opens then
        Function.update manager.files (if id = 0 then manager.nextID else id) (some data)
        else manager.files) := by
  unfold saveBlock
  by_cases hid : id = 0
  · rw [dif_pos hid, if_pos hid, if_pos hid]
    cases opens with
    | false => exact ⟨rfl, rfl, rfl, rfl, rfl⟩
    | true => exact ⟨rfl, rfl, rfl, rfl, rfl⟩
  · rw [dif_neg hid, if_neg hid, if_neg hid]
    cases opens with
    | false => exact ⟨rfl, rfl, rfl, rfl, rfl⟩
    | true => exact ⟨rfl, rfl, rfl, rfl, rfl⟩

@[simp] theorem room_saveBlock (manager : BlockManager) (opens : Bool) (data : Bytes)
    (id : BlockID) : (manager.saveBlock opens data id).2.room = manager.room := by
  unfold saveBlock
  split
  next => cases opens <;> rfl
  next => cases opens <;> rfl

/-! ## Several blocks -/

/-- The ID of the block that is saved after `count` others. -/
def idAfter (manager : BlockManager) (count : Nat) : BlockID :=
  buildBlockID manager.machineID (manager.localMax + .ofNat count + 1)

theorem idAfter_zero (manager : BlockManager) : manager.idAfter 0 = manager.nextID := by
  simp [idAfter, nextID]

theorem idAfter_saveBlock (manager : BlockManager) (data : Bytes) (count : Nat) :
    (manager.saveBlock true data 0).2.idAfter count = manager.idAfter (count + 1) := by
  obtain ⟨manager', hsave, hmachine, hmax, -⟩ := manager.saveBlock_new true data
  rw [hsave, idAfter, idAfter, hmachine, hmax, UInt32.ofNat_add, UInt32.add_assoc manager.localMax,
    UInt32.add_comm 1]
  rfl

/-- As long as the counter does not come around, every block has another ID. -/
theorem idAfter_inj (manager : BlockManager) {i j : Nat} (hi : i < 2 ^ 32) (hj : j < 2 ^ 32)
    (heq : manager.idAfter i = manager.idAfter j) : i = j := by
  have hlocal := congrArg getLocalIDFromBlockID heq
  rw [idAfter, idAfter, getLocalIDFromBlockID_buildBlockID, getLocalIDFromBlockID_buildBlockID,
    UInt32.add_left_inj, UInt32.add_right_inj] at hlocal
  have htoNat := congrArg UInt32.toNat hlocal
  rwa [UInt32.toNat_ofNat', UInt32.toNat_ofNat', Nat.mod_eq_of_lt hi, Nat.mod_eq_of_lt hj] at htoNat

/-- Saving several new blocks one after the other. -/
def saveBlocks (manager : BlockManager) (blocks : List Bytes) : BlockManager :=
  blocks.foldl (fun manager data => (manager.saveBlock true data 0).2) manager

theorem saveBlocks_concat (manager : BlockManager) (blocks : List Bytes) (data : Bytes) :
    manager.saveBlocks (blocks ++ [data]) = ((manager.saveBlocks blocks).saveBlock true data 0).2 := by
  rw [saveBlocks, List.foldl_append]
  rfl

theorem machineID_saveBlocks (manager : BlockManager) (blocks : List Bytes) :
    (manager.saveBlocks blocks).machineID = manager.machineID ∧
      (manager.saveBlocks blocks).localMax = manager.localMax + .ofNat blocks.length := by
  induction blocks using List.reverseRecOn with
  | nil => exact ⟨rfl, by simp [saveBlocks]⟩
  | append_singleton blocks data ih =>
      obtain ⟨manager', hsave, hmachine, hmax, -⟩ := (manager.saveBlocks blocks).saveBlock_new true data
      rw [saveBlocks_concat, hsave]
      refine ⟨hmachine.trans ih.1, ?_⟩
      rw [hmax, ih.2, List.length_append, List.length_singleton, UInt32.ofNat_add, UInt32.add_assoc]
      rfl

theorem room_saveBlocks (manager : BlockManager) (blocks : List Bytes) :
    (manager.saveBlocks blocks).room = manager.room := by
  induction blocks using List.reverseRecOn with
  | nil => rfl
  | append_singleton blocks data ih => rw [saveBlocks_concat, room_saveBlock, ih]

theorem nextID_saveBlocks (manager : BlockManager) (blocks : List Bytes) :
    (manager.saveBlocks blocks).nextID = manager.idAfter blocks.length := by
  obtain ⟨hmachine, hmax⟩ := manager.machineID_saveBlocks blocks
  rw [nextID, hmachine, hmax, idAfter]

/-- The blocks are found under their IDs, and later ones do not overwrite them. -/
theorem files_saveBlocks (manager : BlockManager) {blocks : List Bytes}
    (hlength : blocks.length ≤ 2 ^ 32) {i : Nat} {data : Bytes} (hdata : blocks[i]? = some data) :
    (manager.saveBlocks blocks).localIDs (manager.idAfter i) = some [manager.machineID] ∧
      (manager.saveBlocks blocks).files (manager.idAfter i) = some data := by
  induction blocks using List.reverseRecOn with
  | nil => exact absurd hdata (by simp)
  | append_singleton blocks last ih =>
      rw [List.length_append, List.length_singleton] at hlength
      obtain ⟨manager', hsave, -, -, hlocal, hfiles⟩ :=
        (manager.saveBlocks blocks).saveBlock_new true last
      rw [saveBlocks_concat, hsave, hlocal, hfiles, nextID_saveBlocks,
        (manager.machineID_saveBlocks blocks).1]
      by_cases hi : i < blocks.length
      · have hne : manager.idAfter i ≠ manager.idAfter blocks.length := by
          intro heq
          exact Nat.ne_of_lt hi (manager.idAfter_inj (by omega) (by omega) heq)
        rw [List.getElem?_append_left hi] at hdata
        simpa [hne] using ih (by omega) hdata
      · have hlast := (List.getElem?_eq_some_iff.mp hdata).1
        rw [List.length_append, List.length_singleton] at hlast
        obtain rfl : i = blocks.length := by omega
        rw [List.getElem?_concat_length, Option.some.injEq] at hdata
        simp [hdata]

/-! ## Deletions -/

/-- The machine is the first one that is known to have the block. -/
def HoldsFirst (manager : BlockManager) (id : BlockID) : Prop :=
  ∃ rest, manager.localIDs id = some (manager.machineID :: rest)

/-- A request to delete a block of the machine itself fails, unless there is room for the
bytes that are copied. -/
theorem deleteBlock_of_holdsFirst {manager : BlockManager} {id : BlockID}
    (hfirst : manager.HoldsFirst id) : manager.deleteBlock id =
      if sizeofBlock ≤ manager.room then .ok (manager.removeLocalID id)
      else .error .outOfBounds := by
  obtain ⟨rest, hlisted⟩ := hfirst
  rw [deleteBlock, hlisted]
  dsimp only
  rw [if_pos rfl, handleDoDelete, copyID]
  split
  next hroom =>
    rw [ok_bind, hlisted]
    dsimp only
    rw [handleDeleteBlock, copyID, if_pos hroom, ok_bind]
  next => rfl

theorem deleteBlock_of_not_holdsFirst {manager : BlockManager} {id : BlockID}
    (hfirst : ¬ manager.HoldsFirst id) : manager.deleteBlock id = .ok manager := by
  unfold deleteBlock
  split
  next first rest hlisted =>
    rw [if_neg fun heq => hfirst ⟨rest, by rw [hlisted, heq]⟩]
  next => rfl

/-- Deleting several blocks one after the other. -/
def deleteBlocks (manager : BlockManager) (ids : List BlockID) : Except Fault BlockManager :=
  ids.foldlM deleteBlock manager

/-- Without room for the bytes that are copied, only requests that go elsewhere come to an
end, and the machine keeps its blocks. -/
theorem deleteBlocks_eq_ok_iff {manager manager' : BlockManager}
    (hroom : ¬ sizeofBlock ≤ manager.room) {ids : List BlockID} :
    manager.deleteBlocks ids = .ok manager' ↔
      manager' = manager ∧ ∀ id ∈ ids, ¬ manager.HoldsFirst id := by
  induction ids with
  | nil => exact ⟨fun hrun => ⟨(Except.ok.inj hrun).symm, by simp⟩, fun h => congrArg _ h.1.symm⟩
  | cons id ids ih =>
      rw [deleteBlocks, List.foldlM_cons, List.forall_mem_cons]
      by_cases hfirst : manager.HoldsFirst id
      · rw [deleteBlock_of_holdsFirst hfirst, if_neg hroom]
        exact iff_of_false (by simp) fun h => h.2.1 hfirst
      · rw [deleteBlock_of_not_holdsFirst hfirst, ok_bind, ← deleteBlocks, ih]
        exact and_congr_right fun _ => (and_iff_right hfirst).symm

/-- A block that is unused, or first of all on this machine, is gone afterwards. -/
theorem deleteBlock_eq {manager : BlockManager} (hroom : sizeofBlock ≤ manager.room)
    {id : BlockID} (hid : manager.Unused id ∨ manager.HoldsFirst id) :
    ∃ manager', manager.deleteBlock id = .ok manager' ∧
      manager'.machineID = manager.machineID ∧ manager'.room = manager.room ∧
      (∀ id', manager'.localIDs id' = if id' = id then none else manager.localIDs id') ∧
      ∀ id', manager'.files id' = if id' = id then none else manager.files id' := by
  by_cases hfirst : manager.HoldsFirst id
  · refine ⟨manager.removeLocalID id, ?_, rfl, rfl, fun id' => ?_, fun id' => ?_⟩
    · rw [deleteBlock_of_holdsFirst hfirst, if_pos hroom]
    · exact Function.update_apply ..
    · exact Function.update_apply ..
  · obtain ⟨hlocal, hfile⟩ := hid.resolve_right hfirst
    refine ⟨manager, deleteBlock_of_not_holdsFirst hfirst, rfl, rfl, fun id' => ?_, fun id' => ?_⟩
    · by_cases heq : id' = id <;> simp [heq, hlocal]
    · by_cases heq : id' = id <;> simp [heq, hfile]

/-- With room for the bytes, or if no block is first of all on the machine, every request
comes to an end. -/
theorem exists_deleteBlocks_iff {manager : BlockManager} {ids : List BlockID} :
    (∃ manager', manager.deleteBlocks ids = .ok manager') ↔
      ∀ id ∈ ids, manager.HoldsFirst id → sizeofBlock ≤ manager.room := by
  by_cases hroom : sizeofBlock ≤ manager.room
  · refine iff_of_true ?_ fun _ _ _ => hroom
    induction ids generalizing manager with
    | nil => exact ⟨manager, rfl⟩
    | cons id ids ih =>
        rw [deleteBlocks, List.foldlM_cons]
        by_cases hfirst : manager.HoldsFirst id
        · rw [deleteBlock_of_holdsFirst hfirst, if_pos hroom, ok_bind]
          exact @ih (manager.removeLocalID id) hroom
        · rw [deleteBlock_of_not_holdsFirst hfirst, ok_bind]
          exact ih hroom
  · simp only [deleteBlocks_eq_ok_iff hroom, exists_eq_left, hroom, imp_false]

end BlockManager

end Doopey
