import Doopey.Block.ProcessedDeletions
import Doopey.File.FileManager
import Doopey.File.FileRemoval
import Doopey.File.OrderlyUpload

/-!
# What the removal of a file frees

`handleRemove` takes the path out of the file tree, loads the meta block and has
the blocks deleted that it lists. The results below say when the handler comes to
its end and when nothing of the file is left anywhere, once the deletions that it
asked for are processed. How many bytes the handlers of a deletion have room for is
the same on all machines.
-/

namespace Doopey

open Foundation

namespace FileManager

/-- The data blocks that the meta block lists, if it can be loaded and read. -/
def listed (remote : Remote) (manager : BlockManager) (id : BlockID) : Option (List BlockID) :=
  match manager.getMeta remote id with
  | .ok (some block) => block.dataIDs.toOption
  | _ => none

/-- The blocks of a file: the data blocks that are listed and the meta block. -/
def storage (remote : Remote) (manager : BlockManager) (id : BlockID) : List BlockID :=
  (listed remote manager id).elim [] (· ++ [id])

/-- The blocks that `cleanData` has deleted, one after the other. -/
def cleaned (remote : Remote) (manager : BlockManager) (id : BlockID) : List BlockID :=
  (listed remote manager id).elim [] fun ids => if ids = [] then [] else ids ++ [id]

/-- `cleanData` comes to its end: the handlers of a deletion have room for the bytes that they
copy, or each of the blocks is first of all on another machine. -/
def Cleans (remote : Remote) (manager : BlockManager) (id : BlockID) : Prop :=
  ∀ id' ∈ cleaned remote manager id, manager.HoldsFirst id' →
    BlockManager.sizeofBlock ≤ manager.room

section Removal

variable {remote : Remote} {fuel : Nat} {store : Store} {msg : Message} {id : BlockID}

/-- A meta block that is loaded has the ID that was asked for. -/
theorem id_of_getMeta {manager : BlockManager} {block : MetaBlock}
    (hmeta : manager.getMeta remote id = .ok (some block)) : block.id = id := by
  unfold BlockManager.getMeta at hmeta
  split at hmeta
  next => exact absurd hmeta (by simp)
  next =>
    split at hmeta
    next => exact absurd hmeta (by simp)
    next =>
      obtain ⟨loaded, hload, heq⟩ := bind_eq_ok_iff.mp hmeta
      rw [← Option.some.inj (Except.ok.inj heq)]
      obtain ⟨nameLength, -, hload⟩ := bind_eq_ok_iff.mp hload
      split at hload
      next => rw [← Except.ok.inj hload]
      next => rw [← Except.ok.inj hload]

theorem listed_eq_some_iff {manager : BlockManager} {ids : List BlockID} :
    listed remote manager id = some ids ↔
      ∃ block, manager.getMeta remote id = .ok (some block) ∧ block.dataIDs = .ok ids := by
  unfold listed
  constructor
  · intro hlisted
    split at hlisted
    next block hmeta =>
      refine ⟨block, hmeta, ?_⟩
      cases hids : block.dataIDs with
      | error fault => simp [hids, Except.toOption] at hlisted
      | ok ids' =>
          rw [hids] at hlisted
          rw [Option.some.inj hlisted]
    next => exact absurd hlisted (by simp)
  · rintro ⟨block, hmeta, hids⟩
    rw [hmeta]
    dsimp only
    rw [hids]
    rfl

/-- The case `MC_RmFile` for a file of the tree. -/
theorem handleRemove_eq (hmsg : msg.Is .rmFile) (hid : id ≠ 0)
    (hfile : store.tree.HasFile msg.data id) :
    handleRemove remote fuel store msg = (do
      let (tree, _) ← store.tree.removeFile msg.data
      let block ← store.manager.getMeta remote id
      match block with
      | none => .error .badPointer
      | some block => do
          let manager ← FileUploader.cleanData block store.manager
          .ok (⟨manager, tree⟩, some (rmFileMessage msg.data), true)) := by
  have hdir : ¬ msg.Is .rmDir := fun hdir => absurd (hmsg.eq hdir) (by simp)
  rw [handleRemove, if_neg hdir, if_pos hmsg, hfile.getMetaID_eq, ok_bind]
  exact if_neg hid

/-- With the meta block, the removal of a file is the deletion of its blocks. -/
theorem handleRemove_of_listed (hmsg : msg.Is .rmFile) (hid : id ≠ 0)
    (hfile : store.tree.HasFile msg.data id) {ids : List BlockID}
    (hlisted : listed remote store.manager id = some ids) {tree : FileTree} {result : Bool}
    (hremove : store.tree.removeFile msg.data = .ok (tree, result)) :
    handleRemove remote fuel store msg = (do
      let manager ← store.manager.deleteBlocks (cleaned remote store.manager id)
      .ok (⟨manager, tree⟩, some (rmFileMessage msg.data), true)) := by
  obtain ⟨block, hmeta, hids⟩ := listed_eq_some_iff.mp hlisted
  rw [handleRemove_eq hmsg hid hfile, hremove, ok_bind]
  dsimp only
  rw [hmeta, ok_bind]
  dsimp only
  rw [FileUploader.cleanData_of_dataIDs hids, id_of_getMeta hmeta, cleaned, hlisted]
  rfl

/-- The handler returns just when the path can be unlinked, the meta block is there, and
`cleanData` comes to its end. -/
theorem exists_handleRemove_iff (hmsg : msg.Is .rmFile) (hid : id ≠ 0)
    (hfile : store.tree.HasFile msg.data id) :
    (∃ reply, handleRemove remote fuel store msg = .ok reply) ↔
      (∃ removed, store.tree.removeFile msg.data = .ok removed) ∧
        (listed remote store.manager id).isSome ∧ Cleans remote store.manager id := by
  constructor
  · rintro ⟨reply, hreply⟩
    have hrun := hreply
    rw [handleRemove_eq hmsg hid hfile] at hrun
    obtain ⟨⟨tree, result⟩, hremove, hrun⟩ := bind_eq_ok_iff.mp hrun
    obtain ⟨loaded, hmeta, hrun⟩ := bind_eq_ok_iff.mp hrun
    refine ⟨⟨_, hremove⟩, ?_⟩
    cases loaded with
    | none => exact absurd hrun (by simp)
    | some block =>
        obtain ⟨manager, hclean, -⟩ := bind_eq_ok_iff.mp hrun
        obtain ⟨ids, hids⟩ := FileUploader.exists_dataIDs_of_cleanData hclean
        have hlisted := listed_eq_some_iff.mpr ⟨block, hmeta, hids⟩
        refine ⟨by rw [hlisted]; rfl, ?_⟩
        rw [handleRemove_of_listed hmsg hid hfile hlisted hremove] at hreply
        obtain ⟨deleted, hdeleted, -⟩ := bind_eq_ok_iff.mp hreply
        exact BlockManager.exists_deleteBlocks_iff.mp ⟨deleted, hdeleted⟩
  · rintro ⟨⟨⟨tree, result⟩, hremove⟩, hlisted, hcleans⟩
    obtain ⟨ids, hlisted⟩ := Option.isSome_iff_exists.mp hlisted
    obtain ⟨manager, hdeleted⟩ := BlockManager.exists_deleteBlocks_iff.mpr hcleans
    exact ⟨_, by rw [handleRemove_of_listed hmsg hid hfile hlisted hremove, hdeleted, ok_bind]⟩

/-- The tree that a removal leaves is the one without the file. -/
theorem tree_of_handleRemove (hmsg : msg.Is .rmFile) (hid : id ≠ 0)
    (hfile : store.tree.HasFile msg.data id) {store' : Store} {reply : Option Message}
    {result : Bool} (hrun : handleRemove remote fuel store msg = .ok (store', reply, result)) :
    ∃ removed, store.tree.removeFile msg.data = .ok (store'.tree, removed) := by
  rw [handleRemove_eq hmsg hid hfile] at hrun
  obtain ⟨⟨tree, removed⟩, hremove, hrun⟩ := bind_eq_ok_iff.mp hrun
  obtain ⟨loaded, -, hrun⟩ := bind_eq_ok_iff.mp hrun
  cases loaded with
  | none => exact absurd hrun (by simp)
  | some block =>
      obtain ⟨manager, -, hrun⟩ := bind_eq_ok_iff.mp hrun
      obtain ⟨rfl, -⟩ := Prod.mk.inj (Except.ok.inj hrun)
      exact ⟨removed, hremove⟩

end Removal

/-- The deletions that `cleanData` asks for on a machine are processed: all of them if it comes
to its end. -/
structure Processes (blockReplica : UInt64) (up : MachineID → Prop) (remote : Remote)
    (manager : BlockManager) (id : BlockID) (start : BlockNet) (events : List BlockEvent)
    (net : BlockNet) : Prop where
  before {id' : BlockID} : id' ∈ storage remote manager id → start.Processed up id'
  steps : (BlockNet.processing blockReplica manager.room up manager.machineID
    (storage remote manager id)).Steps start events net
  after {id' : BlockID} : id' ∈ storage remote manager id → net.Processed up id'
  calls {id' : BlockID} : Cleans remote manager id → id' ∈ storage remote manager id →
    (.delete manager.machineID id' ∈ events ↔ id' ∈ cleaned remote manager id)

/-- The removal of a file comes to its end and frees the storage of the file just when the
path can be unlinked, the meta block is there, `cleanData` comes to its end, and every block
of the file either is gone already or is deleted by the machine that is asked, for which the
file has to have data and the handlers room for the bytes that they copy. -/
theorem frees_iff {keyHash : Bytes → Nat} {ops : List TreeOp} {remote : Remote} {fuel : Nat}
    {store : Store} {msg : Message} {id : BlockID} {blockReplica : UInt64} {up : MachineID → Prop}
    {start net : BlockNet} {events : List BlockEvent}
    (htree : (treeSystem keyHash).Run ops store.tree) (hmsg : msg.Is .rmFile) (hid : id ≠ 0)
    (hfile : store.tree.HasFile msg.data id)
    (hprocesses : Processes blockReplica up remote store.manager id start events net) :
    ((∃ store' reply result, handleRemove remote fuel store msg = .ok (store', reply, result) ∧
        store'.tree.fileMap.getValue msg.data = none) ∧
      ∀ id' ∈ storage remote store.manager id, ∀ m, up m →
        (net.nodes m).localIDs[id']? = none ∧ (net.nodes m).files id' = none) ↔
    store.tree.Severable msg.data ∧ (listed remote store.manager id).isSome ∧
      Cleans remote store.manager id ∧ ∀ id' ∈ storage remote store.manager id,
        (listed remote store.manager id ≠ some [] ∧
          BlockManager.sizeofBlock ≤ store.manager.room ∧
          start.Effective up store.manager.machineID id') ∨
        ∀ m, up m → (start.nodes m).localIDs[id']? = none ∧ (start.nodes m).files id' = none := by
  have hwf : store.tree.fileMap.WF := ((invariant_keyed keyHash).run htree).1
  have hcalled {id' : BlockID} (hmem : id' ∈ storage remote store.manager id) :
      id' ∈ cleaned remote store.manager id ↔ listed remote store.manager id ≠ some [] := by
    unfold storage at hmem
    unfold cleaned
    cases hlisted : listed remote store.manager id with
    | none =>
        rw [hlisted] at hmem
        exact absurd hmem List.not_mem_nil
    | some ids =>
        rw [hlisted] at hmem
        change _ ∈ (if ids = [] then [] else ids ++ [id]) ↔ _
        split
        next hnil => simp [hnil]
        next hne => exact iff_of_true hmem fun heq => hne (Option.some.inj heq)
  have hgone (hcleans : Cleans remote store.manager id) {id' : BlockID}
      (hmem : id' ∈ storage remote store.manager id) :
      (∀ m, up m → (net.nodes m).Absent id') ↔
        (listed remote store.manager id ≠ some [] ∧
          BlockManager.sizeofBlock ≤ store.manager.room ∧
          start.Effective up store.manager.machineID id') ∨
        ∀ m, up m → (start.nodes m).Absent id' := by
    rw [← hcalled hmem, ← hprocesses.calls hcleans hmem, and_left_comm]
    exact BlockNet.absent_iff_of_processed hmem (hprocesses.before hmem) hprocesses.steps
      (hprocesses.after hmem)
  have hcompletes : (∃ store' reply result,
      handleRemove remote fuel store msg = .ok (store', reply, result) ∧
        store'.tree.fileMap.getValue msg.data = none) ↔
      store.tree.Severable msg.data ∧ (listed remote store.manager id).isSome ∧
        Cleans remote store.manager id := by
    rw [← FileTree.exists_removeFile_iff hwf hfile]
    constructor
    · rintro ⟨store', reply, result, hrun, -⟩
      obtain ⟨⟨removed, hremove⟩, hends⟩ :=
        (exists_handleRemove_iff hmsg hid hfile).mp ⟨_, hrun⟩
      exact ⟨⟨removed.1, removed.2, hremove⟩, hends⟩
    · rintro ⟨⟨tree, result, hremove⟩, hends⟩
      obtain ⟨⟨store', reply, done⟩, hrun⟩ :=
        (exists_handleRemove_iff hmsg hid hfile).mpr ⟨⟨_, hremove⟩, hends⟩
      obtain ⟨removed, hremoved⟩ := tree_of_handleRemove hmsg hid hfile hrun
      exact ⟨store', reply, done, hrun, FileTree.absent_of_removeFile hwf hfile hremoved⟩
  rw [hcompletes, and_assoc, and_assoc]
  refine and_congr_right fun _ => and_congr_right fun _ => and_congr_right fun hcleans => ?_
  exact forall₂_congr fun id' hmem => hgone hcleans hmem

/-! ## The removal of one file -/

theorem listed_of_describes {remote : Remote} {manager : BlockManager} {id : BlockID}
    {machines : List MachineID} (hlisted : manager.localIDs id = some machines)
    {block : MetaBlock} (hfile : manager.files id = some block.data) {fileName : Bytes}
    {time fileSize : UInt64} {ids : List BlockID}
    (hdescribes : block.Describes fileName time fileSize ids) (hname : fileName ≠ []) :
    listed remote manager id = some ids := by
  obtain ⟨loaded, hdata, -, -, hloaded⟩ := hdescribes.laid.ofData hname id
  apply listed_eq_some_iff.mpr
  exact ⟨loaded, BlockManager.getMeta_of_listed remote hlisted hfile hdescribes.laid.length hdata,
    hloaded.usable.dataIDs_eq⟩

/-- The tree with the file `/f`. -/
def oneFile (id : BlockID) : FileTree where
  heap := Function.update (Function.update (FileTree.new List.length).heap 1
      (some { TreeNode.new with
        name := ascii "f", isFile := decide (id ≠ 0), metaID := id, parent := some 0 }))
    0 (some { TreeNode.new with name := rootPath, children := some 1 })
  brk := 2
  root := 0
  fileMap := (FileTree.new List.length).fileMap.add (ascii "/f") (some 1)

theorem run_oneFile (id : BlockID) :
    (treeSystem List.length).Run [.addFile (ascii "/f") id] (oneFile id) :=
  ⟨_, rfl, .cons ⟨0, true, rfl⟩ (.nil _)⟩

theorem hasFile_oneFile {id : BlockID} (hid : id ≠ 0) : (oneFile id).HasFile (ascii "/f") id :=
  ⟨1, _, rfl, rfl, decide_eq_true hid, rfl⟩

theorem severable_oneFile (id : BlockID) : (oneFile id).Severable (ascii "/f") where
  near := by
    change _ ∈ [ascii "/f"]
    exact List.mem_singleton_self _
  links {address node} hvalue hnode := by
    obtain rfl : 1 = address := Option.some.inj hvalue
    obtain rfl := Option.some.inj hnode
    refine ⟨0, rfl, ?_⟩
    rintro link (hlink | hlink | rfl)
    · exact absurd hlink (by simp [TreeNode.new])
    · exact absurd hlink (by simp [TreeNode.new])
    · rfl

/-- The request to remove `/f`. -/
def removal : Message := (Message.new .file .rmFile).addData (ascii "/f")

theorem is_removal : removal.Is .rmFile := rfl

/-- No other machine answers. -/
def silent : Remote := ⟨fun _ => none, fun _ _ => none⟩

/-- Machine 1 saves a block. -/
def savedNet (net : BlockNet) (data : Bytes) : BlockNet :=
  let saved := (net.nodes 1).saveBlock 2 1 true data 0
  (net.act 1 saved.2 []).remember saved.1 data

theorem step_savedNet (net : BlockNet) {data : Bytes} (hdata : data.length = blockSize) :
    BlockStep 2 net (.save 1 data true) (savedNet net data) :=
  .save 1 data true _ _ (by decide) hdata rfl

theorem inFlight_savedNet (net : BlockNet) (data : Bytes) :
    (savedNet net data).inFlight 1 = net.inFlight 1 :=
  BlockNet.inFlight_act_self net 1 ((net.nodes 1).saveBlock 2 1 true data 0).2 []

/-- As long as nothing is sent to machine 1, there is nothing for it to process. -/
theorem processed_of_inFlight {net : BlockNet} (hflight : net.inFlight 1 = 0) (id : BlockID) :
    net.Processed (· = 1) id := by
  rintro m rfl src
  rw [hflight]
  exact ⟨Multiset.notMem_zero _, Multiset.notMem_zero _⟩

/-- A machine on which `/f` is stored as these blocks, the last of which is the meta block. -/
theorem exists_stored (room : Nat) {ids : List BlockID} {block : MetaBlock} {blocks : List Bytes}
    {id : BlockID} (hdescribes : block.Describes (ascii "/f") 0 0 ids)
    (hlength : blocks.length < 2 ^ 32)
    (hid : (BlockManager.new 1 (by decide)).idAfter blocks.length = id) :
    ∃ manager, manager.machineID = 1 ∧ manager.room = room ∧
      listed silent manager id = some ids ∧ manager.files id = some block.data ∧
      ∀ i ≤ blocks.length, manager.HoldsFirst ((BlockManager.new 1 (by decide)).idAfter i) := by
  let empty := { BlockManager.new 1 (by decide) with room }
  have hfiles {i : Nat} (hi : i ≤ blocks.length) := empty.files_saveBlocks
    (by rw [List.length_append, List.length_singleton]; exact hlength)
    (List.getElem?_eq_getElem (l := blocks ++ [block.data])
      (by rw [List.length_append, List.length_singleton]; exact Nat.lt_succ_of_le hi))
  obtain ⟨hlocal, hfile⟩ := hfiles (Nat.le_refl _)
  rw [show empty.idAfter blocks.length = id from hid, List.getElem_concat_length rfl] at hfile
  rw [show empty.idAfter blocks.length = id from hid] at hlocal
  have hmachine := (empty.machineID_saveBlocks (blocks ++ [block.data])).1
  refine ⟨_, hmachine, empty.room_saveBlocks _,
    listed_of_describes hlocal hfile hdescribes (by decide), hfile, fun i hi => ⟨[], ?_⟩⟩
  rw [hmachine]
  exact (hfiles hi).1

/-- On such a machine the removal comes to its end with `cleanData`. -/
theorem exists_handleRemove_oneFile_iff {manager : BlockManager} {id : BlockID} (hid : id ≠ 0)
    {ids : List BlockID} (hlisted : listed silent manager id = some ids) :
    (∃ reply, handleRemove silent 0 ⟨manager, oneFile id⟩ removal = .ok reply) ↔
      Cleans silent manager id := by
  have hwf := ((invariant_keyed _).run (run_oneFile id)).1
  obtain ⟨tree, result, hremove⟩ := (FileTree.exists_removeFile_iff hwf (hasFile_oneFile hid)).mpr
    (severable_oneFile id)
  rw [exists_handleRemove_iff is_removal hid (hasFile_oneFile hid)]
  refine ⟨fun h => h.2.2, fun hcleans => ⟨⟨_, hremove⟩, ?_, hcleans⟩⟩
  dsimp only
  rw [hlisted]
  rfl

/-- A file without data keeps its meta block. The handler fails without a meta block, and with
one if the machine has to copy more bytes than there is room for. -/
theorem exists_kept :
    (∃ store data reply, (treeSystem List.length).Run [.addFile (ascii "/f") (buildBlockID 1 1)]
        store.tree ∧ store.tree.HasFile (ascii "/f") (buildBlockID 1 1) ∧
      listed silent store.manager (buildBlockID 1 1) = some [] ∧
      store.manager.files (buildBlockID 1 1) = some data ∧
      (blockSystem 2).Run [.save 1 data true] (savedNet .empty data) ∧
      handleRemove silent 0 store removal = .ok reply ∧
      Processes 2 (· = 1) silent store.manager (buildBlockID 1 1) (savedNet .empty data) []
        (savedNet .empty data) ∧
      ((savedNet .empty data).nodes 1).localIDs[buildBlockID 1 1]? ≠ none) ∧
    (∃ store, (treeSystem List.length).Run [.addFile (ascii "/f") (buildBlockID 2 1)] store.tree ∧
      store.tree.HasFile (ascii "/f") (buildBlockID 2 1) ∧
      handleRemove silent 0 store removal = .error .badPointer) ∧
    ∃ store, (treeSystem List.length).Run [.addFile (ascii "/f") (buildBlockID 1 2)] store.tree ∧
      store.tree.HasFile (ascii "/f") (buildBlockID 1 2) ∧
      listed silent store.manager (buildBlockID 1 2) = some [buildBlockID 1 1] ∧
      store.manager.room = BlockManager.sizeofBlockID ∧
      ∀ reply, handleRemove silent 0 store removal ≠ .ok reply := by
  obtain ⟨empty, -, -, hempty⟩ := @FileUploader.setupMeta_new (ascii "/f") (by decide) 0 0
  refine ⟨?_, ?_, ?_⟩
  · obtain ⟨manager, hmachine, -, hlisted, hfile, -⟩ :=
      @exists_stored BlockManager.sizeofBlockID _ _ [] (buildBlockID 1 1) hempty (by decide) rfl
    have hcleaned : cleaned silent manager (buildBlockID 1 1) = [] := by rw [cleaned, hlisted]; rfl
    obtain ⟨reply, hrun⟩ := (exists_handleRemove_oneFile_iff (by decide) hlisted).mpr
      (by rw [Cleans, hcleaned]; exact fun _ hmem => absurd hmem List.not_mem_nil)
    refine ⟨⟨manager, oneFile (buildBlockID 1 1)⟩, empty.data, reply, run_oneFile _,
      hasFile_oneFile (by decide), hlisted, hfile,
      ⟨_, rfl, .cons (step_savedNet _ hempty.laid.length) (.nil _)⟩, hrun, ?_, ?_⟩
    · refine ⟨fun _ => processed_of_inFlight (inFlight_savedNet _ _) _, .nil _,
        fun _ => processed_of_inFlight (inFlight_savedNet _ _) _, fun _ _ => ?_⟩
      rw [hcleaned]
      exact iff_of_false List.not_mem_nil List.not_mem_nil
    · exact Option.some_ne_none 0
  · refine ⟨⟨.new 1 (by decide), oneFile (buildBlockID 2 1)⟩, run_oneFile _,
      hasFile_oneFile (by decide), ?_⟩
    have hwf := ((invariant_keyed _).run (run_oneFile (buildBlockID 2 1))).1
    obtain ⟨tree, result, hremove⟩ := (FileTree.exists_removeFile_iff hwf
      (hasFile_oneFile (by decide))).mpr (severable_oneFile (buildBlockID 2 1))
    have hne : buildBlockID 2 1 ≠ 0 := by decide
    rw [handleRemove_eq is_removal hne (hasFile_oneFile hne)]
    dsimp only
    rw [show (oneFile _).removeFile removal.data = _ from hremove, ok_bind]
    rfl
  · obtain ⟨block, -, -, hdescribes⟩ := hempty.addDataID (buildBlockID 1 1) (by decide)
    obtain ⟨manager, -, hroom, hlisted, -, hfirst⟩ := @exists_stored BlockManager.sizeofBlockID _ _
      [FileUploader.newData [1, 2, 3]] (buildBlockID 1 2) hdescribes (by decide) rfl
    refine ⟨⟨manager, oneFile (buildBlockID 1 2)⟩, run_oneFile _, hasFile_oneFile (by decide),
      hlisted, hroom, fun reply hrun => ?_⟩
    have hcleans := (exists_handleRemove_oneFile_iff (by decide) hlisted).mp ⟨reply, hrun⟩
    have hmem : buildBlockID 1 1 ∈ cleaned silent manager (buildBlockID 1 2) := by
      rw [cleaned, hlisted]
      exact List.mem_cons_self
    have hfits := hcleans _ hmem (hfirst 0 (by decide))
    rw [hroom] at hfits
    exact absurd hfits (by decide)

/-- A file with one piece of data, of which nothing is left where the copies do no harm. -/
theorem frees_iff_example : ∃ store, ∃ net : BlockNet,
    (treeSystem List.length).Run [.addFile (ascii "/f") (buildBlockID 1 2)] store.tree ∧
    listed silent store.manager (buildBlockID 1 2) = some [buildBlockID 1 1] ∧
    (∃ store' reply result, handleRemove silent 0 store removal = .ok (store', reply, result) ∧
      store'.tree.fileMap.getValue (ascii "/f") = none) ∧
    ∀ id' ∈ [buildBlockID 1 1, buildBlockID 1 2], ∀ m, m = 1 →
      (net.nodes m).localIDs[id']? = none ∧ (net.nodes m).files id' = none := by
  obtain ⟨empty, -, -, hempty⟩ := @FileUploader.setupMeta_new (ascii "/f") (by decide) 0 0
  obtain ⟨block, -, -, hdescribes⟩ := hempty.addDataID (buildBlockID 1 1) (by decide)
  obtain ⟨manager, hmachine, hroom, hlisted, -⟩ := @exists_stored BlockManager.sizeofBlock _ _
    [FileUploader.newData [1, 2, 3]] (buildBlockID 1 2) hdescribes (by decide) rfl
  have hfits : BlockManager.sizeofBlock ≤ manager.room := hroom.ge
  have hstorage : storage silent manager (buildBlockID 1 2) =
      [buildBlockID 1 1, buildBlockID 1 2] := by rw [storage, hlisted]; rfl
  have hcleaned : cleaned silent manager (buildBlockID 1 2) =
      [buildBlockID 1 1, buildBlockID 1 2] := by rw [cleaned, hlisted]; rfl
  -- the machine deletes both of its blocks, the meta block last
  let start := savedNet (savedNet .empty (FileUploader.newData [1, 2, 3])) block.data
  let middle := start.act 1 ((start.nodes 1).afterDelete 1 (buildBlockID 1 1)).1
    ((start.nodes 1).afterDelete 1 (buildBlockID 1 1)).2
  let net := middle.act 1 ((middle.nodes 1).afterDelete 1 (buildBlockID 1 2)).1
    ((middle.nodes 1).afterDelete 1 (buildBlockID 1 2)).2
  have hdelete (net : BlockNet) (id : BlockID) : BlockStep 2 net (.delete 1 id)
      (net.act 1 ((net.nodes 1).afterDelete 1 id).1 ((net.nodes 1).afterDelete 1 id).2) :=
    .delete 1 id _ _ _ (BlockNode.deleteBlock_eq hfits 1 _ id)
  have hstart : start.inFlight 1 = 0 :=
    (inFlight_savedNet _ _).trans (inFlight_savedNet _ _)
  have hend : net.inFlight 1 = 0 := by
    rw [BlockNet.inFlight_act_self, BlockNet.inFlight_act_self, hstart]
  have hprocesses : Processes 2 (· = 1) silent manager (buildBlockID 1 2) start
      [.delete 1 (buildBlockID 1 1), .delete 1 (buildBlockID 1 2)] net := by
    refine ⟨fun _ => processed_of_inFlight hstart _, ?_,
      fun _ => processed_of_inFlight hend _, fun {id'} _ _ => ?_⟩
    · rw [hmachine]
      exact .cons ⟨Or.inl ⟨rfl, fun _ => hfits⟩, hdelete _ _⟩
        (.cons ⟨Or.inl ⟨rfl, fun _ => hfits⟩, hdelete _ _⟩ (.nil _))
    · rw [hmachine, hcleaned]
      simp
  have hdeleted : ∀ id' ∈ storage silent manager (buildBlockID 1 2),
      (listed silent manager (buildBlockID 1 2) ≠ some [] ∧
        BlockManager.sizeofBlock ≤ manager.room ∧
        start.Effective (· = 1) manager.machineID id') ∨ ∀ m, m = 1 →
          (start.nodes m).localIDs[id']? = none ∧ (start.nodes m).files id' = none := by
    rw [hstorage, hmachine, hlisted]
    intro id' hmem
    refine Or.inl ⟨by simp, hfits, 1, ?_, Or.inl rfl⟩
    rcases List.mem_pair.mp hmem with rfl | rfl
    · rfl
    · rfl
  have hfrees := @frees_iff _ _ silent 0 ⟨manager, oneFile (buildBlockID 1 2)⟩ removal
    (buildBlockID 1 2) 2 (· = 1) start net _ (run_oneFile _) is_removal (by decide)
    (hasFile_oneFile (by decide)) hprocesses
  obtain ⟨hcompletes, hgone⟩ := hfrees.mpr
    ⟨severable_oneFile _, by rw [hlisted]; rfl, fun _ _ _ => hfits, hdeleted⟩
  rw [hstorage] at hgone
  exact ⟨_, net, run_oneFile _, hlisted, hcompletes, hgone⟩

end FileManager

end Doopey
