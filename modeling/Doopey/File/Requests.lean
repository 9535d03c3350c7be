import Doopey.File.FileManager
import Doopey.File.UploadAcks

/-!
# What a machine tells the others

The requests of clients that change the file tree of a machine, the broadcasts
they lead to, and what a broadcast changes in the tree of another machine.
-/

namespace Doopey

open Foundation FileManager

/-- A request that may change the file tree. -/
inductive Request
  | upload (inputs : List Input)
  | addDir (dir : Bytes)
  | remove (msg : Message)

namespace Request

/-- The handler of a request. -/
def handle (remote : Remote) (fuel : Nat) (store : Store) :
    Request → Except Fault (Store × Option Message × Bool)
  | upload inputs => handleUpload store inputs
  | addDir dir => handleAddDir store dir
  | remove msg => handleRemove remote fuel store msg

/-- The request is one to remove a directory. -/
def RemovesDir : Request → Prop
  | remove msg => msg.Is .rmDir
  | _ => False

instance (request : Request) : Decidable request.RemovesDir := by
  unfold RemovesDir
  split <;> infer_instance

/-- The request is one to add something. -/
def Adds : Request → Prop
  | remove _ => False
  | _ => True

/-- What a request that succeeds does to the tree, and what it tells the others. -/
inductive Accepted (fuel : Nat) (tree : FileTree) :
    Request → Option Message → FileTree → Prop
  | uploaded (inputs : List Input) (name : Bytes) (id : BlockID) (tree' : FileTree)
      (hlength : name.length < 2 ^ 64) (hadd : tree.addFile name id = .ok (tree', true)) :
      Accepted fuel tree (upload inputs) (some (newFileMessage name id)) tree'
  | made (dir : Bytes) (tree' : FileTree) (hadd : tree.addDir dir = .ok (tree', true)) :
      Accepted fuel tree (addDir dir) (some (newDirMessage dir)) tree'
  | removedFile (msg : Message) (result : Bool) (tree' : FileTree) (hcmd : msg.Is .rmFile)
      (hremove : tree.removeFile msg.data = .ok (tree', result)) :
      Accepted fuel tree (remove msg) (some (rmFileMessage msg.data)) tree'
  | removedDir (msg : Message) (tree' : FileTree) (hcmd : msg.Is .rmDir)
      (hremove : FileTree.removeDir fuel tree msg.data = .ok (tree', true)) :
      Accepted fuel tree (remove msg) none tree'

end Request

namespace FileUploader

/-- A complete upload has entered the name of its meta block. -/
theorem receiveLoop_spec {up up' : Upload} {ids : List BlockID} (h : Ready up ids)
    {inputs : List Input} {block : Option MetaBlock}
    (hrun : receiveLoop up inputs = .ok (block, up')) :
    (block = none ∧ up'.tree = up.tree) ∨ ∃ metaBlock name, block = some metaBlock ∧
      metaBlock.data.length = blockSize ∧ metaBlock.getFileName = .ok name ∧
      up.tree.addFile name metaBlock.id = .ok (up'.tree, true) := by
  induction inputs generalizing up ids with
  | nil =>
      obtain ⟨manager, -, hrun⟩ := bind_eq_ok_iff.mp hrun
      obtain ⟨rfl, rfl⟩ := Prod.mk.inj (Except.ok.inj hrun)
      exact Or.inl ⟨rfl, rfl⟩
  | cons input inputs ih =>
      obtain ⟨⟨up₁, reply, outcome⟩, hmessage, hrun⟩ := bind_eq_ok_iff.mp hrun
      have hround := received_of_receiveMessage h.usable hmessage
      cases outcome with
      | goesOn =>
          obtain ⟨ids', h'⟩ := h.received hround
          have htree : up₁.tree = up.tree := by
            cases hround <;> rfl
          rw [← htree]
          exact ih h' hrun
      | failed =>
          obtain ⟨rfl, rfl⟩ := Prod.mk.inj (Except.ok.inj hrun)
          left
          cases hround <;> exact ⟨rfl, rfl⟩
      | completed =>
          obtain ⟨rfl, rfl⟩ := Prod.mk.inj (Except.ok.inj hrun)
          right
          cases hround with
          | entered manager id tree name hcmd hsave hname hadd =>
              cases hopens : input.opens with
              | true => exact ⟨_, name, rfl, h.usable.length, hname, hadd⟩
              | false =>
                  -- the file of the meta block could not be created
                  rw [hopens, h.id, BlockManager.saveBlock, dif_pos rfl] at hsave
                  obtain ⟨rfl, -⟩ := Prod.mk.inj hsave
                  refine ⟨up.metaBlock, name, rfl, h.usable.length, hname, ?_⟩
                  rw [h.id]
                  exact hadd

/-- A file without contents that may be entered is entered and announced. -/
theorem handleUpload_of_admits {tree : FileTree} (hlinked : tree.Linked) {path : Bytes}
    (hadmits : tree.Admits path) (hfits : 8 + path.length + 24 ≤ blockSize)
    (manager : BlockManager) :
    ∃ store, handleUpload ⟨manager, tree⟩ [⟨metaMessage path 0 0, true⟩, ⟨endMessage, true⟩] =
        .ok (store, some (newFileMessage path manager.nextID), true) ∧
      tree.addFile path manager.nextID = .ok (store.tree, true) := by
  obtain ⟨block, hmeta, hid, hdescribes⟩ := receiveMessage_meta hadmits hfits manager 0 0 true
  obtain ⟨tree', hend, hadd⟩ := receiveMessage_end hdescribes manager hlinked hadmits
  obtain ⟨manager', hsave, -⟩ := manager.saveBlock_new true block.data
  rw [if_pos rfl] at hsave
  rw [hid, hsave] at hend hadd
  have hname : ({ block with id := manager.nextID } : MetaBlock).getFileName = .ok path :=
    hdescribes.getFileName_eq
  refine ⟨⟨manager', tree'⟩, ?_, hadd⟩
  rw [handleUpload, receiveFile, newMeta_eq, ok_bind, receiveLoop_cons hmeta, receiveLoop, hend,
    ok_bind]
  dsimp only
  rw [ok_bind]
  dsimp only
  rw [hname, ok_bind]

end FileUploader

theorem MetaBlock.length_getFileName {block : MetaBlock} {name : Bytes}
    (hname : block.getFileName = .ok name) : name.length ≤ block.data.length := by
  unfold getFileName at hname
  split at hname
  next =>
    rw [← Except.ok.inj hname]
    exact Nat.zero_le _
  next =>
    obtain ⟨length, -, hread⟩ := bind_eq_ok_iff.mp hname
    unfold readAt at hread
    split at hread
    next =>
      rw [← Except.ok.inj hread, part, List.length_take, List.length_drop]
      omega
    next => exact absurd hread (by simp)

namespace Request

variable {remote : Remote} {fuel : Nat} {tree : FileTree} {manager : BlockManager} {store : Store}
  {msg : Option Message}

/-- An upload enters a path and tells the others, or changes nothing. -/
theorem handleUpload_spec (hbound : tree.Bound) {inputs : List Input} {success : Bool}
    (hrun : handleUpload ⟨manager, tree⟩ inputs = .ok (store, msg, success)) :
    (success = false ∧ msg = none ∧ store.tree = tree) ∨ (success = true ∧ ∃ name id,
      name.length < 2 ^ 64 ∧ msg = some (newFileMessage name id) ∧
        tree.addFile name id = .ok (store.tree, true)) := by
  obtain ⟨start, hstart, husable, hid, -⟩ := MetaBlock.usable_newMeta
  have hready : FileUploader.Ready ⟨start, manager, tree⟩ [] := ⟨husable, hid, hbound⟩
  unfold handleUpload FileUploader.receiveFile at hrun
  rw [hstart, ok_bind] at hrun
  obtain ⟨⟨block, up⟩, hreceive, hrun⟩ := bind_eq_ok_iff.mp hrun
  rcases FileUploader.receiveLoop_spec hready hreceive with
    ⟨rfl, htree⟩ | ⟨metaBlock, name, rfl, hlength, hname, hadd⟩
  · obtain ⟨rfl, hrest⟩ := Prod.mk.inj (Except.ok.inj hrun)
    obtain ⟨rfl, rfl⟩ := Prod.mk.inj hrest
    exact Or.inl ⟨rfl, rfl, htree⟩
  · dsimp only at hrun
    rw [hname, ok_bind] at hrun
    obtain ⟨rfl, hrest⟩ := Prod.mk.inj (Except.ok.inj hrun)
    obtain ⟨rfl, rfl⟩ := Prod.mk.inj hrest
    have hshort := MetaBlock.length_getFileName hname
    rw [hlength, blockSize] at hshort
    exact Or.inr ⟨rfl, name, metaBlock.id, by omega, rfl, hadd⟩

/-- A directory is made and announced, or nothing changes. -/
theorem handleAddDir_spec {dir : Bytes} {success : Bool}
    (hrun : handleAddDir ⟨manager, tree⟩ dir = .ok (store, msg, success)) :
    (success = false ∧ msg = none ∧ store.tree = tree) ∨ (success = true ∧
      msg = some (newDirMessage dir) ∧ tree.addDir dir = .ok (store.tree, true)) := by
  obtain ⟨⟨tree', result⟩, hadd, hrun⟩ := bind_eq_ok_iff.mp hrun
  obtain ⟨rfl, hrest⟩ := Prod.mk.inj (Except.ok.inj hrun)
  obtain ⟨rfl, rfl⟩ := Prod.mk.inj hrest
  cases result with
  | true => exact Or.inr ⟨rfl, rfl, hadd⟩
  | false => exact Or.inl ⟨rfl, rfl, FileTree.eq_of_addFile_false hadd⟩

/-- Every success is one of `Accepted`. -/
theorem accepted_of_handle (hbound : tree.Bound) {request : Request}
    (hrun : request.handle remote fuel ⟨manager, tree⟩ = .ok (store, msg, true)) :
    request.Accepted fuel tree msg store.tree := by
  cases request with
  | upload inputs =>
      rcases handleUpload_spec hbound hrun with ⟨hfalse, -⟩ | ⟨-, name, id, hlength, rfl, hadd⟩
      · exact absurd hfalse (by simp)
      · exact .uploaded inputs name id _ hlength hadd
  | addDir dir =>
      rcases handleAddDir_spec hrun with ⟨hfalse, -⟩ | ⟨-, rfl, hadd⟩
      · exact absurd hfalse (by simp)
      · exact .made dir _ hadd
  | remove request =>
      rw [handle, handleRemove] at hrun
      split at hrun
      next hcmd =>
        obtain ⟨⟨tree', result⟩, hremove, hrun⟩ := bind_eq_ok_iff.mp hrun
        obtain ⟨rfl, hrest⟩ := Prod.mk.inj (Except.ok.inj hrun)
        obtain ⟨rfl, rfl⟩ := Prod.mk.inj hrest
        exact .removedDir request _ hcmd hremove
      next =>
        split at hrun
        next hcmd =>
          obtain ⟨id, -, hrun⟩ := bind_eq_ok_iff.mp hrun
          split at hrun
          next => exact absurd hrun (by simp)
          next =>
            obtain ⟨⟨tree', result⟩, hremove, hrun⟩ := bind_eq_ok_iff.mp hrun
            obtain ⟨block, -, hrun⟩ := bind_eq_ok_iff.mp hrun
            cases block with
            | none => exact absurd hrun (by simp)
            | some block =>
                obtain ⟨cleaned, -, hrun⟩ := bind_eq_ok_iff.mp hrun
                obtain ⟨rfl, hrest⟩ := Prod.mk.inj (Except.ok.inj hrun)
                obtain ⟨rfl, -⟩ := Prod.mk.inj hrest
                exact .removedFile request result _ hcmd hremove
        next => exact absurd hrun (by simp)

end Request

/-! ## Receiving a broadcast -/

/-- The receiver takes the name and the ID of a new file out of the message. -/
theorem handleBroadcast_newFile (fuel : Nat) (tree : FileTree) {name : Bytes}
    (hlength : name.length < 2 ^ 64) (id : BlockID) :
    handleBroadcast fuel tree (newFileMessage name id) = tree.addFile name id := by
  have hcmd : (newFileMessage name id).Is .broadcastNewFile := rfl
  have hdata : (newFileMessage name id).data =
      bytesOf (.ofNat name.length) ++ (name ++ bytesOf id) := by
    rw [newFileMessage, Message.addData, Message.addData, Message.addData, ← List.append_assoc]
    rfl
  have htoNat : (UInt64.ofNat name.length).toNat = name.length := by
    rw [UInt64.toNat_ofNat', Nat.mod_eq_of_lt hlength]
  have hname : readAt (bytesOf (.ofNat name.length) ++ (name ++ bytesOf id)) 8 name.length =
      .ok name := by
    rw [readAt_of_le (by simp)]
    have hpart := part_append_right (bytesOf (.ofNat name.length)) (name ++ bytesOf id) 0 name.length
    rw [length_bytesOf, part_append_left] at hpart
    rw [hpart]
  have hid : readUInt64 (bytesOf (.ofNat name.length) ++ (name ++ bytesOf id)) (8 + name.length) =
      .ok id := by
    apply readUInt64_of_part (by simp; omega)
    rw [← List.append_assoc]
    have hpart := part_append_right (bytesOf (.ofNat name.length) ++ name) (bytesOf id) 0 8
    rw [List.length_append, length_bytesOf] at hpart
    exact hpart.trans (by rw [part, List.drop_zero, List.take_of_length_le (by simp)])
  rw [handleBroadcast, if_pos hcmd, hdata, readUInt64_append, ok_bind, htoNat, hname, ok_bind, hid,
    ok_bind]

theorem handleBroadcast_newDir (fuel : Nat) (tree : FileTree) (dir : Bytes) :
    handleBroadcast fuel tree (newDirMessage dir) = tree.addDir dir := rfl

theorem handleBroadcast_rmFile (fuel : Nat) (tree : FileTree) (path : Bytes) :
    handleBroadcast fuel tree (rmFileMessage path) = tree.removeFile path := rfl

end Doopey
