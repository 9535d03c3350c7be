import Doopey.File.OrderlyUpload
import Doopey.Machine.DownloadReplies

/-!
# Uploading a file and downloading it again

The file that `putFile` has sent comes back from `getFile`: the pieces are stored
under IDs that the meta block lists in order, `handleGetFile` hands these IDs to
the client, and the workers write the pieces to their places, in whatever order
their calls of `write` are made.
-/

namespace Doopey

open Foundation FileUploader Client

/-! ## The pieces of a file -/

/-- The pieces are the parts of the file at the multiples of the block size. -/
theorem getElem?_piecesOf (content : Bytes) (i : Nat) : (piecesOf content)[i]? =
    if i * blockSize < content.length then some (part content (i * blockSize) blockSize)
    else none := by
  induction content using piecesOf.induct generalizing i with
  | case1 => simp [piecesOf]
  | case2 content hne ih =>
      rw [piecesOf, if_neg hne]
      have hpos := List.length_pos_iff.mpr hne
      cases i with
      | zero => simp [part, hpos]
      | succ i =>
          rw [List.getElem?_cons_succ, ih, List.length_drop, part, List.drop_drop, ← part]
          have hoffset : blockSize + i * blockSize = (i + 1) * blockSize := by
            rw [Nat.succ_mul, Nat.add_comm]
          have hiff : i * blockSize < content.length - blockSize ↔
              (i + 1) * blockSize < content.length := by
            rw [← hoffset]
            omega
          simp only [hoffset, hiff]

theorem length_piecesOf (content : Bytes) :
    (piecesOf content).length = (content.length + blockSize - 1) / blockSize := by
  induction content using piecesOf.induct with
  | case1 => rw [piecesOf, if_pos rfl]; rfl
  | case2 content hne ih =>
      have hpos := List.length_pos_iff.mpr hne
      rw [piecesOf, if_neg hne, List.length_cons, ih, List.length_drop]
      by_cases hle : content.length ≤ blockSize
      · rw [blockSize] at hle ⊢
        omega
      · rw [blockSize] at hle ⊢
        omega

theorem length_le_of_mem_piecesOf {content piece : Bytes} (hmem : piece ∈ piecesOf content) :
    piece.length ≤ blockSize := by
  obtain ⟨i, hi⟩ := List.getElem?_of_mem hmem
  rw [getElem?_piecesOf] at hi
  split at hi
  next =>
    rw [← Option.some.inj hi, part, List.length_take]
    exact Nat.min_le_left _ _
  next => exact absurd hi (by simp)

/-! ## The upload -/

/-- A message with the outcome of a save that works. -/
def saved (msg : Message) : Input := ⟨msg, true⟩

/-- The pieces of a file are stored under consecutive IDs, which are listed. -/
theorem run_pieces {block : MetaBlock} {fileName : Bytes} {time fileSize : UInt64}
    {ids : List BlockID} (h : block.Describes fileName time fileSize ids) {pieces : List Bytes}
    (hpieces : ∀ piece ∈ pieces, piece.length ≤ blockSize)
    (hroom : 8 + fileName.length + 24 + 8 * (ids.length + pieces.length) ≤ blockSize)
    (manager : BlockManager) (tree : FileTree) :
    ∃ block', (∀ inputs,
        receiveLoop ⟨block, manager, tree⟩ (pieces.map (saved ∘ dataMessage) ++ inputs) =
          receiveLoop ⟨block', manager.saveBlocks (pieces.map newData), tree⟩ inputs ∧
        putFile ⟨block, manager, tree⟩ (pieces.map (saved ∘ dataMessage) ++ inputs) =
          putFile ⟨block', manager.saveBlocks (pieces.map newData), tree⟩ inputs) ∧
      block'.id = block.id ∧ block'.Describes fileName time fileSize
        (ids ++ (List.range pieces.length).map manager.idAfter) := by
  induction pieces generalizing block ids manager with
  | nil => exact ⟨block, fun _ => ⟨rfl, rfl⟩, rfl, by simpa using h⟩
  | cons piece pieces ih =>
      rw [List.length_cons] at hroom
      obtain ⟨block₁, hround, hid₁, h₁⟩ := receiveMessage_data h (by omega) piece
        (hpieces piece List.mem_cons_self) true manager tree
      have hfirst : (manager.saveBlock true (newData piece) 0).1 = manager.idAfter 0 := by
        obtain ⟨manager', hsave, -⟩ := manager.saveBlock_new true (newData piece)
        rw [hsave, manager.idAfter_zero]
        rfl
      obtain ⟨block', hrun, hid, h'⟩ := ih h₁
        (fun other hmem => hpieces other (List.mem_cons_of_mem _ hmem))
        (by rw [List.length_append, List.length_singleton]; omega)
        (manager.saveBlock true (newData piece) 0).2
      refine ⟨block', fun inputs => ?_, hid.trans hid₁, ?_⟩
      · obtain ⟨hreceive, hput⟩ := loops_of_acknowledged hround
          (pieces.map (saved ∘ dataMessage) ++ inputs)
        exact ⟨hreceive.trans (hrun inputs).1, hput.trans (hrun inputs).2⟩
      · have hrest : (List.range pieces.length).map
            (manager.saveBlock true (newData piece) 0).2.idAfter =
              (List.range pieces.length).map (manager.idAfter ∘ Nat.succ) := by
          apply List.map_congr_left
          intro i _
          exact manager.idAfter_saveBlock (newData piece) i
        rw [hfirst, List.append_assoc, hrest] at h'
        rw [List.length_cons, List.range_succ_eq_map, List.map_cons, List.map_map]
        exact h'

/-- What the machine has of a file when its upload is complete. -/
structure Uploaded (fileName : Bytes) (time : UInt64) (content : Bytes) (before : BlockManager)
    (block : MetaBlock) (up : Upload) : Prop where
  machineID : up.manager.machineID = before.machineID
  id_ne : block.id ≠ 0
  describes : block.Describes fileName time (.ofNat content.length)
    ((List.range (piecesOf content).length).map before.idAfter)
  listed : up.manager.localIDs block.id = some [before.machineID]
  stored : up.manager.files block.id = some block.data
  entered : up.tree.HasFile fileName block.id
  pieces {i : Nat} {piece : Bytes} : (piecesOf content)[i]? = some piece →
    up.manager.localIDs (before.idAfter i) = some [before.machineID] ∧
      up.manager.files (before.idAfter i) = some (newData piece)

/-- The client counts and sends the bytes of the path. -/
theorem putMeta_eq (behind : UInt8) (dir purename : Bytes) (ctime size : UInt64) :
    putMeta behind dir purename ctime size =
      metaMessage (remotePath behind dir purename) ctime size := by
  unfold putMeta metaMessage remotePath metaData
  by_cases hapart : dir.getLast?.getD behind ≠ slash
  · have hlength : purename.length + dir.length + 1 = (dir ++ [slash] ++ purename).length := by
      simp
      omega
    simp [hapart, Message.addData, hlength]
  · have hlength : purename.length + dir.length + 0 = (dir ++ purename).length := by
      simp
      omega
    simp only [hapart, if_false, hlength]
    simp [Message.addData]

/-- The whole upload, seen from both sides. -/
theorem uploaded {tree : FileTree} (hlinked : tree.Linked) (hbound : tree.Bound) (behind : UInt8)
    (filename dir content : Bytes) (ctime : UInt64) (manager : BlockManager)
    (hadmits : tree.Admits (remotePath behind dir (getFileName filename)))
    (hfits : 8 + (remotePath behind dir (getFileName filename)).length + 24 +
      8 * (piecesOf content).length ≤ blockSize) :
    ∃ start block up, MetaBlock.newMeta = .ok start ∧
      receiveFile manager tree ((putMessages behind filename dir content ctime).map saved) =
        .ok (some block, up) ∧
      putFile ⟨start, manager, tree⟩ ((putMessages behind filename dir content ctime).map saved) =
        .ok (up, true) ∧
      Uploaded (remotePath behind dir (getFileName filename)) ctime content manager block up := by
  generalize hpath : remotePath behind dir (getFileName filename) = path at *
  obtain ⟨block₁, hmeta, hid₁, h₁⟩ :=
    receiveMessage_meta hadmits (by omega) manager ctime (.ofNat content.length) true
  obtain ⟨block₂, hrun, hid₂, h₂⟩ := run_pieces h₁ (fun _ => length_le_of_mem_piecesOf)
    (by simpa using hfits) manager tree
  obtain ⟨tree', hend, hadd⟩ := receiveMessage_end h₂
    (manager.saveBlocks ((piecesOf content).map newData)) hlinked hadmits
  rw [List.nil_append] at h₂
  have hinputs : (putMessages behind filename dir content ctime).map saved =
      saved (metaMessage path ctime (.ofNat content.length)) ::
        ((piecesOf content).map (saved ∘ dataMessage) ++ [saved endMessage]) := by
    rw [putMessages, putMeta_eq, hpath, List.cons_append, List.map_cons, List.map_append,
      List.map_map]
    rfl
  -- the meta block is one more block that is saved
  have hlength : ((piecesOf content).map newData ++ [block₂.data]).length ≤ 2 ^ 32 := by
    rw [List.length_append, List.length_map, List.length_singleton]
    rw [blockSize] at hfits
    omega
  have hcount : ((piecesOf content).map newData).length = (piecesOf content).length :=
    List.length_map _
  have hsave : (manager.saveBlocks ((piecesOf content).map newData)).saveBlock true block₂.data
      block₂.id = (manager.idAfter (piecesOf content).length,
        manager.saveBlocks ((piecesOf content).map newData ++ [block₂.data])) := by
    obtain ⟨manager', hnew, -⟩ :=
      (manager.saveBlocks ((piecesOf content).map newData)).saveBlock_new true block₂.data
    rw [hid₂, hid₁, BlockManager.saveBlocks_concat, hnew, BlockManager.nextID_saveBlocks, hcount]
    rfl
  rw [hsave] at hend hadd
  dsimp only at hend hadd
  have hidNe : manager.idAfter (piecesOf content).length ≠ 0 :=
    buildBlockID_ne_zero manager.machineID_ne _
  have hlast : ((piecesOf content).map newData ++ [block₂.data])[(piecesOf content).length]? =
      some block₂.data := by
    rw [← hcount, List.getElem?_concat_length]
  obtain ⟨hlisted, hstored⟩ := manager.files_saveBlocks hlength hlast
  obtain ⟨hreceive, hput⟩ := loops_of_acknowledged hmeta
    ((piecesOf content).map (saved ∘ dataMessage) ++ [saved endMessage])
  refine ⟨_, { block₂ with id := manager.idAfter (piecesOf content).length },
    ⟨{ block₂ with id := manager.idAfter (piecesOf content).length },
      manager.saveBlocks ((piecesOf content).map newData ++ [block₂.data]), tree'⟩,
    newMeta_eq, ?_, ?_,
    ⟨(manager.machineID_saveBlocks _).1, hidNe,
      ⟨h₂.laid, h₂.filename, h₂.ctime, h₂.size, h₂.lists⟩, hlisted, hstored,
      hbound.hasFile_of_addFile hidNe hadd, ?_⟩⟩
  · rw [receiveFile, newMeta_eq, ok_bind, hinputs]
    apply hreceive.trans
    apply (hrun _).1.trans
    rw [receiveLoop, saved, hend, ok_bind]
  · rw [hinputs]
    apply hput.trans
    apply (hrun _).2.trans
    rw [putFile, saved, hend, ok_bind]
    dsimp only
    rw [if_neg (by simp), putFile]
  · intro i piece hpiece
    apply manager.files_saveBlocks hlength
    rw [List.getElem?_append_left, List.getElem?_map, hpiece, Option.map_some]
    rw [hcount]
    exact (List.getElem?_eq_some_iff.mp hpiece).1

/-! ## The replies of the server -/

section HandleGetFile

variable {fileName content : Bytes} {time : UInt64} {before : BlockManager} {block : MetaBlock}
  {up : Upload}

theorem Uploaded.describe_eq (h : Uploaded fileName time content before block up)
    (hname : fileName ≠ []) (remote : Remote) :
    FileManager.describe remote ⟨up.manager, up.tree⟩ fileName =
      .ok (some (.ofNat content.length,
        (List.range (piecesOf content).length).map before.idAfter)) := by
  obtain ⟨loaded, hdata, -, -, hloaded⟩ := h.describes.laid.ofData hname block.id
  have hmeta := BlockManager.getMeta_of_listed remote h.listed h.stored h.describes.laid.length hdata
  rw [FileManager.describe, h.entered.getMetaID_eq, ok_bind, if_neg h.id_ne, hmeta, ok_bind]
  dsimp only
  rw [hloaded.getFileSize_eq, ok_bind, hloaded.usable.dataIDs_eq, ok_bind]

/-- The pieces are on the machine itself. -/
theorem Uploaded.locate_eq (h : Uploaded fileName time content before block up) (remote : Remote)
    (router : Router) {i : Nat} (hi : i < (piecesOf content).length) :
    FileManager.locate remote router up.manager (before.idAfter i) = some router.localIP := by
  obtain ⟨hlisted, -⟩ := h.pieces (List.getElem?_eq_getElem hi)
  rw [FileManager.locate, BlockManager.askBlock_of_listed remote hlisted, Option.map_some,
    Router.askMachineIP, if_pos rfl]

/-- The server hands out the IDs of the pieces in order. -/
theorem Uploaded.handleGetFile_eq (h : Uploaded fileName time content before block up)
    (hname : fileName ≠ []) (remote : Remote) (router : Router) :
    FileManager.handleGetFile remote router ⟨up.manager, up.tree⟩ fileName =
      .ok (.new .file .fileACK ::
        FileManager.numberMessage (.ofNat content.length) ::
        FileManager.numberMessage (.ofNat (piecesOf content).length) ::
        ((List.range (piecesOf content).length).map
          (fun i => placeMessage (before.idAfter i) router.localIP) ++ [.new .file .fileACK]),
        true) := by
  have hplaces : ((List.range (piecesOf content).length).map before.idAfter).mapM
      (FileManager.placeOf remote router up.manager) =
        .ok ((List.range (piecesOf content).length).map
          fun i => placeMessage (before.idAfter i) router.localIP) := by
    rw [List.mapM_map]
    apply mapM_of_forall
    intro i hi
    rw [Function.comp_apply, FileManager.placeOf, h.locate_eq remote router (List.mem_range.mp hi)]
  rw [FileManager.handleGetFile_of_describe (h.describe_eq hname remote)]
  dsimp only
  rw [hplaces, ok_bind, List.length_map, List.length_range]

end HandleGetFile

/-! ## The download -/

/-- The blocks that the client fetches. -/
def blocksOf (before : BlockManager) (ip content : Bytes) : List BlockInfo :=
  (List.range (piecesOf content).length).map fun i =>
    ⟨.ofNat (min blockSize (content.length - i * blockSize)), i, before.idAfter i, ip⟩

/-- The blocks are the pieces, in order and none of them twice. -/
theorem map_id_blocksOf (before : BlockManager) (ip content : Bytes) :
    (blocksOf before ip content).map BlockInfo.id =
      (List.range (piecesOf content).length).map before.idAfter := by
  rw [blocksOf, List.map_map]
  rfl

theorem nodup_idAfter (before : BlockManager) {count : Nat} (hcount : count ≤ 2 ^ 32) :
    ((List.range count).map before.idAfter).Nodup := by
  apply List.Nodup.map_on _ List.nodup_range
  intro i hi j hj heq
  rw [List.mem_range] at hi hj
  exact before.idAfter_inj (by omega) (by omega) heq

theorem sized_eq_blocksOf (before : BlockManager) (ip : Bytes) {content : Bytes}
    (hlength : content.length < 2 ^ 64) :
    sized (((List.range (piecesOf content).length).map before.idAfter).mapIdx
      fun i id => ⟨0, 0 + i, id, ip⟩) (.ofNat content.length) = blocksOf before ip content := by
  apply List.ext_getElem?
  intro i
  rw [getElem?_sized _ hlength, List.getElem?_mapIdx, blocksOf, List.getElem?_map,
    List.getElem?_map, Option.map_map, Option.map_map]
  by_cases hi : i < (piecesOf content).length
  · simp [List.getElem?_range hi]
  · simp [Nat.le_of_not_lt hi]

/-- What `getFile` makes of the replies of the server. -/
theorem getFile_eq (isFree : Nat → Nat → Bool) (fuel : Nat) (before : BlockManager)
    (ip : Bytes) {content : Bytes} (hcount : (piecesOf content).length < 2 ^ 64) :
    getFile isFree fuel
      (.new .file .fileACK ::
        FileManager.numberMessage (.ofNat content.length) ::
        FileManager.numberMessage (.ofNat (piecesOf content).length) ::
        ((List.range (piecesOf content).length).map
          (fun i => placeMessage (before.idAfter i) ip) ++ [.new .file .fileACK])) =
      dispatch isFree fuel (((List.range (piecesOf content).length).map before.idAfter).mapIdx
        fun i id => ⟨0, 0 + i, id, ip⟩) (.ofNat content.length) 0 >>=
          fun tasks => .ok (some tasks) := by
  have hinfos := @readInfos_eq ((List.range (piecesOf content).length).map before.idAfter) ip
    [.new .file .fileACK] 0
  rw [List.length_map, List.length_range, List.map_map] at hinfos
  rw [FileManager.getFile_numbers isFree fuel _ hcount]
  exact congrArg (· >>= _) hinfos

/-- The calls of `write` that a worker may make for a block. -/
def Stores (serves : Bytes → Option BlockManager) (info : BlockInfo)
    (writes : List (Nat × Bytes)) : Prop :=
  ∃ calls, receiveBlock serves info calls = .ok (writes, true)

section Uploaded

variable {fileName content : Bytes} {time : UInt64} {before : BlockManager} {block : MetaBlock}
  {up : Upload}

/-- A worker stores its share of the file. -/
theorem Uploaded.receiveBlock_spec (h : Uploaded fileName time content before block up)
    {serves : Bytes → Option BlockManager} {ip : Bytes} (hserves : serves ip = some up.manager)
    {i : Nat} (hi : i * blockSize < content.length) (calls : Socket.Calls) :
    ∃ writes, receiveBlock serves
        ⟨.ofNat (min blockSize (content.length - i * blockSize)), i, before.idAfter i, ip⟩ calls =
          .ok (writes, true) ∧
      (∀ write ∈ writes, write.1 + write.2.length ≤ content.length ∧
        write.2 = part content write.1 write.2.length) ∧
      ∀ index, i * blockSize ≤ index → index < (i + 1) * blockSize → index < content.length →
        ∃ write ∈ writes, Covers write index := by
  have hpiece : (piecesOf content)[i]? = some (part content (i * blockSize) blockSize) := by
    rw [getElem?_piecesOf, if_pos hi]
  have hlength : (part content (i * blockSize) blockSize).length =
      min blockSize (content.length - i * blockSize) := by
    rw [part, List.length_take, List.length_drop]
  have hfits := Nat.min_le_left blockSize (content.length - i * blockSize)
  have htoNat : (UInt64.ofNat (min blockSize (content.length - i * blockSize))).toNat =
      min blockSize (content.length - i * blockSize) := by
    rw [UInt64.toNat_ofNat', Nat.mod_eq_of_lt]
    rw [blockSize] at hfits ⊢
    omega
  obtain ⟨-, hstored⟩ := h.pieces hpiece
  have hblock : newData (part content (i * blockSize) blockSize) =
      part content (i * blockSize) blockSize ++
        allocateMem.drop (part content (i * blockSize) blockSize).length := by
    rw [newData, overwrite, List.take_zero, List.nil_append, Nat.zero_add]
  have hsize : (newData (part content (i * blockSize) blockSize)).length = blockSize := by
    rw [newData, length_overwrite, length_allocateMem]
    rw [length_allocateMem, hlength]
    omega
  obtain ⟨writes, hrun, hinside, hall⟩ := @writeLoop_spec
    (newData (part content (i * blockSize) blockSize))
    (min blockSize (content.length - i * blockSize)) (by rw [hsize]; exact hfits) (i * blockSize)
    (min blockSize (content.length - i * blockSize) + 1) 0 (by omega) calls
  refine ⟨writes, ?_, ?_, ?_⟩
  · rw [receiveBlock_of_stored hserves hstored hsize]
    dsimp only
    rw [htoNat, hrun, ok_bind]
  · intro write hmem
    obtain ⟨offset, hstart, hend, hdata⟩ := hinside write hmem
    refine ⟨by omega, ?_⟩
    calc write.2 = part (newData (part content (i * blockSize) blockSize)) offset write.2.length :=
          hdata
      _ = part (part content (i * blockSize) blockSize) offset write.2.length := by
          rw [hblock, part_append_of_le (by omega)]
      _ = part content write.1 write.2.length := by rw [part_part _ _ (by omega), hstart]
  · intro index hfrom hto hindex
    obtain ⟨offset, rfl⟩ := Nat.exists_eq_add_of_le hfrom
    rw [Nat.succ_mul] at hto
    apply hall offset (Nat.zero_le _)
    omega

theorem Uploaded.stores (h : Uploaded fileName time content before block up)
    {serves : Bytes → Option BlockManager} {ip : Bytes} (hserves : serves ip = some up.manager)
    {i : Nat} (hi : i * blockSize < content.length) {writes : List (Nat × Bytes)}
    (hstores : Stores serves ⟨.ofNat (min blockSize (content.length - i * blockSize)), i,
      before.idAfter i, ip⟩ writes) :
    (∀ write ∈ writes, write.1 + write.2.length ≤ content.length ∧
      write.2 = part content write.1 write.2.length) ∧
    ∀ index, i * blockSize ≤ index → index < (i + 1) * blockSize → index < content.length →
      ∃ write ∈ writes, Covers write index := by
  obtain ⟨calls, hcalls⟩ := hstores
  obtain ⟨writes', hrun, hshare⟩ := h.receiveBlock_spec hserves hi calls
  rw [hcalls] at hrun
  rw [(Prod.mk.inj (Except.ok.inj hrun)).1]
  exact hshare

end Uploaded

/-- The client gets the blocks of the file in order, whichever workers are free;
each is stored without an error, and then the local file is the file. -/
def Downloads (replies : List Message) (serves : Bytes → Option BlockManager)
    (ids : List BlockID) (content : Bytes) : Prop :=
  ∃ blocks : List BlockInfo, blocks.map BlockInfo.id = ids ∧
    (∀ isFree fuel answer, getFile isFree fuel replies = .ok answer →
      ∃ tasks, answer = some tasks ∧ tasks.map Prod.snd = blocks) ∧
    (∀ isFree, Responsive isFree →
      ∃ fuel tasks, getFile isFree fuel replies = .ok (some tasks)) ∧
    (∀ info ∈ blocks, ∀ calls, ∃ writes, receiveBlock serves info calls = .ok (writes, true)) ∧
    ∀ writes, List.Forall₂ (Stores serves) blocks writes →
      ∀ order, order.Perm writes.flatten → writeAll [] order = content

/-- A complete file can be downloaded from its machine. -/
theorem Uploaded.downloads {fileName content : Bytes} {time : UInt64} {before : BlockManager}
    {block : MetaBlock} {up : Upload} (h : Uploaded fileName time content before block up)
    (hname : fileName ≠ []) (hcount : (piecesOf content).length < 2 ^ 32) (remote : Remote)
    (router : Router) {serves : Bytes → Option BlockManager}
    (hserves : serves router.localIP = some up.manager) :
    ∃ replies, FileManager.handleGetFile remote router ⟨up.manager, up.tree⟩ fileName =
        .ok (replies, true) ∧
      Downloads replies serves ((List.range (piecesOf content).length).map before.idAfter)
        content := by
  have hlength : content.length < 2 ^ 64 := by
    rw [length_piecesOf, blockSize] at hcount
    omega
  have hindex {i : Nat} : i < (piecesOf content).length ↔ i * blockSize < content.length := by
    rw [length_piecesOf, blockSize]
    omega
  refine ⟨_, h.handleGetFile_eq hname remote router,
    blocksOf before router.localIP content, map_id_blocksOf .., ?_, ?_, ?_, ?_⟩
  · intro isFree fuel answer hrun
    rw [getFile_eq isFree fuel before router.localIP (by omega)] at hrun
    obtain ⟨tasks, hdispatch, hanswer⟩ := bind_eq_ok_iff.mp hrun
    refine ⟨tasks, (Except.ok.inj hanswer).symm, ?_⟩
    rw [sized_of_dispatch hdispatch, sized_eq_blocksOf before router.localIP hlength]
  · intro isFree hresponsive
    obtain ⟨fuel, tasks, hdispatch⟩ := hresponsive.dispatch
      (((List.range (piecesOf content).length).map before.idAfter).mapIdx
        fun i id => ⟨0, 0 + i, id, router.localIP⟩) (.ofNat content.length) 0
    refine ⟨fuel, tasks, ?_⟩
    rw [getFile_eq isFree fuel before router.localIP (by omega), hdispatch, ok_bind]
  · intro info hinfo calls
    obtain ⟨i, hi, rfl⟩ := List.mem_map.mp hinfo
    obtain ⟨writes, hrun, -⟩ :=
      h.receiveBlock_spec hserves (hindex.mp (List.mem_range.mp hi)) calls
    exact ⟨writes, hrun⟩
  · intro writes hstores order hperm
    rw [blocksOf, List.forall₂_map_left_iff] at hstores
    apply writeAll_eq
    · intro write hmem
      obtain ⟨share, hmemShare, hwrite⟩ := List.mem_flatten.mp (hperm.mem_iff.mp hmem)
      obtain ⟨i, hi, hstored⟩ := exists_of_mem_right hstores hmemShare
      exact (h.stores hserves (hindex.mp (List.mem_range.mp hi)) hstored).1 write hwrite
    · intro index hlt
      have hle := Nat.div_mul_le_self index blockSize
      have hi : index / blockSize * blockSize < content.length := Nat.lt_of_le_of_lt hle hlt
      have hnext : index < (index / blockSize + 1) * blockSize := by
        rw [blockSize]
        omega
      obtain ⟨share, hmemShare, hstored⟩ :=
        exists_of_mem_left hstores (List.mem_range.mpr (hindex.mpr hi))
      obtain ⟨write, hwrite, hcovers⟩ := (h.stores hserves hi hstored).2 index hle hnext hlt
      exact ⟨write, hperm.mem_iff.mpr (List.mem_flatten.mpr ⟨share, hmemShare, hwrite⟩), hcovers⟩

/-- A file that was put under a free path and fits into one meta block is got back. -/
theorem putFile_getFile (keyHash : Bytes → Nat) {ops : List TreeOp} {tree : FileTree}
    (hrun : (treeSystem keyHash).Run ops tree) (manager : BlockManager) (behind : UInt8)
    (filename dir content : Bytes) (ctime : UInt64)
    (hadmits : tree.Admits (remotePath behind dir (getFileName filename)))
    (hfits : 8 + (remotePath behind dir (getFileName filename)).length + 24 +
      8 * ((content.length + blockSize - 1) / blockSize) ≤ blockSize) :
    ∃ start block up, MetaBlock.newMeta = .ok start ∧
      receiveFile manager tree ((putMessages behind filename dir content ctime).map saved) =
        .ok (some block, up) ∧
      putFile ⟨start, manager, tree⟩ ((putMessages behind filename dir content ctime).map saved) =
        .ok (up, true) ∧
      ((List.range (piecesOf content).length).map manager.idAfter).Nodup ∧
      (∀ i piece, (piecesOf content)[i]? = some piece →
        up.manager.files (manager.idAfter i) = some (newData piece)) ∧
      ∀ remote router serves, serves router.localIP = some up.manager →
        ∃ replies, FileManager.handleGetFile remote router ⟨up.manager, up.tree⟩
            (remotePath behind dir (getFileName filename)) = .ok (replies, true) ∧
          Downloads replies serves
            ((List.range (piecesOf content).length).map manager.idAfter) content := by
  rw [← length_piecesOf] at hfits
  have hcount : (piecesOf content).length < 2 ^ 32 := by
    rw [blockSize] at hfits
    omega
  have hname : remotePath behind dir (getFileName filename) ≠ [] := by
    intro hnil
    obtain ⟨-, dir', -, -, hdir, -⟩ := hadmits
    rw [hnil] at hdir
    have hnone : dirOf [] = none := by decide
    rw [hnone] at hdir
    exact absurd hdir (by simp)
  obtain ⟨start, block, up, hstart, hreceive, hput, huploaded⟩ :=
    uploaded ((invariant_linked keyHash).run hrun) ((invariant_bound keyHash).run hrun) behind
      filename dir content ctime manager hadmits hfits
  refine ⟨start, block, up, hstart, hreceive, hput, nodup_idAfter manager (Nat.le_of_lt hcount),
    fun i piece hpiece => (huploaded.pieces hpiece).2, ?_⟩
  intro remote router serves hserves
  exact huploaded.downloads hname hcount remote router hserves

theorem putFile_getFile_example : ∃ start block up, MetaBlock.newMeta = .ok start ∧
    receiveFile (.new 1 (by decide)) (.new List.length)
      ((putMessages 0 (ascii "/tmp/f") (ascii "/") [1, 2, 3] 0).map saved) =
        .ok (some block, up) ∧
    ∀ remote serves, serves (ascii "10.0.0.1") = some up.manager →
      ∃ replies, FileManager.handleGetFile remote ⟨ascii "10.0.0.1", fun _ => none⟩
          ⟨up.manager, up.tree⟩ (ascii "/f") = .ok (replies, true) ∧
        Downloads replies serves
          ((List.range (piecesOf [1, 2, 3]).length).map
            (BlockManager.new 1 (by decide)).idAfter) [1, 2, 3] := by
  have hrun : (treeSystem List.length).Run [] (.new List.length) := ⟨_, rfl, .nil _⟩
  obtain ⟨start, block, up, hstart, hreceive, -, -, -, hget⟩ :=
    putFile_getFile List.length hrun (.new 1 (by decide)) 0 (ascii "/tmp/f") (ascii "/") [1, 2, 3] 0
      ⟨rfl, rootPath, 0, _, rfl, rfl, rfl, rfl⟩ (by decide)
  exact ⟨start, block, up, hstart, hreceive, fun remote serves hserves =>
    hget remote ⟨ascii "10.0.0.1", fun _ => none⟩ serves hserves⟩

end Doopey
