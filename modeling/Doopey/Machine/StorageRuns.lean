import Doopey.File.TreeAdditions
import Doopey.Machine.StorageNet
import Doopey.Machine.UploadDownload

/-!
# What a cluster keeps of its files

Every upload that was acknowledged left a meta block with the facts about its file and with
the IDs of its pieces, in order, and each of these blocks is on some machine. Every file in a
tree is one of those that were uploaded. Both hold after every run in which no block is
deleted, however the uploads and the block managers interleave.
-/

namespace Doopey

open Foundation FileUploader Client

namespace FileUploader

section Rounds

variable {path : Bytes} {time size : UInt64} {block : MetaBlock} {ids : List BlockID}

/-- The facts about a file are taken, and the client leaves if its path is in use. -/
theorem serveMessage_meta (hinside : 8 + path.length + 24 ≤ blockSize) {start : MetaBlock}
    (hstart : MetaBlock.newMeta = .ok start) (manager : BlockManager) {tree : FileTree}
    {id : BlockID} (hid : tree.getMetaID path = .ok id) :
    ∃ block, serveMessage ⟨start, manager, tree⟩ ⟨metaMessage path time size, true⟩ =
        .ok (⟨block, manager, tree⟩, if id = 0 then .goesOn else .failed) ∧
      block.id = 0 ∧ block.Describes path time size [] := by
  rw [newMeta_eq] at hstart
  obtain rfl := Except.ok.inj hstart
  obtain ⟨block, hsetup, hzero, hdescribes⟩ := setupMeta_new hinside time size
  refine ⟨block, ?_, hzero, hdescribes⟩
  have hmeta : (metaMessage path time size).Is .upFileMeta := rfl
  have hdata : (metaMessage path time size).data = metaData path time size := rfl
  rw [serveMessage, receiveMessage, if_pos hmeta, hdata, receiveMeta, hsetup, ok_bind]
  dsimp only
  rw [if_neg (by simp), hdescribes.getFileName_eq, ok_bind, hid, ok_bind, ok_bind]
  by_cases hfree : id = 0
  · simp [hfree]
  · have hclean : cleanData block manager = .ok manager :=
      cleanData_of_dataIDs hdescribes.usable.dataIDs_eq manager
    simp [hfree, hclean, ok_bind]

/-- A piece is saved, and its ID is listed behind the others. -/
theorem serveMessage_data (h : block.Describes path time size ids)
    (hroom : 8 + path.length + 24 + 8 * (ids.length + 1) ≤ blockSize) {piece : Bytes}
    (hpiece : piece.length ≤ blockSize) (manager : BlockManager) (tree : FileTree) :
    ∃ block', serveMessage ⟨block, manager, tree⟩ ⟨dataMessage piece, true⟩ =
        .ok (⟨block', (manager.saveBlock true (newData piece) 0).2, tree⟩, .goesOn) ∧
      block'.id = block.id ∧ block'.Describes path time size
        (ids ++ [(manager.saveBlock true (newData piece) 0).1]) := by
  obtain ⟨block', hmessage, hid, hdescribes⟩ :=
    receiveMessage_data h hroom piece hpiece true manager tree
  refine ⟨block', ?_, hid, hdescribes⟩
  rw [serveMessage, hmessage, ok_bind]
  dsimp only
  rw [if_neg (by simp)]

/-- The meta block is saved, and its ID is entered if the path is free and in a directory. -/
theorem serveMessage_end (h : block.Describes path time size ids) (manager : BlockManager)
    {tree tree' : FileTree} {added : Bool}
    (hadd : tree.addFile path (manager.saveBlock true block.data block.id).1 =
      .ok (tree', added)) :
    serveMessage ⟨block, manager, tree⟩ ⟨endMessage, true⟩ =
      .ok (⟨{ block with id := (manager.saveBlock true block.data block.id).1 },
        (manager.saveBlock true block.data block.id).2, tree'⟩,
        if added then .completed else .failed) := by
  have hname : ({ block with id := (manager.saveBlock true block.data block.id).1 } :
      MetaBlock).getFileName = .ok path := h.getFileName_eq
  rw [serveMessage, receiveMessage, if_neg (by decide), if_neg (by decide), if_pos (by decide),
    receiveEnd]
  dsimp only
  rw [if_pos rfl, hname, ok_bind, hadd, ok_bind]
  cases added with
  | false =>
      dsimp only
      rw [if_pos rfl, ok_bind]
      dsimp only
      rw [if_neg (by simp)]
      rfl
  | true =>
      dsimp only
      rw [if_neg (by simp), ok_bind]
      dsimp only
      rw [if_neg (by simp)]
      rfl

end Rounds

end FileUploader

/-! ## What is kept -/

/-- Some machine has the block, with these bytes. -/
def BlockNet.Provides (net : BlockNet) (id : BlockID) (data : Bytes) : Prop :=
  ∃ m, (net.nodes m).files id = some data

/-- The block was first saved with these bytes. -/
def BlockNet.FirstIs (net : BlockNet) (id : BlockID) (data : Bytes) : Prop := net.first id = some data

theorem BlockNet.Keeps.provides {net net' : BlockNet} (h : net.Keeps net') (id : BlockID)
    (data : Bytes) (hprovides : net.Provides id data) : net'.Provides id data := by
  obtain ⟨m, hfile⟩ := hprovides
  exact ⟨m, h.files hfile⟩

section Archives

variable {has has' : BlockID → Bytes → Prop} (hmore : ∀ id data, has id data → has' id data)
  {file : PutFile} {id : BlockID} {ids : List BlockID} {pieces : List Bytes}

/-- The pieces are the blocks with the IDs. -/
def StoredAs (has : BlockID → Bytes → Prop) (ids : List BlockID) (pieces : List Bytes) : Prop :=
  List.Forall₂ (fun id piece => has id (newData piece)) ids pieces

/-- The file can be put together again from the blocks. -/
def Archived (has : BlockID → Bytes → Prop) (file : PutFile) (id : BlockID)
    (ids : List BlockID) : Prop :=
  (∃ data, MetaBlock.Laid data file.path file.ctime (.ofNat file.content.length) ids ∧
      has id data) ∧
    StoredAs has ids (piecesOf file.content)

include hmore

theorem StoredAs.mono (h : StoredAs has ids pieces) : StoredAs has' ids pieces :=
  h.imp fun _ _ hpiece => hmore _ _ hpiece

theorem Archived.mono (h : Archived has file id ids) : Archived has' file id ids := by
  obtain ⟨⟨data, hlaid, hdata⟩, hpieces⟩ := h
  exact ⟨⟨data, hlaid, hmore _ _ hdata⟩, hpieces.mono hmore⟩

end Archives

/-- How far an upload has come: nothing is sent yet, or the facts about the file and the first
of its pieces, which are the blocks with the IDs. -/
inductive Session.Under (has : BlockID → Bytes → Prop) (session : Session) :
    List BlockID → Prop
  | starts (hmeta : MetaBlock.newMeta = .ok session.metaBlock)
      (hleft : session.left = session.file.messages) : Under has session []
  | sends (ids : List BlockID) (done rest : List Bytes)
      (hpieces : piecesOf session.file.content = done ++ rest)
      (hleft : session.left = rest.map dataMessage ++ [endMessage])
      (hid : session.metaBlock.id = 0)
      (hdescribes : session.metaBlock.Describes session.file.path session.file.ctime
        (.ofNat session.file.content.length) ids)
      (hstored : StoredAs has ids done) : Under has session ids

theorem Session.Under.mono {has has' : BlockID → Bytes → Prop} {session : Session}
    {ids : List BlockID} (h : session.Under has ids)
    (hmore : ∀ id data, has id data → has' id data) : session.Under has' ids := by
  cases h with
  | starts hmeta hleft => exact .starts hmeta hleft
  | sends ids done rest hpieces hleft hid hdescribes hstored =>
      exact .sends ids done rest hpieces hleft hid hdescribes (hstored.mono hmore)

/-- The block manager after the blocks that a message has saved, at most one. -/
def savedBy (manager : BlockManager) : Option Bytes → BlockManager
  | none => manager
  | some data => (manager.saveBlock true data 0).2

/-- What the next message of an upload leads to, once the block that is saved for it is there. -/
inductive Session.Handled (has : BlockID → Bytes → Prop) (session : Session) (ids : List BlockID)
    (manager : BlockManager) (tree : FileTree) (rest : List Message) :
    Option Bytes → Upload → Outcome → Prop
  | goesOn (saves : Option Bytes) (block : MetaBlock)
      (hunder : ∀ has' : BlockID → Bytes → Prop, (∀ id data, has id data → has' id data) →
        (∀ data, saves = some data → has' (manager.saveBlock true data 0).1 data) →
        Session.Under has' { session with metaBlock := block, left := rest }
          (ids ++ (saves.map fun data => (manager.saveBlock true data 0).1).toList)) :
      Handled has session ids manager tree rest saves ⟨block, savedBy manager saves, tree⟩ .goesOn
  | failed (saves : Option Bytes) (block : MetaBlock) (hused : ¬ tree.MayAdd session.file.path) :
      Handled has session ids manager tree rest saves ⟨block, savedBy manager saves, tree⟩ .failed
  | completed (data : Bytes) (block : MetaBlock) (tree' : FileTree)
      (hid : block.id = (manager.saveBlock true data 0).1)
      (hname : block.getFileName = .ok session.file.path)
      (hadd : tree.addFile session.file.path block.id = .ok (tree', true))
      (harchives : ∀ has' : BlockID → Bytes → Prop, (∀ id data, has id data → has' id data) →
        has' block.id data → Archived has' session.file block.id ids) :
      Handled has session ids manager tree rest (some data)
        ⟨block, savedBy manager (some data), tree'⟩ .completed

/-- The next message of an upload can be handled, and a block that is saved for it is full. -/
theorem Session.Under.handled {has : BlockID → Bytes → Prop} {session : Session}
    {ids : List BlockID} (h : session.Under has ids) (hfits : session.file.Fits)
    (manager : BlockManager) {tree : FileTree} {ns : PathTree} {addr : Bytes → Nat}
    (hrepr : FileTree.Represents tree ns [] addr) :
    ∃ msg rest saves up outcome, session.left = msg :: rest ∧
      serveMessage ⟨session.metaBlock, manager, tree⟩ ⟨msg, true⟩ = .ok (up, outcome) ∧
      session.Handled has ids manager tree rest saves up outcome ∧
      ∀ data, saves = some data → data.length = blockSize := by
  cases h with
  | starts hmeta hleft =>
      rw [PutFile.messages, putMessages, putMeta_eq, List.cons_append] at hleft
      obtain ⟨block, hserve, hid, hdescribes⟩ := serveMessage_meta
        (Nat.le_trans (Nat.le_add_right _ _) hfits) hmeta manager
        (hrepr.getMetaID_eq session.file.path)
      refine ⟨_, _, none, _, _, hleft, hserve, ?_, fun data hdata => ?_⟩
      · split
        · exact .goesOn none block fun has' _ _ => .sends [] [] _ rfl rfl hid hdescribes .nil
        next hused =>
          refine .failed none block fun hmay => hused ?_
          rw [((hrepr.mayAdd_iff _).mp hmay).1, Option.getD_none]
      · cases hdata
  | sends ids done pieces hpieces hleft hid hdescribes hstored =>
      have hcount : (piecesOf session.file.content).length = ids.length + pieces.length := by
        rw [hpieces, List.length_append, hstored.length_eq]
      cases pieces with
      | cons piece pieces =>
          have hroom : 8 + session.file.path.length + 24 + 8 * (ids.length + 1) ≤ blockSize := by
            rw [PutFile.Fits, hcount, List.length_cons] at hfits
            omega
          have hpiece : piece.length ≤ blockSize := by
            apply @length_le_of_mem_piecesOf session.file.content
            rw [hpieces]
            exact List.mem_append_right _ List.mem_cons_self
          obtain ⟨block, hserve, hid', hdescribes'⟩ :=
            serveMessage_data hdescribes hroom hpiece manager tree
          refine ⟨_, _, some (newData piece), _, _, hleft, hserve, .goesOn (some _) block ?_, ?_⟩
          · intro has' hmore hsaved
            refine .sends _ (done ++ [piece]) pieces ?_ rfl (hid'.trans hid) hdescribes' ?_
            · rw [hpieces, List.append_assoc, List.singleton_append]
            · exact List.rel_append (hstored.mono hmore) (.cons (hsaved _ rfl) .nil)
          · intro data hdata
            rw [← Option.some.inj hdata, newData, length_overwrite, length_allocateMem]
            rw [length_allocateMem]
            omega
      | nil =>
          rw [List.append_nil] at hpieces
          have hlength : ∀ data, some session.metaBlock.data = some data →
              data.length = blockSize := by
            intro data hdata
            rw [← Option.some.inj hdata]
            exact hdescribes.laid.length
          by_cases hmay : tree.MayAdd session.file.path
          · obtain ⟨tree', hadd, -⟩ := FileTree.addFile_of_accepts hrepr
              (manager.saveBlock true session.metaBlock.data 0).1 ((hrepr.mayAdd_iff _).mp hmay)
            rw [← hid] at hadd
            refine ⟨_, _, some session.metaBlock.data, _, _, hleft,
              serveMessage_end hdescribes manager hadd, ?_, hlength⟩
            rw [hid] at hadd ⊢
            refine .completed _ _ tree' rfl hdescribes.getFileName_eq hadd ?_
            intro has' hmore hsaved
            refine ⟨⟨_, hdescribes.laid, hsaved⟩, ?_⟩
            rw [hpieces]
            exact hstored.mono hmore
          · have hadd := FileTree.addFile_of_not_accepts hrepr
              (manager.saveBlock true session.metaBlock.data session.metaBlock.id).1
              (mt (hrepr.mayAdd_iff _).mpr hmay)
            refine ⟨_, _, some session.metaBlock.data, _, _, hleft,
              serveMessage_end hdescribes manager hadd, ?_, hlength⟩
            rw [hid]
            exact .failed (some _) _ hmay

/-- Every entry of the tree meets a condition. -/
def FileTree.Within (entry : Bytes → BlockID → Prop) (tree : FileTree) : Prop :=
  ∃ ns addr, Represents tree ns [] addr ∧ ∀ path id, ns.entry path = some id → entry path id

namespace FileTree.Within

variable {entry entry' : Bytes → BlockID → Prop} {tree tree' : FileTree}

theorem mono (h : tree.Within entry) (hentry : ∀ path id, entry path id → entry' path id) :
    tree.Within entry' := by
  obtain ⟨ns, addr, hrepr, hentries⟩ := h
  exact ⟨ns, addr, hrepr, fun path id hfound => hentry path id (hentries path id hfound)⟩

theorem of_new (keyHash : Bytes → Nat) (hroot : entry rootPath 0) :
    (FileTree.new keyHash).Within entry := by
  refine ⟨_, _, represents_new keyHash, fun path id hfound => ?_⟩
  rw [Namespace.entry_initial] at hfound
  split at hfound
  next heq =>
    rw [heq, ← Option.some.inj hfound]
    exact hroot
  next => cases hfound

/-- What is entered meets the condition. -/
theorem addFile (h : tree.Within entry) {path : Bytes} {id : BlockID} {added : Bool}
    (hadd : tree.addFile path id = .ok (tree', added)) (hentry : entry path id) :
    tree'.Within entry := by
  obtain ⟨ns, addr, hrepr, hentries⟩ := h
  by_cases haccept : ns.Accepts path
  · obtain ⟨tree'', hrun, hrepr'⟩ := addFile_of_accepts hrepr id haccept
    rw [hadd] at hrun
    obtain ⟨rfl, -⟩ := Prod.mk.inj (Except.ok.inj hrun)
    refine ⟨_, _, hrepr', fun path' id' hfound => ?_⟩
    rw [ns.entry_add] at hfound
    split at hfound
    next heq =>
      rw [heq, ← Option.some.inj hfound]
      exact hentry
    next => exact hentries path' id' hfound
  · rw [addFile_of_not_accepts hrepr id haccept] at hadd
    obtain ⟨rfl, -⟩ := Prod.mk.inj (Except.ok.inj hadd)
    exact ⟨ns, addr, hrepr, hentries⟩

/-- No file has an empty path. -/
theorem ne_nil_of_addFile (h : tree.Within entry) {path : Bytes} {id : BlockID}
    (hadd : tree.addFile path id = .ok (tree', true)) : path ≠ [] := by
  obtain ⟨ns, addr, hrepr, -⟩ := h
  by_cases haccept : ns.Accepts path
  · apply ne_nil_of_entry (ns.add path id haccept)
    rw [ns.entry_add, if_pos rfl]
    exact Option.some_ne_none id
  · rw [addFile_of_not_accepts hrepr id haccept] at hadd
    cases (Prod.mk.inj (Except.ok.inj hadd)).2

end FileTree.Within

/-- Every file in the tree was uploaded. -/
def FileTree.From (completed : List (BlockID × PutFile)) (tree : FileTree) : Prop :=
  tree.Within fun path id => id ≠ 0 → ∃ file, (id, file) ∈ completed ∧ file.path = path

theorem FileTree.From.mono {completed completed' : List (BlockID × PutFile)} {tree : FileTree}
    (h : tree.From completed) (hsubset : completed ⊆ completed') : tree.From completed' := by
  refine Within.mono h fun path id hfile hid => ?_
  obtain ⟨file, hmem, hpath⟩ := hfile hid
  exact ⟨file, hsubset hmem, hpath⟩

/-- A path that `getMetaID` finds has an entry. -/
theorem FileTree.Represents.entry_of_getMetaID {tree : FileTree} {ns : PathTree}
    {addr : Bytes → Nat} (h : Represents tree ns [] addr) {path : Bytes} {id : BlockID}
    (hmeta : tree.getMetaID path = .ok id) (hid : id ≠ 0) : ns.entry path = some id := by
  have hentry := Except.ok.inj ((h.getMetaID_eq path).symm.trans hmeta)
  cases hfound : ns.entry path with
  | none =>
      rw [hfound] at hentry
      exact absurd hentry.symm hid
  | some id' =>
      rw [hfound] at hentry
      exact congrArg some hentry

/-- What is found under a path was uploaded to it. -/
theorem FileTree.From.exists_file {completed : List (BlockID × PutFile)} {tree : FileTree}
    (h : tree.From completed) {path : Bytes} {id : BlockID}
    (hmeta : tree.getMetaID path = .ok id) (hid : id ≠ 0) :
    ∃ file, (id, file) ∈ completed ∧ file.path = path := by
  obtain ⟨ns, addr, hrepr, hentries⟩ := h
  exact hentries path id (hrepr.entry_of_getMetaID hmeta hid) hid

/-- The broadcast announces an uploaded file, or a directory. -/
def Announced (completed : List (BlockID × PutFile)) (msg : Message) : Prop :=
  (∃ dir, msg = FileManager.newDirMessage dir) ∨
    ∃ id file, (id, file) ∈ completed ∧ msg = FileManager.newFileMessage file.path id

theorem Announced.mono {completed completed' : List (BlockID × PutFile)} {msg : Message}
    (h : Announced completed msg) (hsubset : completed ⊆ completed') :
    Announced completed' msg := by
  rcases h with hdir | ⟨id, file, hmem, heq⟩
  · exact Or.inl hdir
  · exact Or.inr ⟨id, file, hsubset hmem, heq⟩

namespace StorageNet

/-- All files come from uploads, where `has` tells what the blocks are. -/
structure Filed (s : StorageNet) (has : BlockID → Bytes → Prop) : Prop where
  tree (n : MachineID) : (s.trees n).From s.completed
  session {n : MachineID} {session : Session} : session ∈ s.sessions n →
    n ≠ 0 ∧ session.file.Fits ∧ ∃ ids, session.Under has ids
  completed {id : BlockID} {file : PutFile} : (id, file) ∈ s.completed →
    id ≠ 0 ∧ file.Fits ∧ file.path ≠ [] ∧ ∃ ids, Archived has file id ids

/-- Nothing that was uploaded is lost, and nothing else is in any tree. -/
structure Intact (blockReplica : UInt64) (s : StorageNet) : Prop extends
    s.Filed s.net.Provides where
  blocks : s.net.Lasts blockReplica
  sent {msg : Message} : msg ∈ s.sent → Announced s.completed msg

/-- What was uploaded stays so. -/
structure Grows (s s' : StorageNet) : Prop where
  blocks : s.net.Keeps s'.net
  completed : s.completed ⊆ s'.completed

theorem Grows.refl (s : StorageNet) : s.Grows s := ⟨.refl _, List.Subset.refl _⟩

theorem Grows.trans {s s' s'' : StorageNet} (h : s.Grows s') (h' : s'.Grows s'') : s.Grows s'' :=
  ⟨h.blocks.trans h'.blocks, List.Subset.trans h.completed h'.completed⟩

theorem MaySave.lasts {blockReplica : UInt64} {net net' : BlockNet} {n : MachineID}
    (hsaves : MaySave blockReplica net n true net') (h : net.Lasts blockReplica)
    (hreplica : 1 ≤ blockReplica) (hmax : (net.nodes n).localMax + 1 ≠ 0) :
    net'.Lasts blockReplica ∧ net.Keeps net' := by
  rcases hsaves with rfl | ⟨data, hstep⟩
  · exact ⟨h, .refl _⟩
  · have henduring : net.Enduring (.save n data true) := hmax
    exact h.step hreplica henduring hstep

/-- A block that was saved for a message is on the machine, under the next ID. -/
theorem filed_of_shows {node : BlockNode} {n : MachineID} {manager : BlockManager} {data : Bytes}
    (hshows : node.Shows n (manager.saveBlock true data 0).2) :
    (manager.saveBlock true data 0).1 = manager.nextID ∧
      node.files (manager.saveBlock true data 0).1 = some data := by
  obtain ⟨hid, -, -, -, hfiles⟩ := manager.saveBlock_spec true data 0
  rw [if_pos rfl, if_pos rfl] at hid
  rw [if_pos rfl, if_pos rfl] at hfiles
  refine ⟨hid, ?_⟩
  rw [← hshows.files, hfiles, hid, Function.update_self]

section Steps

variable {blockReplica : UInt64} {s s' : StorageNet} {n : MachineID} {k : Nat}
  {session : Session} {rest : List Message} {net : BlockNet} {up : Upload} {outcome : Outcome}

/-- The ID that a machine gives to the next block. -/
def nextID (s : StorageNet) (n : MachineID) : BlockID :=
  buildBlockID n ((s.net.nodes n).localMax + 1)

/-- What a message of an upload leads to. -/
inductive Served (has : BlockID → Bytes → Prop) (s : StorageNet) (n : MachineID)
    (session : Session) (ids : List BlockID) (rest : List Message) (up : Upload) : Outcome → Prop
  | goesOn (ids' : List BlockID) (htree : up.tree = s.trees n)
      (hunder : Session.Under has { session with metaBlock := up.metaBlock, left := rest } ids')
      (hids : ∀ id ∈ ids', id ∈ ids ∨ id = s.nextID n) : Served has s n session ids rest up .goesOn
  | failed (htree : up.tree = s.trees n) : Served has s n session ids rest up .failed
  | completed (hne : up.metaBlock.id ≠ 0) (hid : up.metaBlock.id = s.nextID n)
      (hname : up.metaBlock.getFileName = .ok session.file.path)
      (hadd : (s.trees n).addFile session.file.path up.metaBlock.id = .ok (up.tree, true))
      (harchives : Archived has session.file up.metaBlock.id ids) :
      Served has s n session ids rest up .completed

/-- A machine handles a message as an upload has come so far, and has what it saves. -/
theorem Receives.served (hreceives : s.Receives blockReplica n k true session rest net up outcome)
    {has has' : BlockID → Bytes → Prop} {ids : List BlockID} (hunder : session.Under has ids)
    (hfits : session.file.Fits) {ns : PathTree} {addr : Bytes → Nat}
    (hrepr : FileTree.Represents (s.trees n) ns [] addr)
    (hmore : ∀ id data, has id data → has' id data)
    (hfiles : ∀ id data, (net.nodes n).files id = some data → has' id data) :
    s.Served has' n session ids rest up outcome := by
  obtain ⟨msg, store, hleft, hstore, hround⟩ := hreceives.round
  rw [hstore.tree] at hround
  obtain ⟨msg', rest', saves, up', outcome', hleft', hserve, hhandled, -⟩ :=
    hunder.handled hfits store.manager hrepr
  obtain ⟨rfl, rfl⟩ := List.cons.inj (hleft.symm.trans hleft')
  obtain ⟨rfl, rfl⟩ := Prod.mk.inj (Except.ok.inj (hround.symm.trans hserve))
  have hshows := hreceives.shows
  have hnext : store.manager.nextID = s.nextID n := by
    rw [BlockManager.nextID, hstore.manager.machineID, hstore.manager.localMax]
    rfl
  cases hhandled with
  | goesOn saves block hunder =>
      refine .goesOn _ rfl (hunder has' hmore ?_) fun id hmem => ?_
      · rintro data rfl
        exact hfiles _ _ (filed_of_shows hshows).2
      · refine (List.mem_append.mp hmem).imp_right fun hnew => ?_
        obtain ⟨data, rfl, rfl⟩ := Option.map_eq_some_iff.mp (Option.mem_toList.mp hnew)
        rw [(filed_of_shows hshows).1, hnext]
  | failed saves block hused => exact .failed rfl
  | completed data block tree' hid hname hadd harchives =>
      obtain ⟨hnew, hfile⟩ := filed_of_shows hshows
      rw [← hid] at hnew hfile
      exact .completed (hnew ▸ store.manager.nextID_ne_zero) (hnew.trans hnext) hname hadd
        (harchives has' hmore (hfiles _ _ hfile))

/-- The blocks of all files and uploads are known to be the same. -/
theorem Filed.mono {has has' : BlockID → Bytes → Prop} (h : s.Filed has)
    (hmore : ∀ id data, has id data → has' id data) : s.Filed has' := by
  refine ⟨h.tree, fun hmem => ?_, fun hmem => ?_⟩
  · obtain ⟨hn, hfits, ids, hunder⟩ := h.session hmem
    exact ⟨hn, hfits, ids, hunder.mono hmore⟩
  · obtain ⟨hid, hfits, hname, ids, harchives⟩ := h.completed hmem
    exact ⟨hid, hfits, hname, ids, harchives.mono hmore⟩

/-- A machine goes over to a new tree and other uploads, while blocks are added. -/
theorem Filed.serve {has has' : BlockID → Bytes → Prop} (h : s.Filed has)
    (hmore : ∀ id data, has id data → has' id data) {tree : FileTree} {sessions : List Session}
    {sent : List Message} {completed : List (BlockID × PutFile)}
    (hcompleted : s.completed ⊆ completed) (htree : tree.From completed)
    (hsessions : ∀ session ∈ sessions, session ∈ s.sessions n ∨
      n ≠ 0 ∧ session.file.Fits ∧ ∃ ids, session.Under has' ids)
    (harchives : ∀ id file, (id, file) ∈ completed → (id, file) ∈ s.completed ∨
      id ≠ 0 ∧ file.Fits ∧ file.path ≠ [] ∧ ∃ ids, Archived has' file id ids) :
    Filed { s.serve n net tree sessions with sent := sent, completed := completed } has' := by
  have hold {m : MachineID} {session : Session} (hmem : session ∈ s.sessions m) :
      m ≠ 0 ∧ session.file.Fits ∧ ∃ ids, session.Under has' ids := by
    obtain ⟨hm, hfits, ids, hunder⟩ := h.session hmem
    exact ⟨hm, hfits, ids, hunder.mono hmore⟩
  refine ⟨?_, ?_, fun hmem => ?_⟩
  · apply (Function.forall_update_iff s.trees fun _ tree => tree.From completed).mpr
    exact ⟨htree, fun m _ => (h.tree m).mono hcompleted⟩
  · apply (Function.forall_update_iff s.sessions fun m sessions => ∀ {session}, session ∈ sessions →
      m ≠ 0 ∧ session.file.Fits ∧ ∃ ids, session.Under has' ids).mpr
    exact ⟨fun hmem => (hsessions _ hmem).elim hold fun hnew => hnew, fun m _ _ => hold⟩
  · rcases harchives _ _ hmem with hmem | hnew
    · obtain ⟨hid, hfits, hname, ids, harchives⟩ := h.completed hmem
      exact ⟨hid, hfits, hname, ids, harchives.mono hmore⟩
    · exact hnew

/-- What is announced can be entered. -/
theorem Filed.hear {has : BlockID → Bytes → Prop} (h : s.Filed has) {msg : Message}
    (hmsg : Announced s.completed msg) {fuel : Nat} {tree : FileTree} {success : Bool}
    (hhear : FileManager.handleBroadcast fuel (s.trees n) msg = .ok (tree, success)) :
    tree.From s.completed := by
  rcases hmsg with ⟨dir, rfl⟩ | ⟨id, file, hmem, rfl⟩
  · rw [handleBroadcast_newDir] at hhear
    exact FileTree.Within.addFile (h.tree n) hhear fun hne => absurd rfl hne
  · have hlength : file.path.length < 2 ^ 64 := by
      obtain ⟨-, hfits, -⟩ := h.completed hmem
      rw [PutFile.Fits, blockSize] at hfits
      omega
    rw [handleBroadcast_newFile fuel _ hlength] at hhear
    exact FileTree.Within.addFile (h.tree n) hhear fun _ => ⟨file, hmem, rfl⟩

theorem Filed.served {has has' : BlockID → Bytes → Prop} (h : s.Filed has)
    (hmore : ∀ id data, has id data → has' id data)
    (hfiles : ∀ id data, (net.nodes n).files id = some data → has' id data)
    (hreceives : s.Receives blockReplica n k true session rest net up outcome) :
    ∃ ids, session.Under has ids ∧ s.Served has' n session ids rest up outcome := by
  obtain ⟨-, hfits, ids, hunder⟩ := h.session (List.mem_of_getElem? hreceives.found)
  obtain ⟨ns, addr, hrepr, -⟩ := h.tree n
  exact ⟨ids, hunder, hreceives.served hunder hfits hrepr hmore hfiles⟩

theorem Intact.served (h : s.Intact blockReplica) (hreplica : 1 ≤ blockReplica)
    (hmax : (s.net.nodes n).localMax + 1 ≠ 0)
    (hreceives : s.Receives blockReplica n k true session rest net up outcome) :
    (net.Lasts blockReplica ∧ s.net.Keeps net) ∧
      ∃ ids, s.Served net.Provides n session ids rest up outcome := by
  have hsaved := hreceives.saves.lasts h.blocks hreplica hmax
  obtain ⟨ids, -, hserved⟩ := h.toFiled.served hsaved.2.provides (fun _ _ hfile => ⟨n, hfile⟩)
    hreceives
  exact ⟨hsaved, ids, hserved⟩

/-- What an event means for the blocks. -/
inductive Moves : StorageEvent → BlockEvent → Prop
  | blocks (event : BlockEvent) : Moves (.blocks event) event
  | saves (n : MachineID) (k : Nat) (opens : Bool) (data : Bytes) :
      Moves (.receive n k opens) (.save n data opens)
  | deletes (n : MachineID) (k : Nat) (id : BlockID) : Moves (.cleans n k) (.delete n id)

/-- What a step does to the blocks. -/
theorem net_of_step {event : StorageEvent} (hstep : StorageStep blockReplica s event s') :
    s'.net = s.net ∨ ∃ event', BlockStep blockReplica s.net event' s'.net ∧ Moves event event' := by
  have hsaves {n : MachineID} (k : Nat) {opens : Bool} {net : BlockNet}
      (hsaves : MaySave blockReplica s.net n opens net) :
      net = s.net ∨ ∃ event', BlockStep blockReplica s.net event' net ∧
        Moves (.receive n k opens) event' := by
    rcases hsaves with heq | ⟨data, hstep⟩
    · exact Or.inl heq
    · exact Or.inr ⟨_, hstep, .saves n k opens data⟩
  cases hstep with
  | blocks event net hstep => exact Or.inr ⟨event, hstep, .blocks event⟩
  | goesOn n k opens session rest net up hreceives => exact hsaves k hreceives.saves
  | fails n k opens session rest net up hreceives => exact hsaves k hreceives.saves
  | completes n k opens session rest net up name hreceives hname => exact hsaves k hreceives.saves
  | cleans n k id rest net hfound hstep => exact Or.inr ⟨_, hstep, .deletes n k id⟩
  | put | leaves | addDir | hear => exact Or.inl rfl

/-- Every step keeps the files, as long as every block can be saved, none is saved differently
and whatever is heard can be entered. It tells of nothing but files that were uploaded, and
directories. -/
theorem Filed.step {has has' : BlockID → Bytes → Prop} (h : s.Filed has) {event : StorageEvent}
    (hstep : StorageStep blockReplica s event s') (hmore : ∀ id data, has id data → has' id data)
    (hfiles : ∀ n id data, (s'.net.nodes n).files id = some data → has' id data)
    (hfits : ∀ n file, event = .put n file → file.Fits)
    (hopens : ∀ n k opens, event = .receive n k opens → opens = true)
    (hhears : ∀ n msg fuel tree success, event = .hear n msg → msg ∈ s.sent →
      FileManager.handleBroadcast fuel (s.trees n) msg = .ok (tree, success) →
      tree.From s.completed) :
    s'.Filed has' ∧ s.completed ⊆ s'.completed ∧
      ∀ msg ∈ s'.sent, msg ∈ s.sent ∨ Announced s'.completed msg := by
  have hsubset := List.Subset.refl s.completed
  cases hstep with
  | blocks event net hstep => exact ⟨{ h.mono hmore with }, hsubset, fun _ => Or.inl⟩
  | cleans n k id rest net hfound hstep =>
      exact ⟨{ h.mono hmore with }, hsubset, fun _ => Or.inl⟩
  | leaves n k session ids hfound hids =>
      have hserve : (s.serve n s.net (s.trees n) ((s.sessions n).eraseIdx k)).Filed has' :=
        h.serve hmore hsubset (h.tree n) (fun _ hmem => Or.inl (List.mem_of_mem_eraseIdx hmem))
          fun _ _ => Or.inl
      exact ⟨{ hserve with }, hsubset, fun _ => Or.inl⟩
  | put n file metaBlock hn hmeta =>
      refine ⟨h.serve hmore hsubset (h.tree n) ?_ fun _ _ => Or.inl, hsubset, fun _ => Or.inl⟩
      intro session hmem
      rcases List.mem_cons.mp hmem with rfl | hold
      · exact Or.inr ⟨hn, hfits n file rfl, [], .starts hmeta rfl⟩
      · exact Or.inl hold
  | goesOn n k opens session rest net up hreceives =>
      obtain rfl := hopens n k opens rfl
      obtain ⟨ids, -, hserved⟩ := h.served hmore (hfiles n) hreceives
      cases hserved with
      | goesOn ids' htree hunder =>
          refine ⟨h.serve hmore hsubset (htree ▸ h.tree n) ?_ fun _ _ => Or.inl, hsubset,
            fun _ => Or.inl⟩
          intro other hmem
          rcases List.mem_or_eq_of_mem_set hmem with hold | rfl
          · exact Or.inl hold
          · obtain ⟨hn, hfits, -⟩ := h.session (List.mem_of_getElem? hreceives.found)
            exact Or.inr ⟨hn, hfits, ids', hunder⟩
  | fails n k opens session rest net up hreceives =>
      obtain rfl := hopens n k opens rfl
      obtain ⟨ids, -, hserved⟩ := h.served hmore (hfiles n) hreceives
      cases hserved with
      | failed htree =>
          exact ⟨h.serve hmore hsubset (htree ▸ h.tree n)
            (fun _ hmem => Or.inl (List.mem_of_mem_eraseIdx hmem)) fun _ _ => Or.inl, hsubset,
            fun _ => Or.inl⟩
  | completes n k opens session rest net up name hreceives hname =>
      obtain rfl := hopens n k opens rfl
      obtain ⟨ids, -, hserved⟩ := h.served hmore (hfiles n) hreceives
      cases hserved with
      | completed hid _ hpath hadd harchives =>
          obtain rfl := Except.ok.inj (hname.symm.trans hpath)
          have hmem : (up.metaBlock.id, session.file) ∈
              (up.metaBlock.id, session.file) :: s.completed := List.mem_cons_self
          have hgrows : s.completed ⊆ (up.metaBlock.id, session.file) :: s.completed :=
            List.subset_cons_self _ _
          refine ⟨h.serve hmore hgrows (FileTree.Within.addFile ((h.tree n).mono hgrows) hadd
            fun _ => ⟨_, hmem, rfl⟩) (fun _ hmem => Or.inl (List.mem_of_mem_eraseIdx hmem)) ?_,
            hgrows, fun msg hmsg => ?_⟩
          · intro id file hfile
            rcases List.mem_cons.mp hfile with heq | hold
            · obtain ⟨rfl, rfl⟩ := Prod.mk.inj heq
              obtain ⟨-, hfits, -⟩ := h.session (List.mem_of_getElem? hreceives.found)
              exact Or.inr ⟨hid, hfits, (h.tree n).ne_nil_of_addFile hadd, ids, harchives⟩
            · exact Or.inl hold
          · rcases List.mem_cons.mp hmsg with rfl | hold
            · exact Or.inr (Or.inr ⟨_, _, hmem, rfl⟩)
            · exact Or.inl hold
  | addDir n dir store store' msg success hstore hadd =>
      obtain ⟨⟨tree, added⟩, htree, hadd⟩ := bind_eq_ok_iff.mp hadd
      obtain ⟨rfl, hmsg⟩ := Prod.mk.inj (Except.ok.inj hadd)
      obtain ⟨rfl, rfl⟩ := Prod.mk.inj hmsg
      rw [hstore.tree] at htree
      refine ⟨h.serve hmore hsubset (FileTree.Within.addFile (h.tree n) htree
        fun hne => absurd rfl hne) (fun _ => Or.inl) fun _ _ => Or.inl, hsubset, fun msg hmsg => ?_⟩
      rcases List.mem_append.mp hmsg with hnew | hold
      · cases added with
        | true => exact Or.inr (Or.inl ⟨dir, List.mem_singleton.mp hnew⟩)
        | false => cases hnew
      · exact Or.inl hold
  | hear n msg fuel tree success hsent hhear =>
      exact ⟨h.serve hmore hsubset (hhears n msg fuel tree success rfl hsent hhear)
        (fun _ => Or.inl) fun _ _ => Or.inl, hsubset, fun _ => Or.inl⟩

/-- Every step keeps what was uploaded. -/
theorem Intact.step (h : s.Intact blockReplica) (hreplica : 1 ≤ blockReplica)
    {event : StorageEvent} (henduring : s.Enduring event)
    (hstep : StorageStep blockReplica s event s') : s'.Intact blockReplica ∧ s.Grows s' := by
  obtain ⟨hlasts, hkeeps⟩ : s'.net.Lasts blockReplica ∧ s.net.Keeps s'.net := by
    rcases net_of_step hstep with heq | ⟨event', hblocks, hmoves⟩
    · rw [heq]
      exact ⟨h.blocks, .refl _⟩
    · cases hmoves with
      | blocks => exact h.blocks.step hreplica henduring hblocks
      | saves n k opens data =>
          have hcounter : s.net.Enduring (.save n data opens) := henduring.2
          exact h.blocks.step hreplica hcounter hblocks
      | deletes => exact henduring.elim
  obtain ⟨hfiled, hcompleted, hsent⟩ := h.toFiled.step hstep hkeeps.provides
    (fun n _ _ hfile => ⟨n, hfile⟩) (fun n file heq => by rw [heq] at henduring; exact henduring)
    (fun n k opens heq => by rw [heq] at henduring; exact henduring.1)
    fun n msg fuel tree success _ hmsg => h.toFiled.hear (h.sent hmsg)
  refine ⟨⟨hfiled, hlasts, fun hmsg => ?_⟩, hkeeps, hcompleted⟩
  exact (hsent _ hmsg).elim (fun hold => (h.sent hold).mono hcompleted) fun hnew => hnew

theorem filed_empty (keyHash : Bytes → Nat) (has : BlockID → Bytes → Prop) :
    (empty keyHash).Filed has where
  tree _ := .of_new keyHash fun hid => absurd rfl hid
  session hmem := absurd hmem List.not_mem_nil
  completed hmem := absurd hmem List.not_mem_nil

theorem intact_empty (keyHash : Bytes → Nat) : (empty keyHash).Intact blockReplica where
  toFiled := filed_empty keyHash _
  blocks := BlockNet.lasts_empty
  sent hmem := absurd hmem List.not_mem_nil

theorem invariant_intact (hreplica : 1 ≤ blockReplica) (keyHash : Bytes → Nat) :
    ((storageSystem blockReplica keyHash).restrict Enduring).Invariant (Intact blockReplica) where
  init hinit := by
    rw [hinit]
    exact intact_empty keyHash
  step h hstep := (h.step hreplica hstep.1 hstep.2).1

theorem Intact.steps (h : s.Intact blockReplica) (hreplica : 1 ≤ blockReplica)
    {keyHash : Bytes → Nat} {events : List StorageEvent}
    (hsteps : ((storageSystem blockReplica keyHash).restrict Enduring).Steps s events s') :
    s'.Intact blockReplica ∧ s.Grows s' :=
  hsteps.relates Grows.refl Grows.trans (fun h hstep => h.step hreplica hstep.1 hstep.2) h

end Steps

end StorageNet

end Doopey
