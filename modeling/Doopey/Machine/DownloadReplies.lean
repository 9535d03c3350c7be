import Doopey.File.FreedStorage
import Doopey.Machine.Download

/-!
# The replies to a download

What `handleGetFile` tells a client about a file, for every file and whichever of
its data blocks are found, and how far `getFile` reads the replies.

The handler tells the client of a block that is not found, and goes on with the
location that it does not have.
-/

namespace Doopey

open Foundation

/-! ## What the client reads -/

namespace Client

/-- `getFile` waits for each of the messages and for none behind them. Then it hands
the blocks to the workers, or gives up. -/
structure Consumes (replies : List Message) (answer : Option (UInt64 × List BlockInfo)) : Prop where
  waits (isFree : Nat → Nat → Bool) (fuel : Nat) {count : Nat} : count < replies.length →
    getFile isFree fuel (replies.take count) = .error .badPointer
  ends (isFree : Nat → Nat → Bool) (fuel : Nat) (rest : List Message) :
    getFile isFree fuel (replies ++ rest) =
      match answer with
      | none => .ok none
      | some (fileSize, infos) =>
          dispatch isFree fuel infos fileSize 0 >>= fun tasks => .ok (some tasks)

end Client

namespace FileManager

/-- The message with a number. -/
def numberMessage (number : UInt64) : Message :=
  (Message.new .file .requestFile).addData (bytesOf number)

/-- What the path leads to: nothing that can be loaded, or the size and the data
blocks of a file. -/
def describe (remote : Remote) (store : Store) (path : Bytes) :
    Except Fault (Option (UInt64 × List BlockID)) := do
  let metaID ← store.tree.getMetaID path
  if metaID = 0 then .ok none
  else do
    let block ← store.manager.getMeta remote metaID
    match block with
    | none => .ok none
    | some block => do
        let filesize ← block.getFileSize
        let ids ← block.dataIDs
        .ok (some (filesize, ids))

/-- The address that a client is given for a block. -/
def locate (remote : Remote) (router : Router) (manager : BlockManager) (id : BlockID) :
    Option Bytes :=
  (manager.askBlock remote id).map (router.askMachineIP manager.machineID)

section Protocol

variable (locate : BlockID → Option Bytes)

/-- The messages that the client waits for: an error, or the size, the number of
blocks and their places, up to the first block that is not found. -/
def awaited : Option (UInt64 × List BlockID) → List Message
  | none => [.new .file .fileError]
  | some (filesize, ids) => .new .file .fileACK :: numberMessage filesize ::
      numberMessage (.ofNat ids.length) :: places locate ids

/-- All blocks of the file are found. -/
def Complete (file : Option (UInt64 × List BlockID)) : Prop :=
  ∀ filesize ids, file = some (filesize, ids) → ∀ id ∈ ids, (locate id).isSome

/-- The replies: behind the places of all blocks there is one more acknowledgement. -/
def replies : Option (UInt64 × List BlockID) → List Message
  | none => awaited locate none
  | some (filesize, ids) => awaited locate (some (filesize, ids)) ++
      if ids.all fun id => (locate id).isSome then [.new .file .fileACK] else []

/-- What the client learns from the replies. -/
def learned : Option (UInt64 × List BlockID) → Option (UInt64 × List BlockInfo)
  | none => none
  | some (filesize, ids) => (located locate 0 ids).map fun infos => (filesize, infos)

end Protocol

section Replies

variable {locate : BlockID → Option Bytes} {ids : List BlockID}

theorem readUInt64_numberMessage (number : UInt64) :
    readUInt64 (numberMessage number).data 0 = .ok number := by
  have hdata : (numberMessage number).data = bytesOf number ++ [] := (List.append_nil _).symm
  rw [hdata]
  exact readUInt64_append number []

/-- Behind the acknowledgement the client reads two numbers, and then the places. -/
theorem getFile_numbers (isFree : Nat → Nat → Bool) (fuel : Nat) (filesize : UInt64)
    {count : Nat} (hcount : count < 2 ^ 64) (rest : List Message) :
    Client.getFile isFree fuel (.new .file .fileACK :: numberMessage filesize ::
        numberMessage (.ofNat count) :: rest) =
      Client.readInfos 0 count rest >>= fun infos =>
        match infos with
        | none => .ok none
        | some infos =>
            Client.dispatch isFree fuel infos filesize 0 >>= fun tasks => .ok (some tasks) := by
  have hack : (Message.new .file .fileACK).Is .fileACK := rfl
  have htoNat : (UInt64.ofNat count).toNat = count := by
    rw [UInt64.toNat_ofNat', Nat.mod_eq_of_lt hcount]
  rw [Client.getFile, if_neg (not_not_intro hack), readUInt64_numberMessage, ok_bind,
    readUInt64_numberMessage, ok_bind]
  generalize (UInt64.ofNat count).toNat = announced at htoNat ⊢
  subst htoNat
  rfl

/-- The client waits for the messages up to the first block that is not found. -/
theorem consumes_awaited {file : Option (UInt64 × List BlockID)}
    (hlength : ∀ filesize ids, file = some (filesize, ids) → ids.length < 2 ^ 64) :
    Client.Consumes (awaited locate file) (learned locate file) := by
  have herror : ¬ (Message.new .file .fileError).Is .fileACK := by decide
  cases file with
  | none =>
      refine ⟨?_, ?_⟩
      · intro isFree fuel count hcount
        obtain rfl : count = 0 := Nat.lt_one_iff.mp hcount
        rfl
      · intro isFree fuel rest
        rw [awaited, List.singleton_append]
        unfold Client.getFile
        exact if_pos herror
  | some file =>
      obtain ⟨filesize, ids⟩ := file
      have hids := hlength filesize ids rfl
      refine ⟨?_, ?_⟩
      · intro isFree fuel count hcount
        match count with
        | 0 | 1 | 2 => rfl
        | count + 3 =>
            have hplaces : count < (places locate ids).length :=
              Nat.lt_of_add_lt_add_right hcount
            exact (getFile_numbers isFree fuel filesize hids _).trans
              (by rw [readInfos_take hplaces, error_bind])
      · intro isFree fuel rest
        rw [awaited, List.cons_append, List.cons_append, List.cons_append,
          getFile_numbers isFree fuel filesize hids, readInfos_places, ok_bind, learned]
        cases located locate 0 ids with
        | none => rfl
        | some infos => rfl

end Replies

/-! ## What the handler sends -/

theorem length_of_dataIDs {block : MetaBlock} {ids : List BlockID} (hids : block.dataIDs = .ok ids) :
    block.getDataBlockNumber = .ok (.ofNat ids.length) ∧ ids.length < 2 ^ 64 := by
  obtain ⟨nBlock, hnumber, hrun⟩ := bind_eq_ok_iff.mp hids
  have hlength := (mapM_eq_ok_iff.mp hrun).length_eq
  rw [List.length_range] at hlength
  rw [hnumber, ← hlength, UInt64.ofNat_toNat]
  exact ⟨rfl, nBlock.toNat_lt⟩

/-- A file has fewer blocks than the count in its meta block can tell. -/
theorem length_lt_of_describe {remote : Remote} {store : Store} {path : Bytes}
    {filesize : UInt64} {ids : List BlockID}
    (hfile : describe remote store path = .ok (some (filesize, ids))) : ids.length < 2 ^ 64 := by
  obtain ⟨metaID, -, hrun⟩ := bind_eq_ok_iff.mp hfile
  split at hrun
  next => exact absurd hrun (by simp)
  next =>
    obtain ⟨block, -, hrun⟩ := bind_eq_ok_iff.mp hrun
    cases block with
    | none => exact absurd hrun (by simp)
    | some block =>
        obtain ⟨size, -, hrun⟩ := bind_eq_ok_iff.mp hrun
        obtain ⟨ids', hids, hpure⟩ := bind_eq_ok_iff.mp hrun
        obtain ⟨-, rfl⟩ := Prod.mk.inj (Option.some.inj (Except.ok.inj hpure))
        exact (length_of_dataIDs hids).2

/-- The message about one block, once its ID is read. -/
def placeOf (remote : Remote) (router : Router) (manager : BlockManager) (id : BlockID) :
    Except Fault Message :=
  match locate remote router manager id with
  | none => .error .badPointer
  | some ip => .ok (placeMessage id ip)

section Handler

variable {remote : Remote} {router : Router} {store : Store} {path : Bytes}
  {file : Option (UInt64 × List BlockID)}

theorem locationMessage_eq (block : MetaBlock) (number : Nat) :
    locationMessage remote router store.manager block number =
      block.getDataBlockID (.ofNat number) >>= placeOf remote router store.manager := by
  unfold locationMessage
  congr 1
  funext id
  unfold placeOf locate
  cases store.manager.askBlock remote id with
  | none => rfl
  | some machine => rfl

/-- The handler, as far as the meta block of the file. -/
theorem handleGetFile_of_describe (hfile : describe remote store path = .ok file) :
    handleGetFile remote router store path =
      match file with
      | none => .ok ([.new .file .fileError], false)
      | some (filesize, ids) => ids.mapM (placeOf remote router store.manager) >>= fun locations =>
          .ok (.new .file .fileACK :: numberMessage filesize ::
            numberMessage (.ofNat ids.length) :: (locations ++ [.new .file .fileACK]), true) := by
  unfold describe at hfile
  obtain ⟨metaID, hmeta, hrun⟩ := bind_eq_ok_iff.mp hfile
  rw [handleGetFile, hmeta, ok_bind]
  split at hrun
  next hzero =>
    obtain rfl := Except.ok.inj hrun
    exact if_pos hzero
  next hne =>
    obtain ⟨block, hblock, hrun⟩ := bind_eq_ok_iff.mp hrun
    rw [if_neg hne, hblock, ok_bind]
    cases block with
    | none =>
        obtain rfl := Except.ok.inj hrun
        rfl
    | some block =>
        obtain ⟨filesize, hsize, hrun⟩ := bind_eq_ok_iff.mp hrun
        obtain ⟨ids, hids, hpure⟩ := bind_eq_ok_iff.mp hrun
        obtain rfl := Except.ok.inj hpure
        obtain ⟨nBlock, hnumber, hread⟩ := bind_eq_ok_iff.mp hids
        have hcount := (length_of_dataIDs hids).1
        rw [hnumber] at hcount
        obtain rfl := Except.ok.inj hcount
        dsimp only
        rw [hsize, ok_bind, hnumber, ok_bind, ← mapM_bind _ hread]
        congr 2
        funext number
        exact locationMessage_eq block number

theorem mapM_placeOf {ids : List BlockID}
    (hall : ∀ id ∈ ids, (locate remote router store.manager id).isSome) :
    ids.mapM (placeOf remote router store.manager) =
      .ok (places (locate remote router store.manager) ids) := by
  rw [places_of_forall hall]
  apply mapM_of_forall
  intro id hid
  obtain ⟨ip, hip⟩ := Option.isSome_iff_exists.mp (hall id hid)
  rw [placeOf, hip]
  rfl

/-- The handler ends only if all blocks of the file are found. -/
theorem complete_of_handleGetFile (hfile : describe remote store path = .ok file)
    {reply : List Message × Bool}
    (hrun : handleGetFile remote router store path = .ok reply) :
    Complete (locate remote router store.manager) file := by
  rintro filesize ids rfl id hid
  rw [handleGetFile_of_describe hfile] at hrun
  obtain ⟨locations, hlocations, -⟩ := bind_eq_ok_iff.mp hrun
  obtain ⟨msg, -, hmsg⟩ := mapM_ok_of_mem hlocations hid
  unfold placeOf at hmsg
  split at hmsg
  next => exact absurd hmsg (by simp)
  next ip hip => exact Option.isSome_iff_exists.mpr ⟨ip, hip⟩

/-- The handler ends with the replies of the protocol, of which the client waits for
all but the last acknowledgement, exactly if all blocks of the file are found. -/
theorem handleGetFile_iff (router : Router) (hfile : describe remote store path = .ok file) :
    ((∃ success, handleGetFile remote router store path =
        .ok (replies (locate remote router store.manager) file, success)) ∧
      Client.Consumes (awaited (locate remote router store.manager) file)
        (learned (locate remote router store.manager) file)) ↔
    Complete (locate remote router store.manager) file := by
  constructor
  · rintro ⟨⟨success, hrun⟩, -⟩
    exact complete_of_handleGetFile hfile hrun
  · intro hcomplete
    refine ⟨?_, consumes_awaited ?_⟩
    · rw [handleGetFile_of_describe hfile]
      cases file with
      | none => exact ⟨false, rfl⟩
      | some file =>
          obtain ⟨filesize, ids⟩ := file
          have hall := hcomplete filesize ids rfl
          refine ⟨true, ?_⟩
          dsimp only
          rw [mapM_placeOf hall, ok_bind, replies, if_pos (List.all_eq_true.mpr hall)]
          rfl
    · rintro filesize ids rfl
      exact length_lt_of_describe hfile

end Handler

/-! ## A file with one data block -/

/-- The machine that has stored the meta block of `/f`, which lists one data block. -/
theorem exists_oneBlock (dataID : BlockID) : ∃ store,
    (treeSystem List.length).Run [.addFile (ascii "/f") (buildBlockID 1 1)] store.tree ∧
    store.manager.machineID = 1 ∧
    (dataID ≠ buildBlockID 1 1 → store.manager.localIDs dataID = none) ∧
    ∀ remote, describe remote store (ascii "/f") = .ok (some (5, [dataID])) := by
  have hne : buildBlockID 1 1 ≠ 0 := by decide
  have hnext : (BlockManager.new 1 (by decide)).nextID = buildBlockID 1 1 := rfl
  obtain ⟨empty, -, -, hempty⟩ := @FileUploader.setupMeta_new (ascii "/f") (by decide) 0 5
  obtain ⟨block, -, -, hdescribes⟩ := hempty.addDataID dataID (by decide)
  obtain ⟨manager, -, hmachine, -, hlocal, hfiles⟩ :=
    (BlockManager.new 1 (by decide)).saveBlock_new true block.data
  obtain ⟨loaded, hdata, -, -, hloaded⟩ := hdescribes.laid.ofData (by decide) (buildBlockID 1 1)
  have hlisted : manager.localIDs (buildBlockID 1 1) = some [1] := by
    rw [hlocal, hnext, if_pos ⟨rfl, rfl⟩]
    rfl
  have hfile : manager.files (buildBlockID 1 1) = some block.data := by
    rw [hfiles, hnext, if_pos ⟨rfl, rfl⟩]
  refine ⟨⟨manager, oneFile (buildBlockID 1 1)⟩, run_oneFile _, hmachine, ?_, ?_⟩
  · intro hother
    rw [hlocal, hnext, if_neg (fun h => hother h.2)]
    rfl
  · intro remote
    have hmeta := BlockManager.getMeta_of_listed remote hlisted hfile hdescribes.laid.length hdata
    rw [describe, (hasFile_oneFile hne).getMetaID_eq, ok_bind, if_neg hne, hmeta, ok_bind]
    dsimp only
    rw [hloaded.getFileSize_eq, ok_bind, hloaded.usable.dataIDs_eq, ok_bind]
    rfl

/-- A client is told that the data block is on machine 2. -/
theorem handleGetFile_iff_example : ∃ store, ∃ remote : Remote,
    describe remote store (ascii "/f") = .ok (some (5, [7])) ∧
    ∃ success, handleGetFile remote ⟨ascii "10.0.0.1", fun _ => some (ascii "10.0.0.2")⟩ store
        (ascii "/f") =
      .ok ([.new .file .fileACK, numberMessage 5, numberMessage 1,
        placeMessage 7 (ascii "10.0.0.2"), .new .file .fileACK], success) := by
  obtain ⟨store, -, hmachine, hlocal, hfile⟩ := exists_oneBlock 7
  let remote : Remote := ⟨fun _ => some 2, fun _ _ => none⟩
  let router : Router := ⟨ascii "10.0.0.1", fun _ => some (ascii "10.0.0.2")⟩
  have hfound : locate remote router store.manager 7 = some (ascii "10.0.0.2") := by
    rw [locate, BlockManager.askBlock, hlocal (by decide), hmachine]
    rfl
  have hall : ∀ id ∈ [7], (locate remote router store.manager id).isSome := by
    intro id hid
    rw [List.mem_singleton.mp hid, hfound]
    rfl
  have hcomplete : Complete (locate remote router store.manager) (some (5, [7])) := by
    rintro filesize ids heq
    obtain ⟨-, rfl⟩ := Prod.mk.inj (Option.some.inj heq)
    exact hall
  obtain ⟨⟨success, hreply⟩, -⟩ := (handleGetFile_iff router (hfile remote)).mpr hcomplete
  refine ⟨store, remote, hfile remote, success, ?_⟩
  rw [hreply, replies, if_pos (List.all_eq_true.mpr hall), awaited, places, hfound]
  rfl

/-- The data block of a file that is stored is nowhere. -/
theorem not_forall_handleGetFile : ¬ ∀ (remote : Remote) (router : Router) (store : Store)
    (path : Bytes) (file : Option (UInt64 × List BlockID)) (ops : List TreeOp),
    (treeSystem List.length).Run ops store.tree → describe remote store path = .ok file →
      (∃ success, handleGetFile remote router store path =
        .ok (replies (locate remote router store.manager) file, success)) ∧
      Client.Consumes (awaited (locate remote router store.manager) file)
        (learned (locate remote router store.manager) file) := by
  intro hall
  obtain ⟨store, hrun, -, hlocal, hfile⟩ := exists_oneBlock 7
  obtain ⟨⟨success, hreply⟩, -⟩ := hall silent ⟨ascii "10.0.0.1", fun _ => none⟩ store (ascii "/f")
    _ _ hrun (hfile silent)
  have hfound := complete_of_handleGetFile (hfile silent) hreply 5 [7] rfl 7 List.mem_cons_self
  rw [locate, BlockManager.askBlock, hlocal (by decide)] at hfound
  exact absurd hfound (by simp [silent])

end FileManager

end Doopey
