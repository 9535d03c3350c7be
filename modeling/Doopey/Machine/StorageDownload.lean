import Doopey.Block.SparedBlocks
import Doopey.Machine.LocatedDownload
import Doopey.Machine.StorageProgress

/-!
# Downloading from a cluster

Whoever asks any machine for a path that its tree has gets a file that was uploaded under this
path, as it was uploaded. While `handleGetFile` looks for the blocks, and while the client
fetches them, the cluster goes on.
-/

namespace Doopey

open Foundation FileUploader Client

/-- Whatever a machine has of a block is as it was first saved, and the machines that are listed
for a block that is kept have it. -/
structure BlockNet.Reliable (kept : BlockID → Prop) (net : BlockNet) : Prop where
  file {n : MachineID} {id : BlockID} {data : Bytes} : (net.nodes n).files id = some data →
    net.first id = some data
  length {id : BlockID} {data : Bytes} : net.first id = some data → data.length = blockSize
  filed {n : MachineID} {id : BlockID} : (net.nodes n).localIDs[id]? ≠ none →
    (net.nodes n).files id ≠ none
  entry {n m : MachineID} {id : BlockID} {attr : Nat} : kept id → (net.nodes n).Refers id attr →
    m ∈ ((net.nodes n).attrs attr).machine → net.Stores id m

theorem BlockNet.Lasts.reliable {blockReplica : UInt64} {net : BlockNet}
    (h : net.Lasts blockReplica) : net.Reliable fun _ => True where
  file hfile := (h.truthful.node _).file hfile
  length hfirst := h.truthful.length hfirst
  filed hlisted := h.filed hlisted
  entry _ hrefers hmem := (h.truthful.sound.node _).entry hrefers |>.2.2.may_of_mem hmem

theorem BlockNet.Spares.reliable {blockReplica : UInt64} {doomed kept : BlockID → Prop}
    {net : BlockNet} (h : net.Spares blockReplica doomed) (hkept : ∀ id, kept id → ¬ doomed id) :
    net.Reliable kept where
  file hfile := h.file hfile
  length hfirst := h.length hfirst
  filed hlisted := (h.held _ _).mpr hlisted
  entry hid hrefers hmem := ((h.sound.node _).entry hrefers |>.2.2.may_of_mem hmem).resolve_left
    (hkept _ hid)

namespace StorageNet

section Answers

variable {State Label : Type*} (sys : System State Label) (storage : State → StorageNet)

/-- What a machine learns from the others while the system goes from `s` to `s'`: the block
is on a machine that it lists for it at some time, and what a machine sends is what it has at
some time. -/
structure Answers (s s' : State) (n : MachineID) (remote : Remote) : Prop where
  askBlock {id : BlockID} {m : MachineID} : remote.askBlock id = some m →
    ∃ middle attr, sys.Leads s middle ∧ sys.Leads middle s' ∧
      ((storage middle).net.nodes n).Refers id attr ∧
        m ∈ (((storage middle).net.nodes n).attrs attr).machine
  getData {m : MachineID} {id : BlockID} {data : Bytes} : remote.getData m id = some data →
    ∃ middle content, sys.Leads s middle ∧ sys.Leads middle s' ∧
      ((storage middle).net.nodes m).files id = some content ∧ data = BlockManager.loadFile content

/-- Every machine that has a block answers at the address that machine `n` has of it. -/
def Serves (s : State) (n : MachineID) (router : Router)
    (serves : Bytes → Option BlockManager) : Prop :=
  ∀ m, (∃ id, (storage s).net.Stores id m) → ∃ later manager, sys.Leads s later ∧
    ((storage later).net.nodes m).Shows m manager ∧
      serves (router.askMachineIP n m) = some manager

/-- The system keeps some blocks, as long as `inv` holds. -/
structure Preserves (kept : BlockID → Prop) (inv : State → Prop) : Prop where
  reliable {s : State} : inv s → (storage s).net.Reliable kept
  leads {s s' : State} : inv s → sys.Leads s s' →
    inv s' ∧ (storage s).net.KeepsOn kept (storage s').net

end Answers

/-- The block is found and loaded. -/
def Found (manager : BlockManager) (remote : Remote) (id : BlockID) : Prop :=
  ∃ m data, manager.askBlock remote id = some m ∧ manager.getData remote id m = some data

/-- Every block that is stored somewhere is found and loaded. -/
def Finds (s : StorageNet) (manager : BlockManager) (remote : Remote) : Prop :=
  ∀ id, (∃ m, s.net.Stores id m) → Found manager remote id

section Download

variable {State Label : Type*} {sys : System State Label} {storage : State → StorageNet}
  {kept : BlockID → Prop} {inv : State → Prop} {s s' : State} {n m : MachineID} {store : Store}
  {remote : Remote} {router : Router} {id : BlockID}

/-- The machine that is asked for a block has it. -/
theorem Answers.stores (hanswers : Answers sys storage s s' n remote)
    (hsys : Preserves sys storage kept inv) (h : inv s) (hleads : sys.Leads s s')
    (hstore : (storage s).Has n store) (hid : kept id)
    (hask : store.manager.askBlock remote id = some m) : (storage s').net.Stores id m := by
  unfold BlockManager.askBlock at hask
  split at hask
  next machines hlisted =>
    obtain rfl := Option.some.inj hask
    rw [hstore.manager.localIDs] at hlisted
    obtain ⟨attr, hattr, -⟩ := Option.map_eq_some_iff.mp hlisted
    have hlocal : ((storage s).net.nodes n).localIDs[id]? ≠ none := by
      rw [hattr]
      exact Option.some_ne_none attr
    have hreliable := hsys.reliable h
    obtain ⟨data, hfile⟩ := Option.ne_none_iff_exists'.mp (hreliable.filed hlocal)
    rw [hstore.manager.machineID]
    exact (hsys.leads h hleads).2.stores hid ⟨data, hreliable.file hfile, hfile⟩
  next =>
    obtain ⟨middle, attr, hbefore, hafter, hrefers, hmem⟩ := hanswers.askBlock hask
    obtain ⟨hmiddle, -⟩ := hsys.leads h hbefore
    exact (hsys.leads hmiddle hafter).2.stores hid
      ((hsys.reliable hmiddle).entry hid hrefers hmem)

/-- What is loaded of a block is what was first saved of it. -/
theorem Answers.getData_eq (hanswers : Answers sys storage s s' n remote)
    (hsys : Preserves sys storage kept inv) (h : inv s) (hleads : sys.Leads s s')
    (hstore : (storage s).Has n store) {data content : Bytes}
    (hfirst : (storage s').net.first id = some content)
    (hget : store.manager.getData remote id m = some data) : data = content := by
  -- the bytes are those of some machine at some time
  obtain ⟨middle, k, file, hmiddle, hafter, hfile, rfl⟩ : ∃ middle k file, inv middle ∧
      sys.Leads middle s' ∧ ((storage middle).net.nodes k).files id = some file ∧
        data = BlockManager.loadFile file := by
    unfold BlockManager.getData at hget
    split at hget
    · obtain ⟨file, hfile, rfl⟩ := Option.map_eq_some_iff.mp hget
      rw [hstore.manager.files] at hfile
      exact ⟨s, n, file, h, hleads, hfile, rfl⟩
    · obtain ⟨middle, file, hbefore, hafter, hfile, rfl⟩ := hanswers.getData hget
      exact ⟨middle, m, file, (hsys.leads h hbefore).1, hafter, hfile, rfl⟩
  have hreliable := hsys.reliable hmiddle
  have hsaved := hreliable.file hfile
  rw [BlockManager.loadFile_eq (hreliable.length hsaved)]
  exact Option.some.inj (((hsys.leads hmiddle hafter).2.first hsaved).symm.trans hfirst)

/-- The handler comes to the size of the file and the IDs of its pieces, or finds no meta
block. -/
theorem Answers.describe_eq (hanswers : Answers sys storage s s' n remote)
    (hsys : Preserves sys storage kept inv) (h : inv s) (hleads : sys.Leads s s')
    (hstore : (storage s).Has n store) {file : PutFile} {ids : List BlockID}
    (harchives : Archived (storage s').net.FirstIs file id ids)
    (hname : file.path ≠ []) {path : Bytes} (hmeta : store.tree.getMetaID path = .ok id)
    (hid : id ≠ 0) :
    Found store.manager remote id ∧ FileManager.describe remote store path =
        .ok (some (.ofNat file.content.length, ids)) ∨
    ¬ Found store.manager remote id ∧ FileManager.describe remote store path = .ok none := by
  obtain ⟨⟨content, hlaid, hfirst⟩, -⟩ := harchives
  unfold FileManager.describe BlockManager.getMeta Found
  rw [hmeta, ok_bind, if_neg hid]
  cases hask : store.manager.askBlock remote id with
  | none => exact Or.inr ⟨by simp, rfl⟩
  | some m =>
      dsimp only
      cases hget : store.manager.getData remote id m with
      | none => exact Or.inr ⟨by simp [hget], rfl⟩
      | some data =>
          obtain rfl := hanswers.getData_eq hsys h hleads hstore hfirst hget
          obtain ⟨block, hblock, -, -, hdescribes⟩ := hlaid.ofData hname id
          refine Or.inl ⟨⟨m, data, rfl, hget⟩, ?_⟩
          dsimp only
          rw [hblock, ok_bind, ok_bind]
          dsimp only
          rw [hdescribes.getFileSize_eq, ok_bind, hdescribes.usable.dataIDs_eq, ok_bind]

/-- The machine whose address the client is given for a piece has it. -/
theorem Answers.located (hanswers : Answers sys storage s s' n remote)
    (hsys : Preserves sys storage kept inv) (h : inv s) (hleads : sys.Leads s s')
    (hstore : (storage s).Has n store) {serves : Bytes → Option BlockManager}
    (hserves : Serves sys storage s' n router serves) (hid : kept id) {piece : Bytes}
    (hfirst : (storage s').net.first id = some (newData piece))
    (hfound : (FileManager.locate remote router store.manager id).isSome) :
    Located (FileManager.locate remote router store.manager) serves id piece := by
  obtain ⟨ip, hplace⟩ := Option.isSome_iff_exists.mp hfound
  obtain ⟨m, hask, rfl⟩ := Option.map_eq_some_iff.mp hplace
  have hstored := hanswers.stores hsys h hleads hstore hid hask
  obtain ⟨later, manager, hlater, hshows, hip⟩ := hserves m ⟨id, hstored⟩
  obtain ⟨h', -⟩ := hsys.leads h hleads
  obtain ⟨data, hsaved, hfile⟩ := hstored
  obtain rfl := Option.some.inj (hsaved.symm.trans hfirst)
  rw [hstore.manager.machineID] at hplace
  refine ⟨_, manager, hplace, hip, ?_⟩
  rw [hshows.files]
  exact (hsys.leads h' hlater).2.files hid hfile

/-- What is got of a file whose blocks the system keeps. -/
theorem Preserves.download (hsys : Preserves sys storage kept inv) (h : inv s)
    (hleads : sys.Leads s s') (hstore : (storage s).Has n store) {file : PutFile}
    {ids : List BlockID}
    (harchives : Archived (storage s).net.FirstIs file id ids)
    (hkept : ∀ other ∈ ids, kept other) (hfits : file.Fits) (hname : file.path ≠ [])
    (hmeta : store.tree.getMetaID file.path = .ok id) (hid : id ≠ 0)
    (hanswers : Answers sys storage s s' n remote) {serves : Bytes → Option BlockManager}
    (hserves : Serves sys storage s' n router serves) :
    (∀ replies, FileManager.handleGetFile remote router store file.path = .ok (replies, true) →
      Downloads replies serves ids file.content) ∧
    ((∀ other ∈ id :: ids, Found store.manager remote other) →
      ∃ replies, FileManager.handleGetFile remote router store file.path = .ok (replies, true)) := by
  obtain ⟨-, hkeeps⟩ := hsys.leads h hleads
  have harchives' := harchives.mono fun _ _ hfirst => hkeeps.first hfirst
  have hdescribe := hanswers.describe_eq hsys h hleads hstore harchives' hname hmeta hid
  have hcount : (piecesOf file.content).length < 2 ^ 32 := by
    rw [PutFile.Fits, blockSize] at hfits
    omega
  refine ⟨fun replies hreply => ?_, fun hfinds => ?_⟩
  · rcases hdescribe with ⟨-, hdescribe⟩ | ⟨-, hdescribe⟩
    · have hcomplete := FileManager.complete_of_handleGetFile hdescribe hreply _ _ rfl
      rw [FileManager.handleGetFile_of_describe hdescribe] at hreply
      dsimp only at hreply
      rw [FileManager.mapM_placeOf hcomplete, ok_bind] at hreply
      obtain ⟨rfl, -⟩ := Prod.mk.inj (Except.ok.inj hreply)
      apply downloads_of_located hcount
      have hfound := (List.forall₂_and_left _ _).mpr
        ⟨fun other hother => And.intro (hcomplete other hother) (hkept other hother), harchives'.2⟩
      exact hfound.imp fun other piece hpiece =>
        hanswers.located hsys h hleads hstore hserves hpiece.1.2 hpiece.2 hpiece.1.1
    · rw [FileManager.handleGetFile_of_describe hdescribe] at hreply
      cases hreply
  · rcases hdescribe with ⟨-, hdescribe⟩ | ⟨hnot, -⟩
    · rw [FileManager.handleGetFile_of_describe hdescribe]
      dsimp only
      rw [FileManager.mapM_placeOf, ok_bind]
      · exact ⟨_, rfl⟩
      · intro other hother
        obtain ⟨m', data, hask, -⟩ := hfinds other (List.mem_cons_of_mem id hother)
        rw [FileManager.locate, hask]
        rfl
    · exact absurd (hfinds id List.mem_cons_self) hnot

/-- What is got from a system that keeps all blocks. -/
theorem Intact.download {blockReplica : UInt64} (hintact : (storage s).Intact blockReplica)
    (hsys : Preserves sys storage (fun _ => True) inv) (h : inv s)
    (hleads : sys.Leads s s') (hstore : (storage s).Has n store) {path : Bytes}
    (hmeta : store.tree.getMetaID path = .ok id) (hid : id ≠ 0)
    (hanswers : Answers sys storage s s' n remote) {serves : Bytes → Option BlockManager}
    (hserves : Serves sys storage s' n router serves) :
    ∃ file ids, (id, file) ∈ (storage s).completed ∧ file.path = path ∧
      (∀ replies, FileManager.handleGetFile remote router store path = .ok (replies, true) →
        Downloads replies serves ids file.content) ∧
      ((storage s).Finds store.manager remote →
        ∃ replies, FileManager.handleGetFile remote router store path = .ok (replies, true)) := by
  obtain ⟨file, hmem, rfl⟩ := (hintact.tree n).exists_file (hstore.tree ▸ hmeta) hid
  obtain ⟨-, hfits, hname, ids, harchives⟩ := hintact.completed hmem
  have hfirst (id : BlockID) (data : Bytes) (hprovides : (storage s).net.Provides id data) :
      (storage s).net.first id = some data := by
    obtain ⟨m, hfile⟩ := hprovides
    exact (hsys.reliable h).file hfile
  obtain ⟨hdownloads, hreplies⟩ := hsys.download h hleads hstore (harchives.mono hfirst)
    (fun _ _ => trivial) hfits hname hmeta hid hanswers hserves
  refine ⟨file, ids, hmem, rfl, hdownloads, fun hfinds => hreplies fun other hother => ?_⟩
  have hprovides : ∃ data, (storage s).net.Provides other data := by
    rcases List.mem_cons.mp hother with rfl | hother
    · obtain ⟨⟨data, -, hprovides⟩, -⟩ := harchives
      exact ⟨data, hprovides⟩
    · obtain ⟨piece, -, hprovides⟩ := exists_of_mem_left harchives.2 hother
      exact ⟨_, hprovides⟩
  obtain ⟨data, hprovides⟩ := hprovides
  obtain ⟨m, hfile⟩ := hprovides
  exact hfinds other ⟨m, data, hfirst _ _ ⟨m, hfile⟩, hfile⟩

end Download

/-- Without deletions, a cluster keeps what was uploaded. -/
theorem preserves_storageSystem {blockReplica : UInt64} (hreplica : 1 ≤ blockReplica)
    (keyHash : Bytes → Nat) :
    Preserves ((storageSystem blockReplica keyHash).restrict Enduring) id (fun _ => True)
      (Intact blockReplica) where
  reliable h := h.blocks.reliable
  leads h hleads := by
    obtain ⟨events, hsteps⟩ := hleads
    obtain ⟨h', hgrows⟩ := h.steps hreplica hsteps
    exact ⟨h', hgrows.blocks.on⟩

/-- What a client gets for a path that the tree of some machine has is one of the files that
were uploaded under it, as it was uploaded. It gets it if all blocks are found. -/
theorem download_of_run {blockReplica : UInt64} (hreplica : 1 ≤ blockReplica)
    {keyHash : Bytes → Nat} {events rest : List StorageEvent} {s s' : StorageNet}
    (hrun : ((storageSystem blockReplica keyHash).restrict Enduring).Run events s)
    (hrest : ((storageSystem blockReplica keyHash).restrict Enduring).Steps s rest s')
    {n : MachineID} {store : Store} (hstore : s.Has n store) {path : Bytes} {metaID : BlockID}
    (hmeta : store.tree.getMetaID path = .ok metaID) (hid : metaID ≠ 0) {remote : Remote}
    (hanswers : Answers ((storageSystem blockReplica keyHash).restrict Enduring) id s s' n remote)
    {router : Router} {serves : Bytes → Option BlockManager}
    (hserves : Serves ((storageSystem blockReplica keyHash).restrict Enduring) id s' n router
      serves) :
    ∃ file ids, (metaID, file) ∈ s.completed ∧ file.path = path ∧
      (∀ replies, FileManager.handleGetFile remote router store path = .ok (replies, true) →
        Downloads replies serves ids file.content) ∧
      (s.Finds store.manager remote →
        ∃ replies, FileManager.handleGetFile remote router store path = .ok (replies, true)) := by
  have h := (invariant_intact hreplica keyHash).run hrun
  exact h.download (preserves_storageSystem hreplica keyHash) h ⟨rest, hrest⟩ hstore hmeta hid
    hanswers hserves

/-- A machine that has all blocks there are needs nobody to find and serve them. -/
theorem exists_alone {State Label : Type*} (sys : System State Label)
    (storage : State → StorageNet) {blockReplica : UInt64} {s : State}
    (h : (storage s).net.Lasts blockReplica)
    (hothers : ∀ m, m ≠ 1 → (storage s).net.nodes m = .empty) :
    ∃ manager router, ((storage s).net.nodes 1).Shows 1 manager ∧
      (storage s).Finds manager FileManager.silent ∧ Answers sys storage s s 1 FileManager.silent ∧
      Serves sys storage s 1 router fun _ => some manager := by
  obtain ⟨manager, hshows⟩ := h.exists_shows (by decide : (1 : MachineID) ≠ 0)
  have hone {m : MachineID} {id : BlockID} (hstored : (storage s).net.Stores id m) : m = 1 := by
    by_contra hm
    obtain ⟨data, -, hfile⟩ := hstored
    rw [hothers m hm] at hfile
    cases hfile
  refine ⟨manager, ⟨ascii "10.0.0.1", fun _ => none⟩, hshows, ?_, ⟨fun hask => ?_, fun hget => ?_⟩, ?_⟩
  · rintro id ⟨m, hstored⟩
    obtain rfl := hone hstored
    obtain ⟨attr, hattr⟩ := Option.ne_none_iff_exists'.mp (h.truthful.local_of_stores hstored)
    obtain ⟨data, -, hfile⟩ := hstored
    refine ⟨1, BlockManager.loadFile data, ?_, ?_⟩
    · rw [BlockManager.askBlock, hshows.localIDs, hattr, Option.map_some]
      exact congrArg some hshows.machineID
    · rw [BlockManager.getData, if_pos hshows.machineID.symm, hshows.files, hfile,
        Option.map_some]
  · cases hask
  · cases hget
  · rintro m ⟨id, hstored⟩
    rw [hone hstored]
    exact ⟨s, manager, ⟨[], .nil s⟩, hshows, rfl⟩

/-- A cluster whose machine 1 has taken a file, and no other machine anything. -/
theorem exists_uploaded : ∃ count s id, ((storageSystem 2 List.length).restrict Enduring).Run
      (.put 1 smallFile :: List.replicate count (.receive 1 0 true)) s ∧ id ≠ 0 ∧
    (s.trees 1).getMetaID smallFile.path = .ok id ∧
    s.completed = [(id, smallFile)] ∧ (∀ m, m ≠ 1 → s.net.nodes m = .empty) ∧
    (FileTree.new List.length).addFile smallFile.path id = .ok (s.trees 1, true) ∧
    (s.net.nodes 1).localMax.toNat ≤ 10 := by
  obtain ⟨start, hrun, ⟨metaBlock, hfound⟩, hnet, hcompleted, hnew, hmay, hroom⟩ := exists_started
  have h := (invariant_intact (by decide) List.length).run hrun
  obtain ⟨count, s, hsteps, hfinishes, henters⟩ :=
    h.exists_finishes (by decide) List.length hfound (Nat.lt_of_le_of_lt hroom (by decide))
  obtain ⟨id, hid, hentered, hget⟩ := hfinishes.entered hmay
  obtain ⟨id', hentered', hadd⟩ := henters.added hmay
  obtain ⟨rfl, -⟩ := Prod.mk.inj (List.cons.inj (hentered.symm.trans hentered')).1
  obtain ⟨first, hfirst, hput⟩ := hrun
  refine ⟨count, s, id, ⟨first, hfirst, hput.append hsteps⟩, hid, hget, ?_, fun m hm => ?_, ?_,
    Nat.le_trans henters.localMax hroom⟩
  · rw [hentered, hcompleted]
  · rw [(hfinishes.others hm).1, hnet]
    rfl
  · rw [← hnew]
    exact hadd

/-- The file comes back from machine 1, which asks nobody. -/
theorem download_of_run_example : ∃ store router serves replies ids,
    FileManager.handleGetFile FileManager.silent router store smallFile.path = .ok (replies, true) ∧
      Downloads replies serves ids [1, 2, 3] := by
  obtain ⟨count, s, metaID, hrun, hid, hget, hcompleted, hothers, -⟩ := exists_uploaded
  have h := (invariant_intact (by decide) List.length).run hrun
  obtain ⟨manager, router, hshows, hfinds, hanswers, hserves⟩ := exists_alone
    ((storageSystem 2 List.length).restrict Enduring) id h.blocks hothers
  have hhas : s.Has 1 ⟨manager, s.trees 1⟩ := ⟨hshows, rfl⟩
  obtain ⟨file, ids, hfile, -, hdownloads, hreplies⟩ :=
    download_of_run (by decide) hrun (.nil s) hhas hget hid hanswers hserves
  rw [hcompleted] at hfile
  obtain rfl := (Prod.mk.inj (List.mem_singleton.mp hfile)).2
  obtain ⟨replies, hreply⟩ := hreplies hfinds
  exact ⟨_, _, _, replies, ids, hreply, hdownloads replies hreply⟩

end StorageNet

end Doopey
