import Doopey.Machine.FileBlocks
import Doopey.Machine.RemovalNet

/-!
# What removals leave

A removal has the blocks of its file deleted and no others, however it interleaves with
uploads, copies and other removals. Every other file can still be downloaded as it was uploaded.
-/

namespace Doopey

open Foundation FileUploader Client

/-- The call removes something. -/
def TreeOp.Removes : TreeOp → Prop
  | removeFile _ | removeDir _ => True
  | addFile _ _ | addDir _ => False

/-- What is left of a tree was there before. -/
theorem FileTree.Within.remove {entry : Bytes → BlockID → Prop} {tree tree' : FileTree}
    (h : tree.Within entry) (op : TreeOp) (hremoves : op.Removes) (hunlinks : op.Unlinks tree)
    (fuel : Nat) {result : Bool} (hrun : op.run fuel tree = .ok (tree', result)) :
    tree'.Within entry := by
  obtain ⟨ns, addr, hrepr, hentries⟩ := h
  obtain ⟨ns', addr', hrepr', heffect⟩ := hrepr.of_run hunlinks hrun
  have hleft {path : Bytes} (hwithout : Without ns' ns path) {key : Bytes} {id : BlockID}
      (hfound : ns'.entry key = some id) : ns.entry key = some id := by
    rw [hwithout] at hfound
    split at hfound
    · cases hfound
    · exact hfound
  refine ⟨ns', addr', hrepr', fun key id hfound => hentries key id ?_⟩
  cases op with
  | addFile path id => cases hremoves
  | addDir path => cases hremoves
  | removeFile path =>
      rcases heffect with ⟨-, -, hwithout⟩ | ⟨-, -, rfl⟩
      · exact hleft hwithout hfound
      · exact hfound
  | removeDir path =>
      rcases heffect with ⟨-, -, hwithout⟩ | ⟨-, -, rfl⟩
      · exact hleft hwithout hfound
      · exact hfound

/-- A call of `removeFile` that came to an end leaves what was there before. -/
theorem FileTree.Within.removeFile {entry : Bytes → BlockID → Prop} {tree tree' : FileTree}
    (h : tree.Within entry) {path : Bytes} {result : Bool}
    (hrun : tree.removeFile path = .ok (tree', result)) : tree'.Within entry := by
  obtain ⟨ns, addr, hrepr, -⟩ := id h
  exact h.remove (.removeFile path) trivial (unlinks_of_removeFile hrepr.wf hrun) 0 hrun

/-- What a meta block is read from. -/
theorem BlockManager.exists_data_of_getMeta {remote : Remote} {manager : BlockManager}
    {id : BlockID} {block : MetaBlock} (hmeta : manager.getMeta remote id = .ok (some block)) :
    ∃ m data, manager.getData remote id m = some data ∧ MetaBlock.ofData data id = .ok block := by
  unfold BlockManager.getMeta at hmeta
  split at hmeta
  next => cases hmeta
  next m hask =>
    split at hmeta
    next => cases hmeta
    next data hget =>
      obtain ⟨loaded, hload, hmeta⟩ := bind_eq_ok_iff.mp hmeta
      obtain rfl := Option.some.inj (Except.ok.inj hmeta)
      exact ⟨m, data, hget, hload⟩

namespace StorageNet

/-- Only doomed blocks are deleted, and none after a client that has left, every block can be
saved, the counter of a machine that saves one has not come around, and every file fits into
one meta block. -/
def Sparing (doomed : BlockID → Prop) (s : StorageNet) : StorageEvent → Prop
  | .blocks event => s.net.Sparing doomed event
  | .put _ file => file.Fits
  | .receive n _ opens => opens = true ∧ (s.net.nodes n).localMax + 1 ≠ 0
  | .cleans _ _ => False
  | .leaves _ _ | .addDir _ _ | .hear _ _ => True

/-- What machines keep of their files while only doomed blocks are deleted. -/
structure Tended (blockReplica : UInt64) (doomed : BlockID → Prop) (s : StorageNet) : Prop extends
    s.Filed s.net.FirstIs where
  blocks : s.net.Spares blockReplica doomed
  sent {msg : Message} : msg ∈ s.sent → Announced s.completed msg ∨
    ∃ path, msg = FileManager.rmFileMessage path
  apart : Exclusive s.Holds

section Steps

variable {blockReplica : UInt64} {doomed doomed' : BlockID → Prop} {s s' : StorageNet}
  {event : StorageEvent}

theorem Tended.mono (h : s.Tended blockReplica doomed) (hdoomed : ∀ id, doomed id → doomed' id) :
    s.Tended blockReplica doomed' :=
  { h with blocks := h.blocks.mono hdoomed }

/-- No file is lost, and nobody gets a block that is somebody else's. -/
theorem Tended.step (h : s.Tended blockReplica doomed) (hreplica : 1 ≤ blockReplica)
    (hsparing : s.Sparing doomed event) (hstep : StorageStep blockReplica s event s') :
    s'.Tended blockReplica doomed ∧ s.net.KeepsOn (fun id => ¬ doomed id) s'.net ∧
      s.completed ⊆ s'.completed := by
  obtain ⟨hspares, hkeeps⟩ : s'.net.Spares blockReplica doomed ∧
      s.net.KeepsOn (fun id => ¬ doomed id) s'.net := by
    rcases net_of_step hstep with heq | ⟨event', hblocks, hmoves⟩
    · rw [heq]
      exact ⟨h.blocks, .refl _⟩
    · cases hmoves with
      | blocks => exact h.blocks.step hreplica hsparing hblocks
      | saves n k opens data =>
          have hcounter : s.net.Sparing doomed (.save n data opens) := hsparing.2
          exact h.blocks.step hreplica hcounter hblocks
      | deletes => exact hsparing.elim
  have hopens (n : MachineID) (k : Nat) (opens : Bool) (heq : event = .receive n k opens) :
      opens = true := by
    rw [heq] at hsparing
    exact hsparing.1
  have hfiles (n : MachineID) (id : BlockID) (data : Bytes)
      (hfile : (s'.net.nodes n).files id = some data) : s'.net.FirstIs id data := hspares.file hfile
  obtain ⟨hfiled, hcompleted, hsent⟩ := h.toFiled.step hstep (fun _ _ hfirst => hkeeps.first hfirst)
    hfiles (fun n file heq => by rw [heq] at hsparing; exact hsparing) hopens
    (fun n msg fuel tree success _ hmsg hhear => by
      rcases h.sent hmsg with hnew | ⟨path, rfl⟩
      · exact h.toFiled.hear hnew hhear
      · rw [handleBroadcast_rmFile] at hhear
        exact (h.tree n).removeFile hhear)
  refine ⟨⟨hfiled, hspares, fun hmsg => ?_, ?_⟩, hkeeps, hcompleted⟩
  · rcases hsent _ hmsg with hold | hnew
    · exact (h.sent hold).imp_left fun hannounced => hannounced.mono hcompleted
    · exact Or.inl hnew
  · refine h.toFiled.exclusive_of_step h.apart hstep hkeeps hfiles hopens fun n k heq => ?_
    rw [heq] at hsparing
    exact h.blocks.fresh n _ (BlockNet.localMax_lt_add_one hsparing.2)

/-- A machine goes over to another tree. -/
theorem Tended.replant (h : s.Tended blockReplica doomed) {n : MachineID} {tree : FileTree}
    (htree : tree.From s.completed) :
    (s.serve n s.net tree (s.sessions n)).Tended blockReplica doomed := by
  rw [serve, Function.update_eq_self]
  refine { h with tree := ?_ }
  apply (Function.forall_update_iff s.trees fun _ tree => tree.From s.completed).mpr
  exact ⟨htree, fun m _ => h.tree m⟩

theorem tended_empty (keyHash : Bytes → Nat) : (empty keyHash).Tended blockReplica doomed where
  toFiled := filed_empty keyHash _
  blocks := BlockNet.spares_empty
  sent hmem := absurd hmem List.not_mem_nil
  apart p q other hp _ := by
    cases p with
    | file id =>
        obtain ⟨⟨file, hmem⟩, -⟩ := hp
        cases hmem
    | upload n k =>
        obtain ⟨session, hfound, -⟩ := hp
        cases hfound

end Steps

end StorageNet

namespace RemovalNet

/-- The block belongs to a file that was to be removed. -/
def Doomed (s : RemovalNet) (other : BlockID) : Prop :=
  ∃ id ∈ s.removed, s.storage.net.OfFile id other

/-- The removal is of a file that was to be removed, and has yet to have blocks of it deleted. -/
def Due (s : RemovalNet) (removal : Removal) : Prop :=
  removal.metaID ∈ s.removed ∧
    ∀ ids, removal.left = some ids → ∀ other ∈ ids, s.storage.net.OfFile removal.metaID other

/-- Only what belongs to files that were to be removed is deleted. -/
structure Intact (blockReplica : UInt64) (s : RemovalNet) : Prop where
  storage : s.storage.Tended blockReplica s.Doomed
  removed {id : BlockID} : id ∈ s.removed → ∃ file, (id, file) ∈ s.storage.completed
  removal {n : MachineID} {removal : Removal} : removal ∈ s.removals n → s.Due removal

section Steps

variable {blockReplica : UInt64} {keyHash : Bytes → Nat} {s s' : RemovalNet} {n : MachineID}

/-- A file that was uploaded keeps its blocks. -/
theorem Intact.ofFile_iff (h : s.Intact blockReplica) {kept : BlockID → Prop} {net : BlockNet}
    (hkeeps : s.storage.net.KeepsOn kept net) {id : BlockID} {file : PutFile}
    (hmem : (id, file) ∈ s.storage.completed) (other : BlockID) :
    net.OfFile id other ↔ s.storage.net.OfFile id other := by
  obtain ⟨-, -, hname, ids, harchives⟩ := h.storage.completed hmem
  rw [BlockNet.OfFile, BlockNet.OfFile,
    hkeeps.listedIDs_eq (harchives.first_ne_none hname (Or.inl rfl))]

/-- The machines go on, with the same removals. -/
theorem Intact.runs (h : s.Intact blockReplica) {storage : StorageNet}
    (hstorage : storage.Tended blockReplica s.Doomed)
    (hkeeps : s.storage.net.KeepsOn (fun id => ¬ s.Doomed id) storage.net)
    (hcompleted : s.storage.completed ⊆ storage.completed) {removals : MachineID → List Removal}
    (hremovals : ∀ n, ∀ removal ∈ removals n, s.Due removal) :
    Intact blockReplica ⟨storage, removals, s.removed⟩ := by
  refine ⟨hstorage.mono ?_, fun hmem => ?_, fun {n removal} hmem => ?_⟩
  · rintro other ⟨id, hid, hof⟩
    obtain ⟨file, hfile⟩ := h.removed hid
    exact ⟨id, hid, (h.ofFile_iff hkeeps hfile other).mpr hof⟩
  · obtain ⟨file, hfile⟩ := h.removed hmem
    exact ⟨file, hcompleted hfile⟩
  · obtain ⟨hid, hleft⟩ := hremovals n removal hmem
    obtain ⟨file, hfile⟩ := h.removed hid
    exact ⟨hid, fun ids hids other hother =>
      (h.ofFile_iff hkeeps hfile other).mpr (hleft ids hids other hother)⟩

/-- The removals on one machine change. -/
theorem Intact.due_of_update (h : s.Intact blockReplica) {removals : List Removal}
    (hremovals : ∀ removal ∈ removals, s.Due removal) (m : MachineID) (removal : Removal)
    (hmem : removal ∈ Function.update s.removals n removals m) : s.Due removal := by
  by_cases hm : m = n
  · subst hm
    rw [Function.update_self] at hmem
    exact hremovals removal hmem
  · rw [Function.update_of_ne hm] at hmem
    exact h.removal hmem

/-- A block is loaded as it was saved. -/
theorem Intact.first_of_getData (h : s.Intact blockReplica) {store : Store} {remote : Remote}
    (hstore : s.storage.Has n store) (hremote : s.storage.Tells remote) {id : BlockID}
    {m : MachineID} {data : Bytes} (hget : store.manager.getData remote id m = some data) :
    s.storage.net.first id = some data := by
  obtain ⟨k, content, hfile, rfl⟩ : ∃ k content, (s.storage.net.nodes k).files id = some content ∧
      data = BlockManager.loadFile content := by
    unfold BlockManager.getData at hget
    split at hget
    · obtain ⟨content, hfile, rfl⟩ := Option.map_eq_some_iff.mp hget
      rw [hstore.manager.files] at hfile
      exact ⟨n, content, hfile, rfl⟩
    · exact ⟨m, hremote m id data hget⟩
  have hfirst := h.storage.blocks.file hfile
  rw [BlockManager.loadFile_eq (h.storage.blocks.length hfirst)]
  exact hfirst

/-- Only blocks of the file are deleted with its meta block. -/
theorem Intact.ofFile_of_cleaned (h : s.Intact blockReplica) {store : Store} {remote : Remote}
    (hstore : s.storage.Has n store) (hremote : s.storage.Tells remote) {id other : BlockID}
    (hmem : other ∈ FileManager.cleaned remote store.manager id) : s.storage.net.OfFile id other := by
  unfold FileManager.cleaned at hmem
  cases hlisted : FileManager.listed remote store.manager id with
  | none =>
      rw [hlisted] at hmem
      cases hmem
  | some ids =>
      obtain ⟨block, hmeta, hids⟩ := FileManager.listed_eq_some_iff.mp hlisted
      obtain ⟨m, data, hget, hblock⟩ := BlockManager.exists_data_of_getMeta hmeta
      have hfirst := h.first_of_getData hstore hremote hget
      have hlist : s.storage.net.listedIDs id = ids := by
        rw [BlockNet.listedIDs, hfirst]
        dsimp only
        rw [hblock, ok_bind, hids]
        rfl
      rw [hlisted, Option.elim_some] at hmem
      split at hmem
      · cases hmem
      · rcases List.mem_append.mp hmem with hother | hother
        · rw [← hlist] at hother
          exact Or.inr hother
        · exact Or.inl (List.mem_singleton.mp hother)

/-- Every step keeps the files that nobody removes. -/
theorem Intact.step (h : s.Intact blockReplica) (hreplica : 1 ≤ blockReplica) {event : RemovalEvent}
    (henduring : s.Enduring event) (hstep : RemovalStep blockReplica s event s') :
    s'.Intact blockReplica ∧ s.storage.net.KeepsOn (fun id => ¬ s.Doomed id) s'.storage.net ∧
      s.storage.completed ⊆ s'.storage.completed := by
  have hsubset := List.Subset.refl s.storage.completed
  cases hstep with
  | runs event storage hstep =>
      have hsparing : s.storage.Sparing s.Doomed event := by
        cases event with
        | blocks event =>
            cases event with
            | delete n id => exact henduring.1.elim
            | save n data opens => exact henduring.1
            | _ => exact henduring.2
        | _ => exact henduring
      obtain ⟨hstorage, hkeeps, hcompleted⟩ := h.storage.step hreplica hsparing hstep
      exact ⟨h.runs hstorage hkeeps hcompleted fun _ _ => h.removal, hkeeps, hcompleted⟩
  | removeFile n path id tree result hmeta hid hremove =>
      obtain ⟨file, hfile, -⟩ := (h.storage.tree n).exists_file hmeta hid
      have htree := (h.storage.tree n).removeFile hremove
      have hnew : ({ s with removed := id :: s.removed } : RemovalNet).Intact blockReplica := by
        refine ⟨h.storage.mono ?_, fun hmem => ?_, fun {m removal} hmem => ?_⟩
        · rintro other ⟨id', hid', hof⟩
          exact ⟨id', List.mem_cons_of_mem id hid', hof⟩
        · rcases List.mem_cons.mp hmem with rfl | hmem
          · exact ⟨file, hfile⟩
          · exact h.removed hmem
        · obtain ⟨hremoved, hleft⟩ := h.removal hmem
          exact ⟨List.mem_cons_of_mem id hremoved, hleft⟩
      refine ⟨hnew.runs (hnew.storage.replant htree) (.refl _) hsubset
        (hnew.due_of_update fun removal hmem => ?_), .refl _, hsubset⟩
      rcases List.mem_cons.mp hmem with rfl | hold
      · refine ⟨List.mem_cons_self, fun ids hids => ?_⟩
        cases hids
      · exact hnew.removal hold
  | loads n k removal store remote ids hfound hstarts hstore hremote hlisted =>
      refine ⟨h.runs h.storage (.refl _) hsubset (h.due_of_update fun other hmem => ?_), .refl _,
        hsubset⟩
      rcases List.mem_or_eq_of_mem_set hmem with hold | rfl
      · exact h.removal hold
      · refine ⟨(h.removal (List.mem_of_getElem? hfound)).1, fun ids' hids other hother => ?_⟩
        obtain rfl := Option.some.inj hids
        exact h.ofFile_of_cleaned hstore hremote hother
  | deletes n k removal id rest net hfound hleft hstep =>
      obtain ⟨hremoved, hof⟩ := h.removal (List.mem_of_getElem? hfound)
      have hdoomed : s.storage.Sparing s.Doomed (.blocks (.delete n id)) :=
        ⟨removal.metaID, hremoved, hof _ hleft id List.mem_cons_self⟩
      obtain ⟨hstorage, hkeeps, hcompleted⟩ :=
        h.storage.step hreplica hdoomed (.blocks (.delete n id) net hstep)
      refine ⟨h.runs hstorage hkeeps hcompleted (h.due_of_update fun other hmem => ?_), hkeeps,
        hcompleted⟩
      rcases List.mem_or_eq_of_mem_set hmem with hold | rfl
      · exact h.removal hold
      · refine ⟨hremoved, fun ids hids other hother => ?_⟩
        obtain rfl := Option.some.inj hids
        exact hof _ hleft other (List.mem_cons_of_mem id hother)
  | tells n k removal hfound hleft =>
      have hstorage : StorageNet.Tended blockReplica s.Doomed { s.storage with
          sent := FileManager.rmFileMessage removal.path :: s.storage.sent } := by
        refine { h.storage with sent := fun {msg} hmsg => ?_ }
        rcases List.mem_cons.mp hmsg with rfl | hmsg
        · exact Or.inr ⟨removal.path, rfl⟩
        · exact h.storage.sent hmsg
      exact ⟨h.runs hstorage (.refl _) hsubset
        (h.due_of_update fun _ hmem => h.removal (List.mem_of_mem_eraseIdx hmem)), .refl _, hsubset⟩
  | removeDir n path fuel tree result hremove =>
      have htree := (h.storage.tree n).remove (.removeDir path) trivial henduring fuel hremove
      exact ⟨h.runs (h.storage.replant htree) (.refl _) hsubset fun _ _ => h.removal, .refl _,
        hsubset⟩

theorem intact_empty (keyHash : Bytes → Nat) : (empty keyHash).Intact blockReplica where
  storage := StorageNet.tended_empty keyHash
  removed hmem := absurd hmem List.not_mem_nil
  removal hmem := absurd hmem List.not_mem_nil

theorem invariant_intact (hreplica : 1 ≤ blockReplica) (keyHash : Bytes → Nat) :
    ((removalSystem blockReplica keyHash).restrict Enduring).Invariant (Intact blockReplica) where
  init hinit := by
    rw [hinit]
    exact intact_empty keyHash
  step h hstep := (h.step hreplica hstep.1 hstep.2).1

end Steps

end RemovalNet

end Doopey
