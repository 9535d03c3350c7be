import Doopey.Machine.RestartNet

/-!
# What servers keep when they stop and start

As long as no path has a separator in it, every snapshot holds what was in the tree when it was
written. A server can start from it at any time: it finds this tree again and all of its blocks,
and whatever was uploaded to the cluster can still be downloaded.
-/

namespace Doopey

open Foundation FileUploader Client

/-- The number of a block of a machine with a small ID fits into a `long`. -/
theorem toNat_lt_of_machineID {id : BlockID}
    (hmachine : (getMachineIDFromBlockID id).toNat < 2 ^ 31) : id.toNat < 2 ^ 63 := by
  have hshift : (getMachineIDFromBlockID id).toNat = id.toNat / 2 ^ 32 := by
    have hlt := id.toNat_lt
    have hwidth : (32 : UInt64).toNat % 64 = 32 := rfl
    rw [getMachineIDFromBlockID, UInt64.toNat_toUInt32, UInt64.toNat_shiftRight, hwidth,
      Nat.shiftRight_eq_div_pow]
    exact Nat.mod_eq_of_lt (by omega)
  rw [hshift] at hmachine
  omega

namespace BlockNet

variable {blockReplica : UInt64} {net net' : BlockNet} {event : BlockEvent}

/-- Only a machine that saves a block gives it an ID, with its own ID in it. -/
theorem Lasts.first_step (h : net.Lasts blockReplica) (henduring : net.Enduring event)
    (hstep : BlockStep blockReplica net event net') {id : BlockID} (hnew : net'.first id ≠ none) :
    net.first id ≠ none ∨
      ∃ n data opens, event = .save n data opens ∧ getMachineIDFromBlockID id = n := by
  by_cases hsave : ∃ n data opens, event = .save n data opens
  · obtain ⟨n, data, opens, rfl⟩ := hsave
    cases hstep with
    | save n data opens newID node hn hdata hsave =>
        refine (new_of_remember hsave hnew).imp_right fun hid => ⟨n, data, opens, rfl, ?_⟩
        rw [hid.1]
        exact getMachineIDFromBlockID_buildBlockID _ _
  · obtain ⟨hfirst, -⟩ := h.truthful.grows (h.fresh.lasting henduring)
      (fun n data opens heq => hsave ⟨n, data, opens, heq⟩) hstep
    rw [hfirst] at hnew
    exact Or.inl hnew

/-- A machine can look through its directory. -/
theorem Lasts.exists_lists (h : net.Lasts blockReplica) (n : MachineID) :
    ∃ names, (net.nodes n).Lists names := by
  refine ⟨(net.nodes n).localIDs.keys.map convertBlockIDToPath ++ [ascii ".", ascii ".."],
    fun name => ?_⟩
  have hkeys (id : BlockID) : id ∈ (net.nodes n).localIDs.keys ↔ (net.nodes n).files id ≠ none := by
    rw [Std.TreeMap.mem_keys, Std.TreeMap.mem_iff_isSome_getElem?, Option.isSome_iff_ne_none]
    exact ⟨fun hlisted => h.filed hlisted, fun hfile => (h.truthful.node n).listed hfile⟩
  rw [List.mem_append, List.mem_map, List.mem_cons, List.mem_singleton]
  simp only [hkeys, @eq_comm _ name]

end BlockNet

namespace StorageNet

/-- Everything in a tree can be written to a snapshot and read back, and so can what is under
way. -/
structure Tidy (s : StorageNet) : Prop where
  tree (n : MachineID) : (s.trees n).Within FileTree.Portable
  session {n : MachineID} {session : Session} : session ∈ s.sessions n →
    FileTree.Canonical session.file.path
  completed {id : BlockID} {file : PutFile} : (id, file) ∈ s.completed →
    FileTree.Canonical file.path
  sent {dir : Bytes} : FileManager.newDirMessage dir ∈ s.sent → FileTree.Canonical dir
  small {id : BlockID} : s.net.first id ≠ none → id.toNat < 2 ^ 63

section Steps

variable {blockReplica : UInt64} {s s' : StorageNet} {n : MachineID} {net : BlockNet}

/-- Whatever is in a tree, or sent, has a path without separators. -/
theorem Tidy.serve (h : s.Tidy) {tree : FileTree} {sessions : List Session} {sent : List Message}
    {completed : List (BlockID × PutFile)} (htree : tree.Within FileTree.Portable)
    (hsessions : ∀ session ∈ sessions, FileTree.Canonical session.file.path)
    (hcompleted : ∀ id file, (id, file) ∈ completed →
      (id, file) ∈ s.completed ∨ FileTree.Canonical file.path)
    (hsent : ∀ dir, FileManager.newDirMessage dir ∈ sent →
      FileManager.newDirMessage dir ∈ s.sent ∨ FileTree.Canonical dir)
    (hsmall : ∀ id, net.first id ≠ none → id.toNat < 2 ^ 63) :
    Tidy { s.serve n net tree sessions with sent := sent, completed := completed } := by
  refine ⟨?_, ?_, fun hmem => ?_, fun hmem => ?_, hsmall _⟩
  · apply (Function.forall_update_iff s.trees fun _ tree => tree.Within FileTree.Portable).mpr
    exact ⟨htree, fun m _ => h.tree m⟩
  · apply (Function.forall_update_iff s.sessions fun _ sessions => ∀ {session : Session},
      session ∈ sessions → FileTree.Canonical session.file.path).mpr
    exact ⟨hsessions _, fun m _ => h.session⟩
  · exact (hcompleted _ _ hmem).elim h.completed fun hpath => hpath
  · exact (hsent _ hmem).elim h.sent fun hdir => hdir

theorem MaySave.small (hsaves : MaySave blockReplica s.net n true net) (h : s.Intact blockReplica)
    (hmax : (s.net.nodes n).localMax + 1 ≠ 0) (hn : n.toNat < 2 ^ 31) (htidy : s.Tidy)
    (id : BlockID) (hnew : net.first id ≠ none) : id.toNat < 2 ^ 63 := by
  rcases hsaves with rfl | ⟨data, hstep⟩
  · exact htidy.small hnew
  · have henduring : s.net.Enduring (.save n data true) := hmax
    rcases h.blocks.first_step henduring hstep hnew with hold | ⟨m, _, _, heq, hmachine⟩
    · exact htidy.small hold
    · cases heq
      apply toNat_lt_of_machineID
      rw [hmachine]
      exact hn

theorem newDirMessage_injective {dir dir' : Bytes}
    (heq : FileManager.newDirMessage dir = FileManager.newDirMessage dir') : dir = dir' :=
  congrArg Message.data heq

theorem Tidy.step (htidy : s.Tidy) (h : s.Intact blockReplica) (hreplica : 1 ≤ blockReplica)
    {event : StorageEvent} (henduring : s.Enduring event) (hplain : event.Plain)
    (hstep : StorageStep blockReplica s event s') : s'.Tidy := by
  cases hstep with
  | blocks event net hstep =>
      refine { htidy with small := fun {id} hnew => ?_ }
      rcases h.blocks.first_step henduring hstep hnew with hold | ⟨n, data, opens, rfl, hmachine⟩
      · exact htidy.small hold
      · apply toNat_lt_of_machineID
        rw [hmachine]
        exact hplain
  | put n file metaBlock hn hmeta =>
      refine htidy.serve (htidy.tree n) ?_ (fun _ _ => Or.inl) (fun _ => Or.inl) fun _ => htidy.small
      intro session hmem
      rcases List.mem_cons.mp hmem with rfl | hold
      · exact hplain
      · exact htidy.session hold
  | goesOn n k opens session rest net up hreceives =>
      obtain ⟨rfl, hmax⟩ := henduring
      obtain ⟨-, ids, hserved⟩ := h.served hreplica hmax hreceives
      cases hserved with
      | goesOn ids' htree hunder =>
          refine htidy.serve (htree ▸ htidy.tree n) ?_ (fun _ _ => Or.inl) (fun _ => Or.inl)
            (hreceives.saves.small h hmax hplain htidy)
          intro other hmem
          rcases List.mem_or_eq_of_mem_set hmem with hold | rfl
          · exact htidy.session hold
          · have hpath := htidy.session (List.mem_of_getElem? hreceives.found)
            exact hpath
  | fails n k opens session rest net up hreceives =>
      obtain ⟨rfl, hmax⟩ := henduring
      obtain ⟨-, ids, hserved⟩ := h.served hreplica hmax hreceives
      cases hserved with
      | failed htree =>
          exact htidy.serve (htree ▸ htidy.tree n)
            (fun _ hmem => htidy.session (List.mem_of_mem_eraseIdx hmem)) (fun _ _ => Or.inl)
            (fun _ => Or.inl) (hreceives.saves.small h hmax hplain htidy)
  | completes n k opens session rest net up name hreceives hname =>
      obtain ⟨rfl, hmax⟩ := henduring
      obtain ⟨⟨hlasts, -⟩, ids, hserved⟩ := h.served hreplica hmax hreceives
      have hpath := htidy.session (List.mem_of_getElem? hreceives.found)
      have hsmall := hreceives.saves.small h hmax hplain htidy
      cases hserved with
      | completed _ _ hfile hadd harchives =>
          obtain ⟨⟨data, -, m, hstored⟩, -⟩ := harchives
          have hfirst := (hlasts.truthful.node m).file hstored
          have hportable := hpath.portable (hsmall _ (hfirst ▸ Option.some_ne_none data))
          refine htidy.serve ((htidy.tree n).addFile hadd hportable)
            (fun _ hmem => htidy.session (List.mem_of_mem_eraseIdx hmem)) ?_ ?_ hsmall
          · intro id file hmem
            rcases List.mem_cons.mp hmem with heq | hold
            · rw [(Prod.mk.inj heq).2]
              exact Or.inr hpath
            · exact Or.inl hold
          · intro dir hmem
            rcases List.mem_cons.mp hmem with heq | hold
            · cases congrArg Message.cmd heq
            · exact Or.inl hold
  | leaves n k session ids hfound hids =>
      have hserve : (s.serve n s.net (s.trees n) ((s.sessions n).eraseIdx k)).Tidy :=
        htidy.serve (htidy.tree n) (fun _ hmem => htidy.session (List.mem_of_mem_eraseIdx hmem))
          (fun _ _ => Or.inl) (fun _ => Or.inl) fun _ => htidy.small
      exact { hserve with }
  | cleans n k id rest net hfound hstep => exact henduring.elim
  | addDir n dir store store' msg success hstore hadd =>
      obtain ⟨⟨tree, added⟩, htree, hadd⟩ := bind_eq_ok_iff.mp hadd
      obtain ⟨rfl, hmsg⟩ := Prod.mk.inj (Except.ok.inj hadd)
      obtain ⟨rfl, rfl⟩ := Prod.mk.inj hmsg
      rw [hstore.tree] at htree
      refine htidy.serve ((htidy.tree n).addFile htree (hplain.portable (by decide)))
        (fun _ => htidy.session) (fun _ _ => Or.inl) ?_ fun _ => htidy.small
      intro dir' hmem
      rcases List.mem_append.mp hmem with hnew | hold
      · cases added with
        | true =>
            rw [newDirMessage_injective (List.mem_singleton.mp hnew)]
            exact Or.inr hplain
        | false => cases hnew
      · exact Or.inl hold
  | hear n msg fuel tree success hsent hhear =>
      refine htidy.serve ?_ (fun _ => htidy.session) (fun _ _ => Or.inl) (fun _ => Or.inl)
        fun _ => htidy.small
      rcases h.sent hsent with ⟨dir, rfl⟩ | ⟨id, file, hmem, rfl⟩
      · rw [handleBroadcast_newDir] at hhear
        exact (htidy.tree n).addFile hhear ((htidy.sent hsent).portable (by decide))
      · obtain ⟨-, hfits, -, ids, ⟨data, -, m, hstored⟩, -⟩ := h.completed hmem
        have hlength : file.path.length < 2 ^ 64 := by
          rw [PutFile.Fits, blockSize] at hfits
          omega
        have hfirst := (h.blocks.truthful.node m).file hstored
        rw [handleBroadcast_newFile fuel _ hlength] at hhear
        exact (htidy.tree n).addFile hhear ((htidy.completed hmem).portable
          (htidy.small (hfirst ▸ Option.some_ne_none data)))

end Steps

/-- The server has saved this content with an earlier tree. -/
def Saved (s : StorageNet) (n : MachineID) (content : Bytes) : Prop :=
  ∃ fuel tree, Server.saveSnapshot fuel n tree = .ok content ∧ tree.From s.completed ∧
    tree.Within FileTree.Portable

/-- A snapshot is loaded as it was saved. -/
theorem Saved.load {s : StorageNet} {n : MachineID} {content : Bytes} (h : s.Saved n content)
    (keyHash : Bytes → Nat) : ∃ tree, Server.loadSnapshot content (.new keyHash) = .ok (n, tree) ∧
      tree.From s.completed ∧ tree.Within FileTree.Portable := by
  obtain ⟨fuel, tree, hsave, ⟨ns', addr', hrepr', hfiles⟩, ns, addr, hrepr, hportable⟩ := h
  obtain ⟨loaded, addr₁, hload, hloaded⟩ := hrepr.reload hportable keyHash hsave
  refine ⟨loaded, hload, ⟨ns, addr₁, hloaded, fun path id hentry hid => ?_⟩, ns, addr₁, hloaded,
    hportable⟩
  have hmeta := hrepr.getMetaID_eq path
  rw [hentry] at hmeta
  exact hfiles path id (hrepr'.entry_of_getMetaID hmeta hid) hid

end StorageNet

namespace RestartNet

/-- Nothing that was uploaded is lost, and every snapshot that is whole holds an earlier tree. -/
structure Lasts (blockReplica : UInt64) (s : RestartNet) : Prop where
  intact : s.storage.Intact blockReplica
  tidy : s.storage.Tidy
  snapshot {n : MachineID} {file : SnapshotFile} : s.snapshots n = some file →
    file.whole = true → s.storage.Saved n file.content

section Steps

variable {blockReplica : UInt64} {keyHash : Bytes → Nat} {s s' : RestartNet}

/-- A server loads an earlier tree, or starts with an empty one. -/
theorem Lasts.load (h : s.Lasts blockReplica) {n oldID : MachineID} {tree : FileTree}
    (hwhole : ∀ file ∈ s.snapshots n, file.whole = true)
    (hload : s.loadSnapshot n (.new keyHash) = .ok (oldID, tree)) :
    tree.From s.storage.completed ∧ tree.Within FileTree.Portable := by
  unfold loadSnapshot at hload
  cases hsnapshot : s.snapshots n with
  | none =>
      rw [hsnapshot] at hload
      obtain ⟨-, rfl⟩ := Prod.mk.inj (Except.ok.inj hload)
      exact ⟨.of_new keyHash fun hid => absurd rfl hid, .of_new keyHash FileTree.portable_root⟩
  | some file =>
      rw [hsnapshot] at hload
      obtain ⟨loaded, hloaded, hfrom, hportable⟩ :=
        (h.snapshot hsnapshot (hwhole file hsnapshot)).load keyHash
      obtain ⟨-, rfl⟩ := Prod.mk.inj (Except.ok.inj (hload.symm.trans hloaded))
      exact ⟨hfrom, hportable⟩

/-- A server that starts has lost no block, and has an earlier tree. -/
theorem Lasts.restart (h : s.Lasts blockReplica) (hreplica : 1 ≤ blockReplica)
    {n oldID : MachineID} {names : List Bytes} {tree : FileTree} (hn : n ≠ 0)
    (hnames : (s.storage.net.nodes n).Lists names)
    (hwhole : ∀ file ∈ s.snapshots n, file.whole = true)
    (hload : s.loadSnapshot n (.new keyHash) = .ok (oldID, tree)) :
    (s.restarted blockReplica n s.storage.net names tree).Lasts blockReplica ∧
      s.storage.Grows (s.restarted blockReplica n s.storage.net names tree).storage := by
  obtain ⟨hfrom, hportable⟩ := h.load hwhole hload
  have hblocks := h.intact.blocks.restart hreplica hn hnames
  have hkeeps : s.storage.net.Keeps (s.storage.net.restart blockReplica n names) := .restart
  have hfiled : (s.storage.serve n (s.storage.net.restart blockReplica n names) tree []).Filed
      (s.storage.net.restart blockReplica n names).Provides :=
    h.intact.toFiled.serve hkeeps.provides (List.Subset.refl _) hfrom
      (fun _ hmem => absurd hmem List.not_mem_nil) fun _ _ => Or.inl
  have htidy : (s.storage.serve n (s.storage.net.restart blockReplica n names) tree []).Tidy :=
    h.tidy.serve hportable (fun _ hmem => absurd hmem List.not_mem_nil)
      (fun _ _ => Or.inl) (fun _ => Or.inl) fun _ => h.tidy.small
  exact ⟨⟨⟨{ hfiled with }, hblocks, h.intact.sent⟩, { htidy with }, h.snapshot⟩, hkeeps,
    List.Subset.refl _⟩

theorem Lasts.step (h : s.Lasts blockReplica) (hreplica : 1 ≤ blockReplica) {event : RestartEvent}
    (henduring : s.Enduring event) (hstep : RestartStep blockReplica keyHash s event s') :
    s'.Lasts blockReplica ∧ s.storage.Grows s'.storage := by
  cases hstep with
  | runs event storage hstep =>
      obtain ⟨hintact, hgrows⟩ := h.intact.step hreplica henduring.1 hstep
      have htidy := h.tidy.step h.intact hreplica henduring.1 henduring.2 hstep
      refine ⟨⟨hintact, htidy, fun hsnapshot hwhole => ?_⟩, hgrows⟩
      obtain ⟨fuel, tree, hsave, hfrom, hportable⟩ := h.snapshot hsnapshot hwhole
      exact ⟨fuel, tree, hsave, hfrom.mono hgrows.completed, hportable⟩
  | saves n written fuel content hsave =>
      refine ⟨⟨h.intact, h.tidy, ?_⟩, .refl _⟩
      apply (Function.forall_update_iff s.snapshots fun m file => ∀ {file' : SnapshotFile},
        file = some file' → file'.whole = true → s.storage.Saved m file'.content).mpr
      refine ⟨fun heq hwhole => ?_, fun m _ => h.snapshot⟩
      obtain rfl := Option.some.inj heq
      have hlength : content.length ≤ written := of_decide_eq_true hwhole
      rw [List.take_of_length_le hlength]
      exact ⟨fuel, _, hsave, h.intact.tree n, h.tidy.tree n⟩
  | restarts n oldID torn net names tree hn hleaves hnames hload hID =>
      obtain ⟨rfl, hwhole⟩ := henduring
      cases hleaves with
      | whole => exact h.restart hreplica hn hnames hwhole hload

theorem lasts_empty : (empty keyHash).Lasts blockReplica where
  intact := StorageNet.intact_empty keyHash
  tidy := by
    refine ⟨fun n => .of_new keyHash FileTree.portable_root, fun hmem => ?_, fun hmem => ?_,
      fun hmem => ?_, fun hfirst => absurd rfl hfirst⟩
    · exact absurd hmem List.not_mem_nil
    · exact absurd hmem List.not_mem_nil
    · exact absurd hmem List.not_mem_nil
  snapshot hsnapshot := absurd hsnapshot (by simp [empty])

theorem preserves_restartSystem (hreplica : 1 ≤ blockReplica) (keyHash : Bytes → Nat) :
    StorageNet.Preserves ((restartSystem blockReplica keyHash).restrict Enduring)
      RestartNet.storage (fun _ => True) (Lasts blockReplica) where
  reliable h := h.intact.blocks.reliable
  leads {s s'} h hleads := by
    obtain ⟨events, hsteps⟩ := hleads
    have hlasts : s'.Lasts blockReplica ∧ s.storage.Grows s'.storage :=
      hsteps.relates (fun _ => .refl _) (fun h h' => h.trans h')
        (fun h hstep => h.step hreplica hstep.1 hstep.2) h
    exact ⟨hlasts.1, hlasts.2.blocks.on⟩

theorem invariant_lasts (hreplica : 1 ≤ blockReplica) (keyHash : Bytes → Nat) :
    ((restartSystem blockReplica keyHash).restrict Enduring).Invariant (Lasts blockReplica) where
  init hinit := by
    rw [hinit]
    exact lasts_empty
  step h hstep := (h.step hreplica hstep.1 hstep.2).1

/-- A server can start from a snapshot that is whole, and has the entries of that tree then. -/
theorem exists_restart (blockReplica : UInt64) (keyHash : Bytes → Nat) {s : RestartNet}
    {n : MachineID} {names : List Bytes} {fuel : Nat} {tree : FileTree} {file : SnapshotFile}
    (hsave : Server.saveSnapshot fuel n tree = .ok file.content)
    (htree : tree.Within FileTree.Portable) (hsnapshot : s.snapshots n = some file) (hn : n ≠ 0)
    (hnames : (s.storage.net.nodes n).Lists names) (hID : RouterNode.MayTake n n) :
    ∃ loaded, RestartStep blockReplica keyHash s (.restarts n none names)
        (s.restarted blockReplica n s.storage.net names loaded) ∧ tree.Agrees loaded := by
  obtain ⟨ns, addr, hrepr, hportable⟩ := htree
  obtain ⟨loaded, addr', hload, hloaded⟩ := hrepr.reload hportable keyHash hsave
  refine ⟨loaded, .restarts n n none _ names loaded hn .whole hnames ?_ hID, hrepr.agrees hloaded⟩
  rw [loadSnapshot, hsnapshot]
  exact hload

/-- A server can save its tree at any time. -/
theorem Lasts.exists_saves (h : s.Lasts blockReplica) (keyHash : Bytes → Nat) (n : MachineID) :
    ∃ fuel content, Server.saveSnapshot fuel n (s.storage.trees n) = .ok content ∧
      RestartStep blockReplica keyHash s (.saves n content.length)
        { s with snapshots := Function.update s.snapshots n (some ⟨content, true⟩) } := by
  obtain ⟨ns, addr, hrepr, -⟩ := h.tidy.tree n
  obtain ⟨fuel, entries, hdump, -⟩ := hrepr.getTotalTree_eq
  obtain ⟨content, hsave⟩ : ∃ content,
      Server.saveSnapshot fuel n (s.storage.trees n) = .ok content := by
    rw [Server.saveSnapshot, hdump]
    exact ⟨_, rfl⟩
  have hstep := @RestartStep.saves blockReplica keyHash s n content.length fuel content hsave
  refine ⟨fuel, content, hsave, ?_⟩
  rw [List.take_length, decide_eq_true (Nat.le_refl _)] at hstep
  exact hstep

/-- A snapshot stays until the next one is saved. -/
theorem snapshots_of_steps {n : MachineID} {rest : List RestartEvent}
    (hsteps : ((restartSystem blockReplica keyHash).restrict Enduring).Steps s rest s')
    (hlast : ∀ written, .saves n written ∉ rest) : s'.snapshots n = s.snapshots n := by
  induction hsteps with
  | nil => rfl
  | @cons before middle after event rest hstep _ ih =>
      rw [ih fun written hmem => hlast written (List.mem_cons_of_mem _ hmem)]
      cases hstep.2 with
      | runs => rfl
      | saves m written =>
          have hne : n ≠ m := fun heq => hlast written (heq ▸ List.mem_cons_self)
          exact Function.update_of_ne hne ..
      | restarts => rfl

end Steps

/-- Whatever servers stop, are killed and start again, and whenever they do: what a client gets
for a path that the tree of some machine has is one of the files that were uploaded under it,
as it was uploaded. It gets it if all blocks are found. -/
theorem download_of_restarts {blockReplica : UInt64} (hreplica : 1 ≤ blockReplica)
    {keyHash : Bytes → Nat} {events rest : List RestartEvent} {s s' : RestartNet}
    (hrun : ((restartSystem blockReplica keyHash).restrict Enduring).Run events s)
    (hrest : ((restartSystem blockReplica keyHash).restrict Enduring).Steps s rest s')
    {n : MachineID} {store : Store} (hstore : s.storage.Has n store) {path : Bytes} {id : BlockID}
    (hmeta : store.tree.getMetaID path = .ok id) (hid : id ≠ 0) {remote : Remote}
    (hanswers : StorageNet.Answers ((restartSystem blockReplica keyHash).restrict Enduring)
      RestartNet.storage s s' n remote)
    {router : Router} {serves : Bytes → Option BlockManager}
    (hserves : StorageNet.Serves ((restartSystem blockReplica keyHash).restrict Enduring)
      RestartNet.storage s' n router serves) :
    ∃ file ids, (id, file) ∈ s.storage.completed ∧ file.path = path ∧
      (∀ replies, FileManager.handleGetFile remote router store path = .ok (replies, true) →
        Downloads replies serves ids file.content) ∧
      (s.storage.Finds store.manager remote →
        ∃ replies, FileManager.handleGetFile remote router store path = .ok (replies, true)) := by
  have h := (invariant_lasts hreplica keyHash).run hrun
  exact h.intact.download (preserves_restartSystem hreplica keyHash) h ⟨rest, hrest⟩ hstore hmeta
    hid hanswers hserves

/-- A server can start at any time, from the last snapshot that it saved, if all of it was
written and `initMachineID` gives it its ID back. It has the tree of that time then, and just
the blocks that are in its directory, and no other machine has lost a block, an entry of its
tree or an upload. -/
theorem restart_of_run {blockReplica : UInt64} (hreplica : 1 ≤ blockReplica)
    {keyHash : Bytes → Nat} {events rest : List RestartEvent} {s saved later : RestartNet}
    {n : MachineID} {written : Nat} {names : List Bytes}
    (hrun : ((restartSystem blockReplica keyHash).restrict Enduring).Run events s)
    (hsave : RestartStep blockReplica keyHash s (.saves n written) saved)
    (hwhole : ∀ file ∈ saved.snapshots n, file.whole = true)
    (hrest : ((restartSystem blockReplica keyHash).restrict Enduring).Steps saved rest later)
    (hlast : ∀ written, .saves n written ∉ rest) (hn : n ≠ 0)
    (hnames : (later.storage.net.nodes n).Lists names)
    {node given : RouterNode} {localIP : Bytes} {checked : Option RouterNode}
    {reached : Bytes → Option RouterNode} (hnode : node.machineID = n)
    (hgiven : node.initMachineID localIP checked reached = .ok given) (hID : given.machineID = n) :
    ∃ after, RestartStep blockReplica keyHash later (.restarts n none names) after ∧
      (s.storage.trees n).Agrees (after.storage.trees n) ∧
      (∀ id, (after.storage.net.nodes n).localIDs[id]? ≠ none ↔ later.storage.net.Stores id n) ∧
      ∀ m, m ≠ n → after.storage.net.nodes m = later.storage.net.nodes m ∧
        after.storage.trees m = later.storage.trees m ∧
        after.storage.sessions m = later.storage.sessions m := by
  have h := (invariant_lasts hreplica keyHash).run hrun
  have hlater : later.Lasts blockReplica := by
    have henduring : s.Enduring (.saves n written) := trivial
    have hsaved := (h.step hreplica henduring hsave).1
    exact ((preserves_restartSystem hreplica keyHash).leads hsaved ⟨rest, hrest⟩).1
  have htruthful := hlater.intact.blocks.truthful
  have hzero : (later.storage.net.nodes n).files 0 = none := hlater.intact.blocks.files_zero n
  have hsnapshot := snapshots_of_steps hrest hlast
  cases hsave with
  | saves n written fuel content hsave =>
      have hfile : Function.update s.snapshots n
          (some ⟨content.take written, content.length ≤ written⟩) n =
          some ⟨content.take written, content.length ≤ written⟩ := Function.update_self ..
      have hlength : content.length ≤ written := of_decide_eq_true (hwhole _ hfile)
      rw [← List.take_of_length_le hlength] at hsave
      obtain ⟨tree, hstep, hagrees⟩ := exists_restart blockReplica keyHash hsave (h.tidy.tree n)
        (hsnapshot.trans hfile) hn hnames ⟨node, given, localIP, checked, reached, hnode, hgiven, hID⟩
      refine ⟨_, hstep, ?_, fun id => ?_, fun m hm => ?_⟩
      · rw [trees_restarted_self]
        exact hagrees
      · have hstart : (later.restarted blockReplica n later.storage.net names
            tree).storage.net.nodes n =
            .start blockReplica n (later.storage.net.nodes n).files names := Function.update_self ..
        rw [hstart, BlockNode.listed_start blockReplica hn hnames hzero id]
        constructor
        · intro hfile
          obtain ⟨data, hfile⟩ := Option.ne_none_iff_exists'.mp hfile
          exact ⟨data, (htruthful.node n).file hfile, hfile⟩
        · rintro ⟨data, -, hfile⟩ hnone
          rw [hfile] at hnone
          cases hnone
      · exact ⟨Function.update_of_ne hm .., Function.update_of_ne hm .., Function.update_of_ne hm ..⟩

section Example

open StorageNet

/-- A run without restarts is one of the servers. -/
theorem steps_runs {blockReplica : UInt64} {keyHash : Bytes → Nat} {s s' : StorageNet}
    {events : List StorageEvent}
    (hsteps : ((storageSystem blockReplica keyHash).restrict StorageNet.Enduring).Steps s events s')
    (hplain : ∀ event ∈ events, event.Plain) (snapshots : MachineID → Option SnapshotFile) :
    ((restartSystem blockReplica keyHash).restrict Enduring).Steps ⟨s, snapshots⟩
      (events.map .runs) ⟨s', snapshots⟩ := by
  induction hsteps with
  | nil s => exact .nil _
  | @cons before middle after event events hstep _ ih =>
      have henduring : Enduring ⟨before, snapshots⟩ (.runs event) :=
        ⟨hstep.1, hplain event List.mem_cons_self⟩
      exact .cons ⟨henduring, .runs event middle hstep.2⟩
        (ih fun other hother => hplain other (List.mem_cons_of_mem _ hother))

/-- Machine 1 has taken a file and saved its tree. -/
theorem exists_saved : ∃ events s fuel content id,
    ((restartSystem 2 List.length).restrict Enduring).Run events s ∧
    Server.saveSnapshot fuel 1 (s.storage.trees 1) = .ok content ∧
    RestartStep 2 List.length s (.saves 1 content.length)
      { s with snapshots := Function.update s.snapshots 1 (some ⟨content, true⟩) } ∧
    id ≠ 0 ∧ (s.storage.trees 1).getMetaID smallFile.path = .ok id ∧
    s.storage.completed = [(id, smallFile)] ∧
    (∀ m, m ≠ 1 → s.storage.net.nodes m = .empty) ∧
    ∃ names, (s.storage.net.nodes 1).Lists names := by
  obtain ⟨count, s, id, ⟨start, hstart, hsteps⟩, hid, hget, hcompleted, hothers, -⟩ := exists_uploaded
  have hplain : ∀ event ∈ StorageEvent.put 1 smallFile :: List.replicate count (.receive 1 0 true),
      event.Plain := by
    intro event hmem
    rcases List.mem_cons.mp hmem with rfl | hmem
    · refine ⟨[[102]], by decide, by decide, fun name hname => ?_⟩
      rw [List.mem_singleton.mp hname]
      exact ⟨by decide, by decide, List.forall_mem_singleton.mpr (by decide)⟩
    · rw [List.eq_of_mem_replicate hmem]
      have hsmall : (1 : MachineID).toNat < 2 ^ 31 := by decide
      exact hsmall
  have hrun : ((restartSystem 2 List.length).restrict Enduring).Run _ ⟨s, fun _ => none⟩ :=
    ⟨⟨start, fun _ => none⟩, congrArg (RestartNet.mk · _) hstart, steps_runs hsteps hplain _⟩
  have h := (invariant_lasts (by decide) List.length).run hrun
  obtain ⟨fuel, content, hsave, hstep⟩ := h.exists_saves List.length 1
  exact ⟨_, _, fuel, content, id, hrun, hsave, hstep, hid, hget, hcompleted, hothers,
    h.intact.blocks.exists_lists 1⟩

/-- The file comes back from machine 1 after it was started again. -/
theorem download_of_restarts_example : ∃ store router serves replies ids,
    FileManager.handleGetFile FileManager.silent router store smallFile.path = .ok (replies, true) ∧
      Downloads replies serves ids [1, 2, 3] := by
  obtain ⟨events, s, fuel, content, id, ⟨start, hstart, hsteps⟩, hsave, hstep, hid, hget,
    hcompleted, hothers, names, hnames⟩ := exists_saved
  have h := (invariant_lasts (by decide) List.length).run ⟨start, hstart, hsteps⟩
  have hsnapshot : Function.update s.snapshots 1 (some ⟨content, true⟩) 1 = some ⟨content, true⟩ :=
    Function.update_self ..
  obtain ⟨tree, hrestart, hagrees⟩ := @exists_restart 2 List.length
    ⟨s.storage, Function.update s.snapshots 1 (some ⟨content, true⟩)⟩ 1 names fuel _ _ hsave
    (h.tidy.tree 1) hsnapshot (by decide) hnames (RouterNode.mayTake_self (by decide))
  have hsaves : s.Enduring (.saves 1 content.length) := trivial
  have hrestarts : Enduring ⟨s.storage, Function.update s.snapshots 1 (some ⟨content, true⟩)⟩
      (.restarts 1 none names) := by
    refine ⟨rfl, fun file hfile => ?_⟩
    obtain rfl := Option.some.inj (hsnapshot.symm.trans hfile)
    rfl
  have hrun : ((restartSystem 2 List.length).restrict Enduring).Run _ _ :=
    ⟨start, hstart, hsteps.append (.cons ⟨hsaves, hstep⟩ (.cons ⟨hrestarts, hrestart⟩ (.nil _)))⟩
  have hafter := (invariant_lasts (by decide) List.length).run hrun
  obtain ⟨manager, router, hshows, hfinds, hanswers, hserves⟩ := exists_alone
    ((restartSystem 2 List.length).restrict Enduring) RestartNet.storage hafter.intact.blocks
    fun m hm => (Function.update_of_ne hm ..).trans (hothers m hm)
  obtain ⟨id', hbefore, hmeta⟩ := hagrees.getMetaID smallFile.path
  obtain rfl := Except.ok.inj (hget.symm.trans hbefore)
  have hhas : StorageNet.Has _ 1 ⟨manager, tree⟩ := ⟨hshows, (trees_restarted_self ..).symm⟩
  obtain ⟨file, ids, hfile, -, hdownloads, hreplies⟩ :=
    download_of_restarts (by decide) hrun (.nil _) hhas hmeta hid hanswers hserves
  rw [restarted, StorageNet.serve, hcompleted] at hfile
  obtain rfl := (Prod.mk.inj (List.mem_singleton.mp hfile)).2
  obtain ⟨replies, hreply⟩ := hreplies hfinds
  exact ⟨_, _, _, replies, ids, hreply, hdownloads replies hreply⟩

/-- Machine 1 is started again and has its file. -/
theorem restart_of_run_example : ∃ saved names after id, id ≠ 0 ∧
    RestartStep 2 List.length saved (.restarts 1 none names) after ∧
      (after.storage.trees 1).getMetaID smallFile.path = .ok id := by
  obtain ⟨events, s, fuel, content, id, hrun, -, hsave, hid, hget, -, -, names, hnames⟩ :=
    exists_saved
  have hwhole : ∀ file ∈ Function.update s.snapshots 1 (some ⟨content, true⟩) 1,
      file.whole = true := by
    intro file hfile
    rw [Function.update_self] at hfile
    obtain rfl := Option.some.inj hfile
    rfl
  -- no machine of its list answers
  have hgiven : (RouterNode.new 1).initMachineID [] none (fun _ => none) =
      .ok { RouterNode.new 1 with machineIDMax := 1 } := rfl
  obtain ⟨after, hstep, hagrees, -⟩ := restart_of_run (by decide) hrun hsave hwhole (.nil _)
    (fun _ => List.not_mem_nil) (by decide) hnames rfl hgiven rfl
  obtain ⟨id', hbefore, hafter⟩ := hagrees.getMetaID smallFile.path
  obtain rfl := Except.ok.inj (hget.symm.trans hbefore)
  exact ⟨_, names, after, id, hid, hstep, hafter⟩

end Example

end RestartNet

end Doopey
