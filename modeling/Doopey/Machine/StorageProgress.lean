import Doopey.Machine.StorageRuns

/-!
# Uploads can be finished

In whatever state a cluster is, every upload can go on to its end, and it ends with the file in
the tree if its path is free and in a directory.
-/

namespace Doopey

open Foundation FileUploader Client

/-! ## The blocks that the file manager sees -/

/-- A machine has no block `0`. -/
theorem BlockNet.Lasts.exists_shows {blockReplica : UInt64} {net : BlockNet}
    (h : net.Lasts blockReplica) {n : MachineID} (hn : n ≠ 0) :
    ∃ manager, (net.nodes n).Shows n manager := by
  have hfiles : (net.nodes n).files 0 = none := by
    by_contra hfile
    obtain ⟨data, hdata⟩ := Option.ne_none_iff_exists'.mp hfile
    have hfirst := (h.truthful.node n).file hdata
    rw [h.truthful.zero] at hfirst
    cases hfirst
  have hlocal : (net.nodes n).localIDs[(0 : BlockID)]? = none := by
    by_contra hlisted
    exact h.filed hlisted hfiles
  refine ⟨⟨n, BlockManager.sizeofBlockID, (net.nodes n).localMax, fun id =>
    ((net.nodes n).localIDs[id]?).map fun attr => ((net.nodes n).attrs attr).machine,
    (net.nodes n).files, hn, ?_, hfiles⟩, rfl, rfl, fun _ => rfl, rfl⟩
  rw [hlocal, Option.map_none]

/-- Saving a new block looks the same to the file manager and to the block manager. -/
theorem BlockNode.Shows.saveBlock {blockReplica : UInt64} (hreplica : 1 ≤ blockReplica)
    {node : BlockNode} {n : MachineID} {manager : BlockManager} (h : node.Shows n manager)
    {may : BlockID → MachineID → Prop} (hsound : node.Sound blockReplica may) (data : Bytes) :
    (node.saveBlock blockReplica n true data 0).2.Shows n (manager.saveBlock true data 0).2 := by
  obtain ⟨hid, hmachine, hmax, hlocal, hfiles⟩ := manager.saveBlock_spec true data 0
  rw [if_pos rfl] at hmax hlocal hfiles
  rw [if_pos rfl] at hlocal hfiles
  have hnext : (node.saveBlock blockReplica n true data 0).1 = manager.nextID := by
    rw [BlockNode.id_of_saveBlock (Prod.mk.eta).symm, if_pos rfl, BlockManager.nextID, h.machineID,
      h.localMax]
    rfl
  have hsave : node.saveBlock blockReplica n true data 0 =
      (manager.nextID, (node.saveBlock blockReplica n true data 0).2) := by
    rw [← hnext]
  have henters := BlockNode.enters_saveBlock hsave
  refine ⟨hmachine.trans h.machineID, ?_, fun id => ?_, ?_⟩
  · rw [hmax, h.localMax, BlockNode.localMax_saveBlock hsave, if_pos rfl]
  · rw [hlocal, henters.localIDs, getElem?_insert_id, Function.update_apply]
    split
    · rw [Option.map_some, henters.attrs, Function.update_self,
        BlockNode.machine_attrOf hreplica, h.machineID]
    · rw [h.localIDs]
      cases hattr : node.localIDs[id]? with
      | none => rfl
      | some attr =>
          have hlt := (hsound.entry (Or.inl hattr)).1
          rw [Option.map_some, Option.map_some, henters.attrs,
            Function.update_of_ne (Nat.ne_of_lt hlt)]
  · rw [hfiles, henters.files, h.files]

namespace StorageNet

section Progress

variable {blockReplica : UInt64} {keyHash : Bytes → Nat} {s : StorageNet} {n : MachineID} {k : Nat}
  {session : Session}

/-- A block is saved on one machine, and the others stay as they are. -/
theorem Intact.exists_save (h : s.Intact blockReplica) (hreplica : 1 ≤ blockReplica) (hn : n ≠ 0)
    {manager : BlockManager} (hshows : (s.net.nodes n).Shows n manager) {data : Bytes}
    (hdata : data.length = blockSize) :
    ∃ net, MaySave blockReplica s.net n true net ∧
      (net.nodes n).Shows n (manager.saveBlock true data 0).2 ∧
      (net.nodes n).localMax = (s.net.nodes n).localMax + 1 ∧
      ∀ m, m ≠ n → net.nodes m = s.net.nodes m := by
  have hsave : (s.net.nodes n).saveBlock blockReplica n true data 0 =
      (((s.net.nodes n).saveBlock blockReplica n true data 0).1,
        ((s.net.nodes n).saveBlock blockReplica n true data 0).2) := Prod.mk.eta.symm
  have hstep := BlockStep.save n data true _ _ hn hdata hsave
  refine ⟨_, Or.inr ⟨data, hstep⟩, ?_, ?_, fun m hm => ?_⟩
  · change (((s.net.act n _ []).nodes n).Shows n _)
    rw [BlockNet.nodes_act_self]
    exact hshows.saveBlock hreplica (h.blocks.truthful.sound.node n) data
  · change ((s.net.act n _ []).nodes n).localMax = _
    rw [BlockNet.nodes_act_self, BlockNode.localMax_saveBlock hsave, if_pos rfl]
  · exact BlockNet.nodes_act_of_ne hm _ []

/-- The next message of an upload can be handled. The upload does not fail if its path is free
and in a directory. -/
theorem Intact.exists_receives (h : s.Intact blockReplica) (hreplica : 1 ≤ blockReplica)
    (hfound : (s.sessions n)[k]? = some session) :
    ∃ msg rest net up outcome, session.left = msg :: rest ∧
      s.Receives blockReplica n k true session rest net up outcome ∧
      (∀ m, m ≠ n → net.nodes m = s.net.nodes m) ∧
      ((net.nodes n).localMax = (s.net.nodes n).localMax ∨
        (net.nodes n).localMax = (s.net.nodes n).localMax + 1) ∧
      ((s.trees n).MayAdd session.file.path → outcome ≠ .failed) := by
  obtain ⟨hn, hfits, ids, hunder⟩ := h.session (List.mem_of_getElem? hfound)
  obtain ⟨manager, hshows⟩ := h.blocks.exists_shows hn
  obtain ⟨ns, addr, hrepr, -⟩ := h.tree n
  have hhas : s.Has n ⟨manager, s.trees n⟩ := ⟨hshows, rfl⟩
  obtain ⟨msg, rest, saves, up, outcome, hleft, hserve, hhandled, hlength⟩ :=
    hunder.handled hfits manager hrepr
  have hmanager : up.manager = savedBy manager saves := by
    cases hhandled with
    | goesOn | failed | completed => rfl
  have hfails : (s.trees n).MayAdd session.file.path → outcome ≠ .failed := by
    cases hhandled with
    | failed saves block hused => exact fun hmay => absurd hmay hused
    | goesOn | completed => exact fun _ => by simp
  cases saves with
  | none =>
      exact ⟨msg, rest, s.net, up, outcome, hleft, ⟨hfound, ⟨msg, _, hleft, hhas, hserve⟩,
        Or.inl rfl, hmanager ▸ hshows⟩, fun _ _ => rfl, Or.inl rfl, hfails⟩
  | some data =>
      obtain ⟨net, hsaves, hshows', hmax, hothers⟩ :=
        h.exists_save hreplica hn hshows (hlength data rfl)
      exact ⟨msg, rest, net, up, outcome, hleft, ⟨hfound, ⟨msg, _, hleft, hhas, hserve⟩,
        hsaves, hmanager ▸ hshows'⟩, hothers, Or.inr hmax, hfails⟩

/-- A file that is entered might be, and is found then. -/
theorem Intact.added_of_addFile (h : s.Intact blockReplica) {path : Bytes} {id : BlockID}
    {tree : FileTree} (hadd : (s.trees n).addFile path id = .ok (tree, true)) :
    (s.trees n).MayAdd path ∧ tree.getMetaID path = .ok id := by
  obtain ⟨ns, addr, hrepr, -⟩ := h.tree n
  obtain ⟨tree', result, hrun, hmay, hadded, -⟩ := hrepr.addFile_spec path id
  obtain ⟨rfl, rfl⟩ := Prod.mk.inj (Except.ok.inj (hadd.symm.trans hrun))
  exact ⟨hmay.mp rfl, (hadded rfl).getMetaID_path⟩

/-- Only this upload has gone on, and it has come to its end. -/
structure Finishes (s s' : StorageNet) (n : MachineID) (k : Nat) (file : PutFile) : Prop where
  sessions : s'.sessions = Function.update s.sessions n ((s.sessions n).eraseIdx k)
  others {m : MachineID} : m ≠ n → s'.net.nodes m = s.net.nodes m ∧ s'.trees m = s.trees m
  entered : (s.trees n).MayAdd file.path → ∃ id, id ≠ 0 ∧ s'.completed = (id, file) :: s.completed ∧
    (s'.trees n).getMetaID file.path = .ok id
  refused : ¬ (s.trees n).MayAdd file.path → s'.completed = s.completed ∧ s'.trees n = s.trees n

/-- How far the counter of the machine can have come, and what its tree has become. -/
structure Enters (s s' : StorageNet) (n : MachineID) (session : Session) : Prop where
  localMax : (s'.net.nodes n).localMax.toNat ≤
    (s.net.nodes n).localMax.toNat + session.left.length
  added : (s.trees n).MayAdd session.file.path → ∃ id,
    s'.completed = (id, session.file) :: s.completed ∧
      (s.trees n).addFile session.file.path id = .ok (s'.trees n, true)

/-- Whatever goes on in the cluster, every upload can be finished, as long as the counter of its
machine does not come around. -/
theorem Intact.exists_finishes (h : s.Intact blockReplica) (hreplica : 1 ≤ blockReplica)
    (keyHash : Bytes → Nat) (hfound : (s.sessions n)[k]? = some session)
    (hroom : (s.net.nodes n).localMax.toNat + session.left.length < 2 ^ 32) :
    ∃ count s', ((storageSystem blockReplica keyHash).restrict Enduring).Steps s
      (List.replicate count (.receive n k true)) s' ∧ s.Finishes s' n k session.file ∧
        s.Enters s' n session := by
  -- the induction is on the messages that are left
  induction hleft : session.left generalizing s session with
  | nil =>
      obtain ⟨msg, rest, -, -, -, hleft', -⟩ := h.exists_receives hreplica hfound
      rw [hleft] at hleft'
      cases hleft'
  | cons msg left ih =>
      obtain ⟨msg', rest, net, up, outcome, hleft', hreceives, hothers, hmax, hfails⟩ :=
        h.exists_receives hreplica hfound
      obtain ⟨rfl, rfl⟩ := List.cons.inj (hleft.symm.trans hleft')
      rw [hleft, List.length_cons] at hroom
      have hcounter : (s.net.nodes n).localMax + 1 ≠ 0 := by
        intro hzero
        have htoNat := congrArg UInt32.toNat hzero
        rw [UInt32.toNat_add] at htoNat
        simp only [UInt32.toNat_one, UInt32.toNat_zero] at htoNat
        omega
      have hgrows : (net.nodes n).localMax.toNat ≤ (s.net.nodes n).localMax.toNat + 1 := by
        rcases hmax with hmax | hmax
        · rw [hmax]
          omega
        · rw [hmax, UInt32.toNat_add, UInt32.toNat_one]
          omega
      obtain ⟨-, ids, hserved⟩ := h.served hreplica hcounter hreceives
      cases hserved with
      | goesOn ids' htree hunder =>
          have hstep := StorageStep.goesOn n k true session left net up hreceives
          have henduring : s.Enduring (.receive n k true) := ⟨rfl, hcounter⟩
          obtain ⟨h₁, -⟩ := h.step hreplica henduring hstep
          have hk := (List.getElem?_eq_some_iff.mp hfound).1
          have hroom₁ : (net.nodes n).localMax.toNat + left.length < 2 ^ 32 := by omega
          obtain ⟨count, s', hsteps, ⟨hsessions, hothers', hentered, hrefused⟩, hmax',
            hadded⟩ := @ih _
            { session with metaBlock := up.metaBlock, left := left } h₁
            (by rw [sessions_serve_self, List.getElem?_set_self hk]) hroom₁ rfl
          refine ⟨count + 1, s', .cons ⟨⟨rfl, hcounter⟩, hstep⟩ hsteps,
            ⟨?_, fun {m} hm => ?_, ?_, ?_⟩, ?_, ?_⟩
          · rw [hsessions, sessions_serve_self, StorageNet.serve, Function.update_idem,
              List.eraseIdx_set_eq]
          · obtain ⟨hnode, htree'⟩ := hothers' hm
            exact ⟨hnode.trans (hothers m hm), htree'.trans (Function.update_of_ne hm _ _)⟩
          · rw [trees_serve_self, htree] at hentered
            exact hentered
          · rw [trees_serve_self, htree] at hrefused
            exact hrefused
          · have hbound : (s'.net.nodes n).localMax.toNat ≤
                (net.nodes n).localMax.toNat + left.length := hmax'
            rw [hleft, List.length_cons]
            omega
          · rw [trees_serve_self, htree] at hadded
            exact hadded
      | failed htree =>
          have hstep := StorageStep.fails n k true session left net up hreceives
          refine ⟨1, _, .cons ⟨⟨rfl, hcounter⟩, hstep⟩ (.nil _), ⟨rfl, fun {m} hm => ?_, fun hmay => ?_,
            fun _ => ⟨rfl, ?_⟩⟩, ?_, fun hmay => ?_⟩
          · exact ⟨hothers m hm, Function.update_of_ne hm _ _⟩
          · exact absurd rfl (hfails hmay)
          · rw [trees_serve_self, htree]
          · rw [hleft, List.length_cons]
            exact Nat.le_trans hgrows (by omega)
          · exact absurd rfl (hfails hmay)
      | completed hid _ hname hadd harchives =>
          have hstep := StorageStep.completes n k true session left net up _ hreceives hname
          obtain ⟨hmay, hget⟩ := h.added_of_addFile hadd
          have htree := trees_serve_self s n net up.tree ((s.sessions n).eraseIdx k)
          refine ⟨1, _, .cons ⟨⟨rfl, hcounter⟩, hstep⟩ (.nil _), ⟨rfl, fun {m} hm => ?_, fun _ => ?_,
            fun hnot => absurd hmay hnot⟩, ?_, fun _ => ⟨up.metaBlock.id, rfl, ?_⟩⟩
          · exact ⟨hothers m hm, Function.update_of_ne hm _ _⟩
          · refine ⟨up.metaBlock.id, hid, rfl, ?_⟩
            rw [StorageNet.serve] at htree ⊢
            rw [htree]
            exact hget
          · rw [hleft, List.length_cons]
            exact Nat.le_trans hgrows (by omega)
          · rw [StorageNet.serve] at htree ⊢
            rw [htree]
            exact hadd

/-- In every state that a cluster can reach, every upload can be finished without waiting for
anyone. It then ends with its file in the tree, or leaves the tree alone, as its path is free
and in a directory or not. -/
theorem upload_of_run (hreplica : 1 ≤ blockReplica) {events : List StorageEvent}
    (hrun : ((storageSystem blockReplica keyHash).restrict Enduring).Run events s)
    (hfound : (s.sessions n)[k]? = some session)
    (hroom : (s.net.nodes n).localMax.toNat + session.left.length < 2 ^ 32) :
    ∃ count s', ((storageSystem blockReplica keyHash).restrict Enduring).Steps s
      (List.replicate count (.receive n k true)) s' ∧ s.Finishes s' n k session.file := by
  obtain ⟨count, s', hsteps, hfinishes, -⟩ :=
    ((invariant_intact hreplica keyHash).run hrun).exists_finishes hreplica keyHash hfound hroom
  exact ⟨count, s', hsteps, hfinishes⟩

end Progress

/-- A file of three bytes. -/
def smallFile : PutFile := ⟨0, ascii "/tmp/f", ascii "/", [1, 2, 3], 0⟩

/-- A cluster in which machine 1 has been asked to take the file. -/
theorem exists_started : ∃ s, ((storageSystem 2 List.length).restrict Enduring).Run
      [.put 1 smallFile] s ∧
    (∃ metaBlock, (s.sessions 1)[0]? = some ⟨smallFile, metaBlock, smallFile.messages⟩) ∧
    s.net = .empty ∧ s.completed = [] ∧ s.trees 1 = .new List.length ∧
    (s.trees 1).MayAdd smallFile.path ∧
    (s.net.nodes 1).localMax.toNat + smallFile.messages.length ≤ 10 := by
  have hfits : smallFile.Fits := by
    rw [PutFile.Fits, length_piecesOf]
    decide
  have hstep := @StorageStep.put 2 (empty List.length) 1 smallFile _ (by decide) newMeta_eq
  refine ⟨_, ⟨_, rfl, .cons ⟨hfits, hstep⟩ (.nil _)⟩, ?_, rfl, rfl, trees_serve_self .., ?_, ?_⟩
  · rw [sessions_serve_self]
    exact ⟨_, rfl⟩
  · rw [trees_serve_self]
    exact ⟨rfl, [], ascii "f", rfl, by decide, 0, rfl⟩
  · rw [PutFile.messages, putMessages, List.length_append, List.length_cons, List.length_map,
      length_piecesOf]
    decide

theorem upload_of_run_example : ∃ s count s', (∃ id, s'.completed = [(id, smallFile)]) ∧
    ((storageSystem 2 List.length).restrict Enduring).Steps s
      (List.replicate count (.receive 1 0 true)) s' := by
  obtain ⟨s, hrun, ⟨metaBlock, hfound⟩, -, hcompleted, -, hmay, hroom⟩ := exists_started
  obtain ⟨count, s', hsteps, hfinishes⟩ :=
    upload_of_run (by decide) hrun hfound (Nat.lt_of_le_of_lt hroom (by decide))
  obtain ⟨id, -, hentered, -⟩ := hfinishes.entered hmay
  rw [hcompleted] at hentered
  exact ⟨s, count, s', ⟨id, hentered⟩, hsteps⟩

end StorageNet

end Doopey
