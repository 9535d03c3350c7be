import Doopey.Block.TruthfulLists

/-!
# Blocks are neither lost nor overwritten

As long as no block is deleted and no counter comes around, every ID that is handed out is
new, and a block stays on every machine that has stored it, with the bytes with which it was
first saved.
-/

namespace Doopey

open Foundation

namespace BlockNode

/-- A relation between the states of a machine that holds whenever only lists, entries of
`remoteIDs` and calls under way change. -/
structure Framed (rel : BlockNode → BlockNode → Prop) : Prop where
  refl (node : BlockNode) : rel node node
  trans {node node' node'' : BlockNode} : rel node node' → rel node' node'' → rel node node''
  modify (node : BlockNode) (attr : Nat) (change : BlockLocationAttr → BlockLocationAttr) :
    rel node (node.modify attr change)
  removeRemoteID (node : BlockNode) (id : BlockID) : rel node (node.removeRemoteID id)
  forceAddRemoteID (blockReplica : UInt64) (node : BlockNode) (m : MachineID) (id : BlockID) :
    rel node (node.forceAddRemoteID blockReplica m id)
  tasks (node : BlockNode) (replicas : List ReplicaTask) (copies : List CopyTask) :
    rel node { node with replicas := replicas, copies := copies }

namespace Framed

variable {rel : BlockNode → BlockNode → Prop} {blockReplica : UInt64} {node node' : BlockNode}

theorem cleanCache (h : Framed rel) (node : BlockNode) : rel node node.cleanCache := by
  have hround (node : BlockNode) : rel node node.eraseFirst := by
    unfold BlockNode.eraseFirst
    split
    · exact h.refl node
    · exact h.removeRemoteID node _
  exact h.trans (hround _) <| h.trans (hround _) <| h.trans (hround _) <|
    h.trans (hround _) (hround _)

theorem checkReplica (h : Framed rel) (node : BlockNode) (attr : Nat) (alive : MachineID → Bool) :
    rel node (node.checkReplica blockReplica attr alive).1 := by
  unfold BlockNode.checkReplica
  dsimp only
  split
  · exact h.trans (h.modify node _ _) (h.removeRemoteID _ _)
  · dsimp only
    exact h.modify node _ _

theorem handleRequestBlockLocationACK (h : Framed rel) {data : Bytes}
    (hrun : node.handleRequestBlockLocationACK blockReplica data = .ok node') : rel node node' := by
  unfold BlockNode.handleRequestBlockLocationACK at hrun
  split at hrun
  · rw [← Except.ok.inj hrun]
    exact h.refl node
  · obtain ⟨⟨id, machines⟩, -, hrun⟩ := bind_eq_ok_iff.mp hrun
    dsimp only at hrun
    split at hrun
    · cases hrun
    · split at hrun
      · rw [← Except.ok.inj hrun]
        exact h.modify node _ _
      · rw [← Except.ok.inj hrun]
        refine h.trans ?_ (h.trans (h.forceAddRemoteID blockReplica _ _ id) (h.modify _ _ _))
        split
        · exact h.cleanCache node
        · exact h.refl node

theorem handleUpdateReplica (h : Framed rel) {data : Bytes}
    (hrun : node.handleUpdateReplica data = .ok node') : rel node node' := by
  unfold BlockNode.handleUpdateReplica at hrun
  obtain ⟨⟨id, machines⟩, -, hrun⟩ := bind_eq_ok_iff.mp hrun
  rw [← Except.ok.inj hrun]
  dsimp only
  cases node.localIDs[id]? with
  | none =>
      cases node.remoteIDs[id]? with
      | none => exact h.refl node
      | some attr => exact h.modify node attr _
  | some attr =>
      cases node.remoteIDs[id]? with
      | none => exact h.modify node attr _
      | some attr' => exact h.trans (h.modify node attr _) (h.modify _ attr' _)

theorem handleDoReplica (h : Framed rel) {pick : List MachineID → UInt64 → List MachineID}
    {data : Bytes} (hrun : node.handleDoReplica blockReplica pick data = .ok node') :
    rel node node' := by
  unfold BlockNode.handleDoReplica at hrun
  obtain ⟨⟨id, machines⟩, -, hrun⟩ := bind_eq_ok_iff.mp hrun
  dsimp only at hrun
  split at hrun
  · rw [← Except.ok.inj hrun]
    exact h.refl node
  · split at hrun
    · rw [← Except.ok.inj hrun]
      exact h.refl node
    · rw [← Except.ok.inj hrun]
      exact h.trans (h.modify node _ _) (h.tasks _ _ _)

/-- Handling a message, unless it has blocks deleted. -/
theorem request (h : Framed rel) {room : Nat}
    {pick : List MachineID → UInt64 → List MachineID}
    {src : MachineID} {msg : BlockMessage} {sends : List (Target × BlockMessage)}
    (hdo : ∀ id, msg ≠ .doDelete id) (hdelete : ∀ id, msg ≠ .deleteBlock id)
    (hrun : node.request blockReplica room pick src msg = .ok (node', sends)) : rel node node' := by
  cases msg with
  | requestBlockLocation asker id =>
      obtain ⟨rfl, -⟩ := Prod.mk.inj (Except.ok.inj hrun)
      exact h.refl node
  | requestBlockLocationACK data =>
      obtain ⟨after, hafter, hrun⟩ := bind_eq_ok_iff.mp hrun
      obtain ⟨rfl, -⟩ := Prod.mk.inj (Except.ok.inj hrun)
      exact h.handleRequestBlockLocationACK hafter
  | doReplica data =>
      obtain ⟨after, hafter, hrun⟩ := bind_eq_ok_iff.mp hrun
      obtain ⟨rfl, -⟩ := Prod.mk.inj (Except.ok.inj hrun)
      exact h.handleDoReplica hafter
  | updateReplica data =>
      obtain ⟨after, hafter, hrun⟩ := bind_eq_ok_iff.mp hrun
      obtain ⟨rfl, -⟩ := Prod.mk.inj (Except.ok.inj hrun)
      exact h.handleUpdateReplica hafter
  | copyBlockFromRemote id =>
      obtain ⟨rfl, -⟩ := Prod.mk.inj (Except.ok.inj hrun)
      exact h.tasks node _ _
  | blockACK id =>
      obtain ⟨rfl, -⟩ := Prod.mk.inj (Except.ok.inj hrun)
      exact h.refl node
  | doDelete id => exact absurd rfl (hdo id)
  | deleteBlock id => exact absurd rfl (hdelete id)

end Framed

/-- The counter of the machine stands where it stood, no file is gone, and a block that is
listed anew has a file. -/
structure Grows (node node' : BlockNode) : Prop where
  localMax : node'.localMax = node.localMax
  files {id : BlockID} : node.files id ≠ none → node'.files id ≠ none
  listed {id : BlockID} : node'.localIDs[id]? ≠ none →
    node.localIDs[id]? ≠ none ∨ node'.files id ≠ none

theorem framed_grows : Framed Grows where
  refl _ := ⟨rfl, fun hfile => hfile, Or.inl⟩
  trans h h' := by
    refine ⟨h'.localMax.trans h.localMax, fun hfile => h'.files (h.files hfile), fun hlisted => ?_⟩
    rcases h'.listed hlisted with hlisted | hfile
    · exact (h.listed hlisted).imp_right h'.files
    · exact Or.inr hfile
  modify _ _ _ := ⟨rfl, fun hfile => hfile, Or.inl⟩
  removeRemoteID _ _ := ⟨rfl, fun hfile => hfile, Or.inl⟩
  forceAddRemoteID _ _ _ _ := ⟨rfl, fun hfile => hfile, Or.inl⟩
  tasks _ _ _ := ⟨rfl, fun hfile => hfile, Or.inl⟩

section SaveBlock

variable {blockReplica : UInt64} {me : MachineID} {node node' : BlockNode} {opens : Bool}
  {data : Bytes} {id newID : BlockID}

theorem localMax_saveBlock
    (hsave : node.saveBlock blockReplica me opens data id = (newID, node')) :
    node'.localMax = if id = 0 then node.localMax + 1 else node.localMax := by
  have hadd (node : BlockNode) (id : BlockID) :
      (node.addLocalID blockReplica me id).localMax = node.localMax := by
    unfold BlockNode.addLocalID
    split
    · rfl
    · rfl
  have hnode : node' = (node.saveBlock blockReplica me opens data id).2 := by rw [hsave]
  unfold BlockNode.saveBlock at hnode
  by_cases hid : id = 0
  · rw [if_pos hid] at hnode
    rw [if_pos hid, hnode]
    cases opens with
    | false => rfl
    | true => exact hadd _ _
  · rw [if_neg hid] at hnode
    rw [if_neg hid, hnode]
    cases opens with
    | false => rfl
    | true => exact hadd _ _

/-- Saving a block takes no file away, and lists a block only with its file. -/
theorem files_saveBlock (hsave : node.saveBlock blockReplica me opens data id = (newID, node'))
    (other : BlockID) : (node.files other ≠ none → node'.files other ≠ none) ∧
      (node'.localIDs[other]? ≠ none → node.localIDs[other]? ≠ none ∨ node'.files other ≠ none) := by
  cases opens with
  | false =>
      rcases @saveBlock_spec blockReplica (fun _ => none) node me false data id newID node' hsave
        with ⟨-, -, hquiet⟩ | ⟨hopens, -⟩
      · rw [hquiet.files, hquiet.localIDs]
        exact ⟨fun hfile => hfile, Or.inl⟩
      · cases hopens
  | true =>
      have henters := enters_saveBlock hsave
      rw [henters.files, henters.localIDs, Function.update_apply, getElem?_insert_id]
      split
      · exact ⟨fun _ => Option.some_ne_none data, fun _ => Or.inr (Option.some_ne_none data)⟩
      · exact ⟨fun hfile => hfile, Or.inl⟩

/-- A block that has an ID is saved under it. -/
theorem Grows.saveBlock (hid : id ≠ 0)
    (hsave : node.saveBlock blockReplica me opens data id = (newID, node')) : node.Grows node' where
  localMax := by rw [localMax_saveBlock hsave, if_neg hid]
  files := (files_saveBlock hsave _).1
  listed := (files_saveBlock hsave _).2

end SaveBlock

end BlockNode

namespace BlockNet

/-- No block is deleted, and the counter of a machine that saves one has not come around. -/
def Enduring (net : BlockNet) : BlockEvent → Prop
  | .delete _ _ => False
  | .save n _ _ => (net.nodes n).localMax + 1 ≠ 0
  | _ => True

/-- No block has an ID that a machine has yet to hand out. -/
def Fresh (net : BlockNet) : Prop :=
  ∀ n count, (net.nodes n).localMax < count → net.first (buildBlockID n count) = none

/-- Whatever a machine has of a block, it keeps, and the first contents of a block stay. -/
structure Keeps (net net' : BlockNet) : Prop where
  first {id : BlockID} {data : Bytes} : net.first id = some data → net'.first id = some data
  files {m : MachineID} {id : BlockID} {data : Bytes} : (net.nodes m).files id = some data →
    (net'.nodes m).files id = some data

theorem Keeps.refl (net : BlockNet) : net.Keeps net := ⟨fun hfirst => hfirst, fun hfile => hfile⟩

theorem Keeps.trans {net net' net'' : BlockNet} (h : net.Keeps net') (h' : net'.Keeps net'') :
    net.Keeps net'' :=
  ⟨fun hfirst => h'.first (h.first hfirst), fun hfile => h'.files (h.files hfile)⟩

/-- A block stays on the machines that store it. -/
theorem Keeps.stores {net net' : BlockNet} (h : net.Keeps net') {id : BlockID} {m : MachineID}
    (hstored : net.Stores id m) : net'.Stores id m := by
  obtain ⟨data, hfirst, hfile⟩ := hstored
  exact ⟨data, h.first hfirst, h.files hfile⟩

section Steps

variable {blockReplica : UInt64} {net net' : BlockNet} {event : BlockEvent}

theorem localMax_lt_add_one {count : LocalBlockID} (hcount : count + 1 ≠ 0) : count < count + 1 := by
  rw [UInt32.lt_iff_toNat_lt]
  have hne : (count + 1).toNat ≠ 0 := fun hzero => hcount (UInt32.toNat_inj.mp hzero)
  have hlt := count.toNat_lt
  rw [UInt32.toNat_add] at hne ⊢
  simp only [UInt32.toNat_one] at hne ⊢
  omega

theorem Fresh.lasting (h : net.Fresh) (henduring : net.Enduring event) : net.Lasting event := by
  cases event with
  | save n data opens =>
      exact h n _ (localMax_lt_add_one henduring)
  | delete n id => exact henduring
  | _ => trivial

theorem grows_act {n : MachineID} {node : BlockNode} {sends : List (Target × BlockMessage)}
    (hnode : (net.nodes n).Grows node) (m : MachineID) :
    (net.nodes m).Grows ((net.act n node sends).nodes m) := by
  by_cases hm : m = n
  · subst hm
    rw [nodes_act_self]
    exact hnode
  · rw [nodes_act_of_ne hm]
    exact BlockNode.framed_grows.refl _

/-- A step that saves no new block takes nothing from any machine. -/
theorem Truthful.grows (h : net.Truthful blockReplica) (hlasting : net.Lasting event)
    (hsave : ∀ n data opens, event ≠ .save n data opens)
    (hstep : BlockStep blockReplica net event net') :
    net'.first = net.first ∧ ∀ m, (net.nodes m).Grows (net'.nodes m) := by
  have hframed := BlockNode.framed_grows
  cases hstep with
  | save n data opens => exact absurd rfl (hsave n data opens)
  | askRemote n id => exact ⟨rfl, grows_act (hframed.refl _)⟩
  | check n id attr alive => exact ⟨rfl, grows_act (hframed.checkReplica _ attr alive)⟩
  | forget n id => exact ⟨rfl, grows_act (hframed.removeRemoteID _ id)⟩
  | checkAll n id attr pick node hlocal hpick hrun =>
      exact ⟨rfl, grows_act (hframed.handleDoReplica hrun)⟩
  | delete n id => exact absurd hlasting not_false
  | deliver n src msg rest room pick node sends hflight hpick hrun =>
      have hmem : (src, msg) ∈ net.inFlight n := by
        rw [hflight]
        exact Multiset.mem_cons_self _ _
      have hmsg := h.flight hmem
      refine ⟨rfl, @grows_act (net.without n rest) n node sends ?_⟩
      refine hframed.request ?_ ?_ hrun
      · rintro id rfl
        exact hmsg
      · rintro id rfl
        exact hmsg
  | drop n src msg rest => exact ⟨rfl, fun m => hframed.refl _⟩
  | askCopy n k task m rest => exact ⟨rfl, grows_act (hframed.tasks _ _ _)⟩
  | skipCopy n k task m rest => exact ⟨rfl, grows_act (hframed.tasks _ _ _)⟩
  | takeCopy n k task m rest flight =>
      refine ⟨rfl, @grows_act (net.without n flight) n _ _ ?_⟩
      exact hframed.trans (hframed.modify _ _ _) (hframed.tasks _ _ _)
  | finish n k task => exact ⟨rfl, grows_act (hframed.tasks _ _ _)⟩
  | load n k task content => exact ⟨rfl, grows_act (hframed.tasks _ _ _)⟩
  | loadFails n k task =>
      exact ⟨rfl, grows_act (hframed.trans (hframed.tasks _ _ _) (hframed.removeRemoteID _ _))⟩
  | store n k opens task data id node htask hdata hsaved =>
      have hfirst := (h.node n).copy (List.mem_of_getElem? htask) hdata
      have hne : task.block ≠ 0 := by
        intro hzero
        rw [hzero, h.zero] at hfirst
        cases hfirst
      exact ⟨rfl, grows_act (hframed.trans (hframed.tasks _ _ _) (.saveBlock hne hsaved))⟩

theorem first_remember {id id' : BlockID} {data content : Bytes} (hfirst : net.first id' = some content) :
    (net.remember id data).first id' = some content := by
  unfold remember
  dsimp only
  split
  · exact hfirst
  · rw [Function.update_apply]
    split
    next heq => rw [← heq, hfirst, Option.some_or]
    next => exact hfirst

/-- What the cluster keeps when no block is deleted and no counter comes around. A block stays
on the machine that its ID names. -/
structure Lasts (blockReplica : UInt64) (net : BlockNet) : Prop where
  truthful : net.Truthful blockReplica
  fresh : net.Fresh
  filed {n : MachineID} {id : BlockID} : (net.nodes n).localIDs[id]? ≠ none →
    (net.nodes n).files id ≠ none
  home {n : MachineID} {count : LocalBlockID} : net.first (buildBlockID n count) ≠ none →
    (net.nodes n).files (buildBlockID n count) ≠ none

/-- A block that is saved for the first time has the next ID of the machine that saves it. -/
theorem new_of_remember {n : MachineID} {data : Bytes} {opens : Bool} {newID id : BlockID}
    {node : BlockNode}
    (hsave : (net.nodes n).saveBlock blockReplica n opens data 0 = (newID, node))
    (hnew : ((net.act n node []).remember newID data).first id ≠ none) :
    net.first id ≠ none ∨
      id = buildBlockID n ((net.nodes n).localMax + 1) ∧ node.files id = some data := by
  unfold remember at hnew
  dsimp only at hnew
  split at hnew
  · exact Or.inl hnew
  next hne =>
    rw [Function.update_apply] at hnew
    split at hnew
    next heq =>
      rcases @BlockNode.saveBlock_spec blockReplica net.first _ _ _ _ _ _ _ hsave with
        ⟨-, hzero, -⟩ | ⟨-, hid, hsaves⟩
      · exact absurd hzero hne
      · rw [if_pos rfl] at hid
        rw [hsaves.files, heq, Function.update_self]
        exact Or.inr ⟨hid, rfl⟩
    next => exact Or.inl hnew

/-- The machine that saves a block hands out the ID behind its counter. -/
theorem Fresh.save (h : net.Fresh) {n : MachineID} {data : Bytes} {opens : Bool} {id : BlockID}
    {node : BlockNode} (henduring : net.Enduring (.save n data opens))
    (hsave : (net.nodes n).saveBlock blockReplica n opens data 0 = (id, node)) :
    ((net.act n node []).remember id data).Fresh := by
  have hlt := localMax_lt_add_one henduring
  have hmax : node.localMax = (net.nodes n).localMax + 1 := by
    rw [BlockNode.localMax_saveBlock hsave, if_pos rfl]
  have hid : id = 0 ∨ id = buildBlockID n ((net.nodes n).localMax + 1) := by
    rcases @BlockNode.saveBlock_spec blockReplica net.first _ _ _ _ _ _ _ hsave with
      ⟨-, hzero, -⟩ | ⟨-, hid, -⟩
    · exact Or.inl hzero
    · exact Or.inr (hid.trans (if_pos rfl))
  intro m count hcount
  have hold : (net.nodes m).localMax < count := by
    by_cases hm : m = n
    · subst hm
      have hcount' : node.localMax < count := by
        rwa [← nodes_act_self net m node []]
      rw [hmax] at hcount'
      exact UInt32.lt_trans hlt hcount'
    · rwa [← nodes_act_of_ne hm node []]
  have hnone := h m count hold
  have hother : id ≠ 0 → buildBlockID m count ≠ id := by
    intro hne heq
    have hid' := heq.trans (hid.resolve_left hne)
    obtain rfl : m = n := by
      have hmachine := congrArg getMachineIDFromBlockID hid'
      rwa [getMachineIDFromBlockID_buildBlockID, getMachineIDFromBlockID_buildBlockID] at hmachine
    obtain rfl : count = (net.nodes m).localMax + 1 := by
      have hlocal := congrArg getLocalIDFromBlockID hid'
      rwa [getLocalIDFromBlockID_buildBlockID, getLocalIDFromBlockID_buildBlockID] at hlocal
    have hcount' : node.localMax < (net.nodes m).localMax + 1 := by
      rwa [← nodes_act_self net m node []]
    rw [hmax] at hcount'
    exact UInt32.lt_irrefl _ hcount'
  unfold remember
  dsimp only
  split
  · exact hnone
  next hne =>
    rw [Function.update_of_ne (hother hne)]
    exact hnone

theorem Lasts.step (h : net.Lasts blockReplica) (hreplica : 1 ≤ blockReplica)
    (henduring : net.Enduring event) (hstep : BlockStep blockReplica net event net') :
    net'.Lasts blockReplica ∧ net.Keeps net' := by
  have hlasting := h.fresh.lasting henduring
  have htruthful := h.truthful.step hreplica hlasting hstep
  -- a file that is still there has the first contents of its block
  have hkeeps (hfirst : ∀ {id data}, net.first id = some data → net'.first id = some data)
      (hfiles : ∀ {m id}, (net.nodes m).files id ≠ none → (net'.nodes m).files id ≠ none) :
      net.Keeps net' := by
    refine ⟨hfirst, fun {m id data} hfile => ?_⟩
    have hold := hfirst ((h.truthful.node m).file hfile)
    obtain ⟨data', hfile'⟩ := Option.ne_none_iff_exists'.mp
      (hfiles (fun hnone => Option.some_ne_none data (hfile.symm.trans hnone)))
    rw [hfile', ← (htruthful.node m).file hfile', hold]
  by_cases hsave : ∃ n data opens, event = .save n data opens
  · obtain ⟨n, data, opens, rfl⟩ := hsave
    cases hstep with
    | save n data opens id node hn hdata hsave =>
        have hblocks (m : MachineID) (id' : BlockID) :
            ((net.nodes m).files id' ≠ none → ((net.act n node []).nodes m).files id' ≠ none) ∧
              (((net.act n node []).nodes m).localIDs[id']? ≠ none →
                (net.nodes m).localIDs[id']? ≠ none ∨
                  ((net.act n node []).nodes m).files id' ≠ none) := by
          by_cases hm : m = n
          · subst hm
            rw [nodes_act_self]
            exact BlockNode.files_saveBlock hsave id'
          · rw [nodes_act_of_ne hm]
            exact ⟨fun hfile => hfile, Or.inl⟩
        refine ⟨⟨htruthful, h.fresh.save henduring hsave, fun {m id'} hlisted => ?_,
          fun {m count} hnew => ?_⟩, hkeeps first_remember (hblocks _ _).1⟩
        · rcases (hblocks m id').2 hlisted with hlisted | hfile
          · exact (hblocks m id').1 (h.filed hlisted)
          · exact hfile
        · rcases new_of_remember hsave hnew with hold | ⟨hid, hfile⟩
          · exact (hblocks m _).1 (h.home hold)
          · have hmachine := congrArg getMachineIDFromBlockID hid
            rw [getMachineIDFromBlockID_buildBlockID] at hmachine
            obtain rfl : m = n := hmachine.trans (getMachineIDFromBlockID_buildBlockID _ _)
            have hnode : ((net.act m node []).nodes m).files (buildBlockID m count) = some data := by
              rw [nodes_act_self, hfile]
            exact fun hnone => Option.some_ne_none data (hnode.symm.trans hnone)
  · obtain ⟨hfirst, hgrows⟩ := h.truthful.grows hlasting
      (fun n data opens heq => hsave ⟨n, data, opens, heq⟩) hstep
    refine ⟨⟨htruthful, fun n count hcount => ?_, fun {n id} hlisted => ?_,
      fun {n count} hfirst' => ?_⟩, hkeeps ?_ (hgrows _).files⟩
    · rw [hfirst]
      rw [(hgrows n).localMax] at hcount
      exact h.fresh n count hcount
    · rcases (hgrows n).listed hlisted with hlisted | hfile
      · exact (hgrows n).files (h.filed hlisted)
      · exact hfile
    · rw [hfirst] at hfirst'
      exact (hgrows n).files (h.home hfirst')
    · intro id data hold
      rw [hfirst]
      exact hold

theorem lasts_empty : empty.Lasts blockReplica where
  truthful := truthful_empty
  fresh _ _ _ := rfl
  filed hlisted := absurd hlisted (by simp [empty, BlockNode.empty])
  home hfirst := absurd rfl hfirst

end Steps

/-- In every run without deletions in which no counter comes around, a new block gets an ID
under which no machine lists or has a block. The machine that saves it has it from then on, and
whoever has a block with this ID has the bytes that were saved. -/
theorem stored_of_saved {blockReplica : UInt64} (hreplica : 1 ≤ blockReplica)
    {events : List BlockEvent} {before : BlockNet} {n : MachineID} {data : Bytes} {id : BlockID}
    {node : BlockNode} (hrun : ((blockSystem blockReplica).restrict Enduring).Run events before)
    (henduring : before.Enduring (.save n data true)) (hn : n ≠ 0) (hdata : data.length = blockSize)
    (hsave : (before.nodes n).saveBlock blockReplica n true data 0 = (id, node)) :
    (∀ m, (before.nodes m).localIDs[id]? = none ∧ (before.nodes m).files id = none) ∧
      ∀ rest after, ((blockSystem blockReplica).restrict Enduring).Steps
          ((before.act n node []).remember id data) rest after →
        (after.nodes n).files id = some data ∧
          ∀ m content, (after.nodes m).files id = some content → content = data := by
  have hstep {before after : BlockNet} {event : BlockEvent} (h : before.Lasts blockReplica)
      (hstep : ((blockSystem blockReplica).restrict Enduring).step before event after) :
      after.Lasts blockReplica ∧ before.Keeps after := h.step hreplica hstep.1 hstep.2
  have hbefore : before.Lasts blockReplica := by
    obtain ⟨start, rfl, hsteps⟩ := hrun
    exact (hsteps.relates Keeps.refl Keeps.trans hstep lasts_empty).1
  obtain ⟨hsaved, -⟩ := hbefore.step hreplica henduring (.save n data true id node hn hdata hsave)
  rcases @BlockNode.saveBlock_spec blockReplica before.first _ _ _ _ _ _ _ hsave with
    ⟨hfails, -⟩ | ⟨-, hid, hsaves⟩
  · cases hfails
  have hnew : before.first id = none := by
    rw [hid]
    exact hbefore.fresh.lasting henduring
  have hnone (m : MachineID) : (before.nodes m).files id = none := by
    by_contra hfile
    obtain ⟨content, hcontent⟩ := Option.ne_none_iff_exists'.mp hfile
    have hfirst := (hbefore.truthful.node m).file hcontent
    rw [hnew] at hfirst
    cases hfirst
  refine ⟨fun m => ⟨?_, hnone m⟩, fun rest after hrest => ?_⟩
  · by_contra hlisted
    exact hbefore.filed hlisted (hnone m)
  obtain ⟨hafter, hkeeps⟩ := hrest.relates Keeps.refl Keeps.trans hstep hsaved
  have hstored : (after.nodes n).files id = some data := by
    apply hkeeps.files
    change ((before.act n node []).nodes n).files id = some data
    rw [nodes_act_self, hsaves.files, Function.update_self]
  refine ⟨hstored, fun m content hcontent => ?_⟩
  have hfirst := (hafter.truthful.node n).file hstored
  have hfirst' := (hafter.truthful.node m).file hcontent
  rw [hfirst] at hfirst'
  exact (Option.some.inj hfirst').symm

/-- A second block that machine 1 saves, and one after that. -/
theorem stored_of_saved_example : ∃ id node after,
    (oneBlock.nodes 1).saveBlock 2 1 true allocateMem 0 = (id, node) ∧
      ((blockSystem 2).restrict Enduring).Steps
        ((oneBlock.act 1 node []).remember id allocateMem) [.save 1 allocateMem true] after ∧
      (after.nodes 1).files id = some allocateMem ∧
      ∀ m, (oneBlock.nodes m).localIDs[id]? = none ∧ (oneBlock.nodes m).files id = none := by
  have henduring : (empty.nodes 1).localMax + 1 ≠ 0 := by decide
  have henduring' : oneBlock.Enduring (.save 1 allocateMem true) := by
    change (oneBlock.nodes 1).localMax + 1 ≠ 0
    decide
  have hrun : ((blockSystem 2).restrict Enduring).Run [.save 1 allocateMem true] oneBlock :=
    ⟨empty, rfl, .cons ⟨henduring, BlockStep.save 1 _ true _ _ (by decide)
      List.length_replicate rfl⟩ (.nil _)⟩
  obtain ⟨id, node, hsave, hmax⟩ : ∃ id node,
      (oneBlock.nodes 1).saveBlock 2 1 true allocateMem 0 = (id, node) ∧ node.localMax + 1 ≠ 0 :=
    ⟨_, _, rfl, by decide⟩
  obtain ⟨hnone, hstays⟩ := stored_of_saved (by decide) hrun henduring' (by decide)
    List.length_replicate hsave
  have henduring'' : ((oneBlock.act 1 node []).remember id allocateMem).Enduring
      (.save 1 allocateMem true) := by
    change ((oneBlock.act 1 node []).nodes 1).localMax + 1 ≠ 0
    rwa [nodes_act_self]
  have hrest := @System.Steps.cons _ _ ((blockSystem 2).restrict Enduring) _ _ _ _ _ ⟨henduring'',
    BlockStep.save 1 _ true _ _ (by decide) List.length_replicate rfl⟩ (.nil _)
  exact ⟨id, node, _, hsave, hrest, (hstays _ _ hrest).1, hnone⟩

end BlockNet

end Doopey
