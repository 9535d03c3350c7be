import Doopey.Block.Deletions
import Doopey.Block.LastingBlocks

/-!
# Blocks that are not deleted

While some blocks are deleted, at any time and by messages that arrive when they may, the others
are neither lost nor overwritten, and what the machines know of them is true.
-/

namespace Doopey

open Foundation

/-- What a message says of a block is true if the block is not doomed, and only doomed blocks
are deleted. -/
def BlockMessage.Spares (doomed : BlockID → Prop) (stores : BlockID → MachineID → Prop)
    (src : MachineID) : BlockMessage → Prop
  | blockACK id => doomed id ∨ stores id src
  | doDelete id | deleteBlock id => doomed id
  | _ => True

theorem BlockMessage.Spares.mono {doomed doomed' : BlockID → Prop}
    {stores stores' : BlockID → MachineID → Prop} {src : MachineID} {msg : BlockMessage}
    (h : msg.Spares doomed stores src) (hdoomed : ∀ id, doomed id → doomed' id)
    (hstores : ∀ id m, stores id m → doomed' id ∨ stores' id m) :
    msg.Spares doomed' stores' src := by
  cases msg with
  | blockACK id => exact h.elim (fun hid => Or.inl (hdoomed id hid)) (hstores id src)
  | doDelete id => exact hdoomed id h
  | deleteBlock id => exact hdoomed id h
  | _ => exact trivial

namespace BlockNode

section Handlers

variable {blockReplica : UInt64} {node node' : BlockNode}
  {room : Nat} {pick : List MachineID → UInt64 → List MachineID}

theorem framed_localMax : Framed fun node node' => node'.localMax = node.localMax where
  refl _ := rfl
  trans h h' := h'.trans h
  modify _ _ _ := rfl
  removeRemoteID _ _ := rfl
  forceAddRemoteID _ _ _ _ := rfl
  tasks _ _ _ := rfl

theorem afterDoDelete_frame (node : BlockNode) (id : BlockID) :
    (node.afterDoDelete id).1.localMax = node.localMax ∧
      (node.afterDoDelete id).1.copies = node.copies := by
  unfold BlockNode.afterDoDelete
  split
  · exact ⟨rfl, rfl⟩
  · exact ⟨rfl, rfl⟩

theorem afterDelete_frame (node : BlockNode) (me : MachineID) (id : BlockID) :
    (node.afterDelete me id).1.localMax = node.localMax ∧
      (node.afterDelete me id).1.copies = node.copies := by
  unfold BlockNode.afterDelete
  split
  · exact ⟨rfl, rfl⟩
  · split
    · exact ⟨rfl, rfl⟩
    · split
      · exact afterDoDelete_frame node id
      · exact ⟨rfl, rfl⟩

theorem copies_handleDoReplica {data : Bytes}
    (hrun : node.handleDoReplica blockReplica pick data = .ok node') :
    node'.copies = node.copies := by
  unfold BlockNode.handleDoReplica at hrun
  obtain ⟨⟨id, machines⟩, -, hrun⟩ := bind_eq_ok_iff.mp hrun
  dsimp only at hrun
  split at hrun
  · rw [← Except.ok.inj hrun]
  · split at hrun
    · rw [← Except.ok.inj hrun]
    · rw [← Except.ok.inj hrun]
      rfl

/-- Handling a message leaves the counter alone, and brings no copy that is loaded. A message
that has a block deleted is about a block that some message has deleted. -/
theorem request_frame {src : MachineID} {msg : BlockMessage}
    {sends : List (Target × BlockMessage)} {doomed : BlockID → Prop}
    {stores : BlockID → MachineID → Prop} (hmsg : msg.Spares doomed stores src)
    (hrun : node.request blockReplica room pick src msg = .ok (node', sends)) :
    node'.localMax = node.localMax ∧
      (∀ task ∈ node'.copies, task ∈ node.copies ∨ task.data = none) ∧
      ∀ send ∈ sends, ∀ src, send.2.Spares doomed (fun _ _ => False) src := by
  have hsilent : ∀ send ∈ ([] : List (Target × BlockMessage)), ∀ src,
      send.2.Spares doomed (fun _ _ => False) src := fun _ hsend => absurd hsend List.not_mem_nil
  have hquiet (hquiet : Quiet (fun _ => none) node node') :
      ∀ task ∈ node'.copies, task ∈ node.copies ∨ task.data = none := by
    intro task htask
    refine (hquiet.copy htask).imp_right fun hfirst => ?_
    cases hdata : task.data with
    | none => rfl
    | some data => cases hfirst data hdata
  cases msg with
  | requestBlockLocation asker id =>
      obtain ⟨rfl, rfl⟩ := Prod.mk.inj (Except.ok.inj hrun)
      refine ⟨rfl, fun _ => Or.inl, fun send hsend src => ?_⟩
      rw [List.mem_singleton.mp hsend]
      exact trivial
  | requestBlockLocationACK data =>
      obtain ⟨after, hafter, hrun⟩ := bind_eq_ok_iff.mp hrun
      obtain ⟨rfl, rfl⟩ := Prod.mk.inj (Except.ok.inj hrun)
      exact ⟨framed_localMax.handleRequestBlockLocationACK hafter,
        hquiet (.handleRequestBlockLocationACK hafter), hsilent⟩
  | doReplica data =>
      obtain ⟨after, hafter, hrun⟩ := bind_eq_ok_iff.mp hrun
      obtain ⟨rfl, rfl⟩ := Prod.mk.inj (Except.ok.inj hrun)
      refine ⟨framed_localMax.handleDoReplica hafter, fun task htask => ?_, hsilent⟩
      rw [copies_handleDoReplica hafter] at htask
      exact Or.inl htask
  | updateReplica data =>
      obtain ⟨after, hafter, hrun⟩ := bind_eq_ok_iff.mp hrun
      obtain ⟨rfl, rfl⟩ := Prod.mk.inj (Except.ok.inj hrun)
      exact ⟨framed_localMax.handleUpdateReplica hafter, hquiet (.handleUpdateReplica hafter),
        hsilent⟩
  | copyBlockFromRemote id =>
      obtain ⟨rfl, rfl⟩ := Prod.mk.inj (Except.ok.inj hrun)
      refine ⟨rfl, fun task htask => ?_, hsilent⟩
      rcases List.mem_cons.mp htask with rfl | hold
      · exact Or.inr rfl
      · exact Or.inl hold
  | blockACK id =>
      obtain ⟨rfl, rfl⟩ := Prod.mk.inj (Except.ok.inj hrun)
      exact ⟨rfl, fun _ => Or.inl, hsilent⟩
  | doDelete id =>
      obtain ⟨hmax, hcopies⟩ := afterDoDelete_frame node id
      have hsends := fun send => @mem_afterDoDelete node id send
      rw [(eq_of_handleDoDelete hrun).2] at hmax hcopies hsends
      refine ⟨hmax, fun task htask => Or.inl (hcopies ▸ htask), fun send hsend src => ?_⟩
      rw [hsends send hsend]
      exact hmsg
  | deleteBlock id =>
      obtain ⟨-, rfl, rfl⟩ := eq_of_request_deleteBlock hrun
      exact ⟨rfl, fun _ => Or.inl, hsilent⟩

end Handlers

end BlockNode

namespace BlockNet

/-- Only doomed blocks are deleted, no counter comes around, and no alive check takes machines
out of a list that copies are being made for. -/
def Sparing (doomed : BlockID → Prop) (net : BlockNet) : BlockEvent → Prop
  | .delete _ id => doomed id
  | .save n _ _ => (net.nodes n).localMax + 1 ≠ 0
  | event => net.Undisturbed event

/-- What a cluster keeps in which only doomed blocks are deleted. -/
structure Spares (blockReplica : UInt64) (doomed : BlockID → Prop) (net : BlockNet) : Prop where
  sound : net.Sound blockReplica fun id m => doomed id ∨ net.Stores id m
  file {n : MachineID} {id : BlockID} {data : Bytes} : (net.nodes n).files id = some data →
    net.first id = some data
  held (n : MachineID) (id : BlockID) :
    (net.nodes n).files id ≠ none ↔ (net.nodes n).localIDs[id]? ≠ none
  copy {n : MachineID} {task : CopyTask} {data : Bytes} : task ∈ (net.nodes n).copies →
    task.data = some data → net.first task.block = some data
  flight {n : MachineID} {sent : MachineID × BlockMessage} : sent ∈ net.inFlight n →
    sent.2.Spares doomed net.Stores sent.1
  length {id : BlockID} {data : Bytes} : net.first id = some data → data.length = blockSize
  zero : net.first 0 = none
  fresh : net.Fresh
  home {n : MachineID} {count : LocalBlockID} : ¬ doomed (buildBlockID n count) →
    net.first (buildBlockID n count) ≠ none → (net.nodes n).files (buildBlockID n count) ≠ none

/-- The first contents of every block stay, and so does a block that is kept. -/
structure KeepsOn (kept : BlockID → Prop) (net net' : BlockNet) : Prop where
  first {id : BlockID} {data : Bytes} : net.first id = some data → net'.first id = some data
  files {m : MachineID} {id : BlockID} {data : Bytes} : kept id →
    (net.nodes m).files id = some data → (net'.nodes m).files id = some data

section Keeps

variable {kept kept' : BlockID → Prop} {net net' net'' : BlockNet}

theorem KeepsOn.refl (net : BlockNet) : net.KeepsOn kept net :=
  ⟨fun hfirst => hfirst, fun _ hfile => hfile⟩

theorem KeepsOn.trans (h : net.KeepsOn kept net') (h' : net'.KeepsOn kept net'') :
    net.KeepsOn kept net'' :=
  ⟨fun hfirst => h'.first (h.first hfirst), fun hid hfile => h'.files hid (h.files hid hfile)⟩

theorem KeepsOn.mono (h : net.KeepsOn kept net') (hkept : ∀ id, kept' id → kept id) :
    net.KeepsOn kept' net' :=
  ⟨h.first, fun {_ id _} hid hfile => h.files (hkept id hid) hfile⟩

theorem Keeps.on (h : net.Keeps net') : net.KeepsOn kept net' :=
  ⟨h.first, fun _ => h.files⟩

theorem KeepsOn.stores (h : net.KeepsOn kept net') {id : BlockID} {m : MachineID} (hid : kept id)
    (hstored : net.Stores id m) : net'.Stores id m := by
  obtain ⟨data, hfirst, hfile⟩ := hstored
  exact ⟨data, h.first hfirst, h.files hid hfile⟩

end Keeps

section Steps

variable {blockReplica : UInt64} {doomed doomed' : BlockID → Prop} {net net' : BlockNet}
  {event : BlockEvent}

theorem spares_empty : empty.Spares blockReplica doomed where
  sound := sound_empty
  file hfile := absurd hfile (by simp [empty, BlockNode.empty])
  held _ _ := by simp [empty, BlockNode.empty]
  copy htask := absurd htask List.not_mem_nil
  flight hmem := absurd hmem (Multiset.notMem_zero _)
  length hfirst := absurd hfirst (by simp [empty])
  zero := rfl
  fresh _ _ _ := rfl
  home _ hfirst := absurd rfl hfirst

/-- More blocks may be doomed. -/
theorem Spares.mono (h : net.Spares blockReplica doomed) (hdoomed : ∀ id, doomed id → doomed' id) :
    net.Spares blockReplica doomed' :=
  { h with
    sound := h.sound.mono fun id _ hmay => hmay.imp_left (hdoomed id)
    flight := fun hmem => (h.flight hmem).mono hdoomed fun _ _ => Or.inr
    home := fun hid => h.home fun hold => hid (hdoomed _ hold) }

/-- What a step does that saves nothing. -/
structure Sheds (doomed : BlockID → Prop) (net net' : BlockNet) : Prop where
  first : net'.first = net.first
  localMax {m : MachineID} {count : LocalBlockID} : (net'.nodes m).localMax < count →
    (net.nodes m).localMax < count
  block (m : MachineID) (id : BlockID) : BlockNode.Same id (net.nodes m) (net'.nodes m) ∨
    doomed id ∧ (net'.nodes m).Absent id
  copy {m : MachineID} {task : CopyTask} : task ∈ (net'.nodes m).copies →
    task ∈ (net.nodes m).copies ∨ ∀ data, task.data = some data → net.first task.block = some data
  flight {m : MachineID} {sent : MachineID × BlockMessage} : sent ∈ net'.inFlight m →
    sent ∈ net.inFlight m ∨ sent.2.Spares doomed (fun _ _ => False) sent.1

/-- A block that is not doomed stays where it is. -/
theorem Sheds.keeps (h : net.Sheds doomed net') : net.KeepsOn (fun id => ¬ doomed id) net' := by
  refine ⟨fun {id data} hfirst => ?_, fun {m id data} hid hfile => ?_⟩
  · rw [h.first]
    exact hfirst
  · rcases h.block m id with ⟨-, hsame⟩ | ⟨hdoomed, -⟩
    · rw [hsame]
      exact hfile
    · exact absurd hdoomed hid

theorem Spares.sheds (h : net.Spares blockReplica doomed) (hsheds : net.Sheds doomed net')
    (hsound : (∀ id m, net.Stores id m → doomed id ∨ net'.Stores id m) →
      net'.Sound blockReplica fun id m => doomed id ∨ net'.Stores id m) :
    net'.Spares blockReplica doomed := by
  have hstores (id : BlockID) (m : MachineID) (hstored : net.Stores id m) :
      doomed id ∨ net'.Stores id m := by
    by_cases hid : doomed id
    · exact Or.inl hid
    · exact Or.inr (hsheds.keeps.stores hid hstored)
  refine ⟨hsound hstores, fun {n id data} hfile => ?_, fun n id => ?_, fun htask hdata => ?_,
    fun hmem => ?_, ?_, ?_, fun n count hcount => ?_, fun {n count} hid hfirst => ?_⟩
  · rw [hsheds.first]
    rcases hsheds.block n id with ⟨-, hsame⟩ | ⟨-, -, habsent⟩
    · rw [hsame] at hfile
      exact h.file hfile
    · rw [habsent] at hfile
      cases hfile
  · rcases hsheds.block n id with ⟨hlocal, hfiles⟩ | ⟨-, hlocal, hfiles⟩
    · rw [hlocal, hfiles]
      exact h.held n id
    · rw [hlocal, hfiles]
      exact ⟨fun hne => absurd rfl hne, fun hne => absurd rfl hne⟩
  · rw [hsheds.first]
    rcases hsheds.copy htask with hold | hfirst
    · exact h.copy hold hdata
    · exact hfirst _ hdata
  · rcases hsheds.flight hmem with hold | hnew
    · exact (h.flight hold).mono (fun _ hid => hid) hstores
    · exact hnew.mono (fun _ hid => hid) fun _ _ hfalse => hfalse.elim
  · rw [hsheds.first]
    exact h.length
  · rw [hsheds.first]
    exact h.zero
  · rw [hsheds.first]
    exact h.fresh n count (hsheds.localMax hcount)
  · rw [hsheds.first] at hfirst
    rcases hsheds.block n (buildBlockID n count) with ⟨-, hsame⟩ | ⟨hdoomed, -⟩
    · rw [hsame]
      exact h.home hid hfirst
    · exact absurd hdoomed hid

/-- Only doomed blocks are deleted anywhere. -/
theorem Spares.doomed_of_deletes (h : net.Spares blockReplica doomed)
    (hsparing : net.Sparing doomed event) (hstep : BlockStep blockReplica net event net')
    {n : MachineID} {id : BlockID} (hdeletes : net.deletes id n event = true) : doomed id := by
  cases hstep with
  | delete m id' =>
      simp only [deletes, Bool.and_eq_true, beq_iff_eq] at hdeletes
      obtain ⟨⟨-, rfl⟩, -⟩ := hdeletes
      exact hsparing
  | deliver m src msg rest room pick node sends hflight hpick hrun =>
      have hmem : (src, msg) ∈ net.inFlight m := by
        rw [hflight]
        exact Multiset.mem_cons_self _ _
      have hmsg := h.flight hmem
      cases msg with
      | doDelete id' =>
          simp only [deletes, Bool.and_eq_true, beq_iff_eq] at hdeletes
          obtain ⟨⟨-, rfl⟩, -⟩ := hdeletes
          exact hmsg
      | deleteBlock id' =>
          simp only [deletes, Bool.and_eq_true, beq_iff_eq] at hdeletes
          obtain ⟨-, rfl⟩ := hdeletes
          exact hmsg
      | _ => cases hdeletes
  | _ => cases hdeletes

/-- A machine that saves nothing goes over to another state, and sends messages. -/
theorem Sheds.of_act {n : MachineID} {node : BlockNode} {sends : List (Target × BlockMessage)}
    (hblock : ∀ m id, BlockNode.Same id (net.nodes m) ((net.act n node sends).nodes m) ∨
      doomed id ∧ ((net.act n node sends).nodes m).Absent id)
    (hmax : ∀ count, node.localMax < count → (net.nodes n).localMax < count)
    (hcopies : ∀ task ∈ node.copies, task ∈ (net.nodes n).copies ∨
      ∀ data, task.data = some data → net.first task.block = some data)
    (hsends : ∀ send ∈ sends, ∀ src, send.2.Spares doomed (fun _ _ => False) src) :
    net.Sheds doomed (net.act n node sends) := by
  refine ⟨rfl, fun {m count} hcount => ?_, hblock, fun {m task} htask => ?_, fun hmem => ?_⟩
  · by_cases hm : m = n
    · subst hm
      rw [nodes_act_self] at hcount
      exact hmax count hcount
    · rw [nodes_act_of_ne hm] at hcount
      exact hcount
  · by_cases hm : m = n
    · subst hm
      rw [nodes_act_self] at htask
      exact hcopies task htask
    · rw [nodes_act_of_ne hm] at htask
      exact Or.inl htask
  · rcases mem_inFlight_act hmem with hold | ⟨send, hsend, -, rfl⟩
    · exact Or.inl hold
    · exact Or.inr (hsends send hsend _)

/-- The message that is handled is no longer under way. -/
theorem Sheds.of_without {n : MachineID} {lost : MachineID × BlockMessage}
    {rest : Multiset (MachineID × BlockMessage)} (hflight : net.inFlight n = lost ::ₘ rest)
    (h : (net.without n rest).Sheds doomed net') : net.Sheds doomed net' :=
  ⟨h.first, h.localMax, h.block, h.copy,
    fun hmem => (h.flight hmem).imp_left (mem_inFlight_of_without hflight)⟩

/-- The event is one that writes a block. -/
def Writes : BlockEvent → Prop
  | .save _ _ opens | .store _ _ opens => opens = true
  | _ => False

theorem remember_zero (net : BlockNet) (data : Bytes) : net.remember 0 data = net := by
  rw [remember, if_pos rfl]

/-- The block of a copy has an ID. -/
theorem Spares.block_ne_zero (h : net.Spares blockReplica doomed) {n : MachineID} {k : Nat}
    {task : CopyTask} (htask : (net.nodes n).copies[k]? = some task) {data : Bytes}
    (hdata : task.data = some data) : task.block ≠ 0 := by
  intro hzero
  have hfirst := h.copy (List.mem_of_getElem? htask) hdata
  rw [hzero, h.zero] at hfirst
  cases hfirst

theorem Spares.sheds_of_step (h : net.Spares blockReplica doomed)
    (hsparing : net.Sparing doomed event) (hwrites : ¬ Writes event)
    (hstep : BlockStep blockReplica net event net') : net.Sheds doomed net' := by
  have hblock (m : MachineID) (id : BlockID) :
      BlockNode.Same id (net.nodes m) (net'.nodes m) ∨ doomed id ∧ (net'.nodes m).Absent id := by
    have heffect : net.Effect id m event (net'.nodes m) := effect_of_step hstep m
    cases hdeletes : net.deletes id m event with
    | true => exact Or.inr ⟨h.doomed_of_deletes hsparing hstep hdeletes, heffect.absent hdeletes⟩
    | false =>
        refine Or.inl (heffect.same hdeletes ?_)
        cases event with
        | save n data opens =>
            obtain rfl := Bool.eq_false_of_not_eq_true hwrites
            simp [saves]
        | store n k opens =>
            obtain rfl := Bool.eq_false_of_not_eq_true hwrites
            simp [saves]
        | _ => rfl
  have hsilent : ∀ send ∈ ([] : List (Target × BlockMessage)), ∀ src,
      send.2.Spares doomed (fun _ _ => False) src := fun _ hsend => absurd hsend List.not_mem_nil
  have hframed := BlockNode.framed_localMax
  have hstays {n : MachineID} {node : BlockNode} (hmax : node.localMax = (net.nodes n).localMax)
      (count : LocalBlockID) (hcount : node.localMax < count) : (net.nodes n).localMax < count :=
    hmax ▸ hcount
  cases hstep with
  | save n data opens id node hn hdata hsave =>
      obtain rfl := Bool.eq_false_of_not_eq_true hwrites
      obtain ⟨rfl, rfl⟩ := Prod.mk.inj hsave
      rw [remember_zero] at hblock ⊢
      exact .of_act hblock (fun _ hcount => UInt32.lt_trans (localMax_lt_add_one hsparing) hcount)
        (fun _ => Or.inl) hsilent
  | store n k opens task data id node htask hdata hsave =>
      obtain rfl := Bool.eq_false_of_not_eq_true hwrites
      rw [BlockNode.saveBlock, if_neg (h.block_ne_zero htask hdata)] at hsave
      obtain ⟨rfl, rfl⟩ := Prod.mk.inj hsave
      exact .of_act hblock (hstays rfl) (fun _ hother => Or.inl (List.mem_of_mem_eraseIdx hother))
        hsilent
  | askRemote n id =>
      refine .of_act hblock (hstays rfl) (fun _ => Or.inl) fun send hsend src => ?_
      rw [List.mem_singleton.mp hsend]
      exact trivial
  | check n id attr alive hlocal hremote halive =>
      refine .of_act hblock (hstays (hframed.checkReplica _ attr alive))
        (fun task => (BlockNode.Quiet.checkReplica _ attr alive).copy) fun send hsend src => ?_
      obtain ⟨first, rest, -, rfl⟩ := BlockNode.mem_checkReplica hsend
      exact trivial
  | forget n id => exact .of_act hblock (hstays rfl) (fun _ => Or.inl) hsilent
  | checkAll n id attr pick node hlocal hpick hrun =>
      refine .of_act hblock (hstays (hframed.handleDoReplica hrun)) (fun task htask => ?_) hsilent
      rw [BlockNode.copies_handleDoReplica hrun] at htask
      exact Or.inl htask
  | delete n id room node sends hrun =>
      obtain ⟨hmax, hcopies⟩ := BlockNode.afterDelete_frame (net.nodes n) n id
      rw [BlockNode.eq_of_deleteBlock hrun] at hmax hcopies
      refine .of_act hblock (hstays hmax) (fun task htask => Or.inl (hcopies ▸ htask))
        fun send hsend src => ?_
      rcases BlockNode.mem_deleteBlock hrun hsend with rfl | ⟨first, rfl⟩
      · exact hsparing
      · exact hsparing
  | deliver n src msg rest room pick node sends hflight hpick hrun =>
      have hmem : (src, msg) ∈ net.inFlight n := by
        rw [hflight]
        exact Multiset.mem_cons_self _ _
      obtain ⟨hmax, hcopies, hsends⟩ := BlockNode.request_frame (h.flight hmem) hrun
      refine .of_without hflight (.of_act hblock (hstays hmax) (fun task htask => ?_) hsends)
      refine (hcopies task htask).imp_right fun hnone data hdata => ?_
      rw [hnone] at hdata
      cases hdata
  | drop n src msg rest hflight =>
      exact .of_without hflight ⟨rfl, fun hcount => hcount, hblock, Or.inl, Or.inl⟩
  | askCopy n k task m rest htask hcandidate hasked =>
      refine .of_act hblock (hstays rfl) (fun _ => Or.inl) fun send hsend src => ?_
      rw [List.mem_singleton.mp hsend]
      exact trivial
  | skipCopy n k task m rest htask hcandidate =>
      exact .of_act hblock (hstays rfl) (fun _ => Or.inl) hsilent
  | takeCopy n k task m rest flight htask hcandidate hasked hflight =>
      exact .of_without hflight (.of_act hblock (hstays rfl) (fun _ => Or.inl) hsilent)
  | finish n k task htask hcandidate =>
      refine .of_act hblock (hstays rfl) (fun _ => Or.inl) fun send hsend src => ?_
      rw [List.mem_singleton.mp hsend]
      exact trivial
  | load n k task content htask hdata hfile =>
      refine .of_act hblock (hstays rfl) (fun other hother => ?_) hsilent
      rcases List.mem_or_eq_of_mem_set hother with hold | rfl
      · exact Or.inl hold
      · refine Or.inr fun data hloaded => ?_
        have hfirst := h.file hfile
        rw [← Option.some.inj hloaded, BlockManager.loadFile_eq (h.length hfirst)]
        exact hfirst
  | loadFails n k task htask hdata =>
      exact .of_act hblock (hstays rfl)
        (fun _ hother => Or.inl (List.mem_of_mem_eraseIdx hother)) hsilent

/-- A machine that saves a block with its first contents has it then, and loses no other. -/
theorem Spares.keepsOn_of_saves (h : net.Spares blockReplica doomed) {n : MachineID}
    {node start : BlockNode} {id : BlockID} {data : Bytes}
    (hnodes : net'.nodes = Function.update net.nodes n node)
    (henters : start.Enters blockReplica n id data node)
    (hstart : start.files = (net.nodes n).files)
    (hfirst : net'.first = Function.update net.first id (some data))
    (hsame : net.first id = none ∨ net.first id = some data) :
    net.KeepsOn (fun _ => True) net' ∧ net'.Stores id n := by
  have hkept {id' : BlockID} {content : Bytes} (hcontent : net.first id' = some content) :
      net'.first id' = some content := first_of_update hfirst hsame hcontent
  have hnew : net'.first id = some data := by
    rw [hfirst, Function.update_self]
  have hfiles : (net'.nodes n).files = Function.update (net.nodes n).files id (some data) := by
    rw [hnodes, Function.update_self, henters.files, hstart]
  refine ⟨⟨hkept, fun {m id' content} _ hfile => ?_⟩, data, hnew, ?_⟩
  · by_cases hm : m = n
    · subst hm
      rw [hfiles, Function.update_apply]
      split
      next heq =>
        rw [heq] at hfile
        rw [← hnew, hkept (h.file hfile)]
      next => exact hfile
    · rw [hnodes, Function.update_of_ne hm]
      exact hfile
  · rw [hfiles, Function.update_self]

/-- A machine saves a block with its first contents. -/
theorem Spares.saves (h : net.Spares blockReplica doomed) {n : MachineID} {node : BlockNode}
    {sends : List (Target × BlockMessage)} {id : BlockID} {data : Bytes}
    {copies : List CopyTask} (hnodes : net'.nodes = Function.update net.nodes n node)
    (hflight : net'.inFlight = (net.act n node sends).inFlight)
    (henters : { net.nodes n with copies := copies }.Enters blockReplica n id data node)
    (hcopies : ∀ task ∈ copies, task ∈ (net.nodes n).copies) (hid : id ≠ 0)
    (hdata : data.length = blockSize) (hfirst : net'.first = Function.update net.first id (some data))
    (hsame : net.first id = none ∧ getMachineIDFromBlockID id = n ∨ net.first id = some data)
    (hfresh : net'.Fresh) (hsends : ∀ send ∈ sends, send.2 = .blockACK id)
    (hsound : (∀ id m, net.Stores id m → net'.Stores id m) → net'.Stores id n →
      net'.Sound blockReplica fun id m => doomed id ∨ net'.Stores id m) :
    net'.Spares blockReplica doomed ∧ net.KeepsOn (fun _ => True) net' := by
  obtain ⟨hkeeps, hstored⟩ :=
    h.keepsOn_of_saves hnodes henters rfl hfirst (hsame.imp_left And.left)
  have hkept {id' : BlockID} {content : Bytes} (hcontent : net.first id' = some content) :
      net'.first id' = some content := hkeeps.first hcontent
  have hnode : net'.nodes n = node := by
    rw [hnodes, Function.update_self]
  have hother {m : MachineID} (hm : m ≠ n) : net'.nodes m = net.nodes m := by
    rw [hnodes, Function.update_of_ne hm]
  have hnew : net'.first id = some data := by
    rw [hfirst, Function.update_self]
  have hstores (id' : BlockID) (m : MachineID) (hold : net.Stores id' m) : net'.Stores id' m :=
    hkeeps.stores trivial hold
  refine ⟨⟨hsound hstores hstored, fun {m id' content} hfile => ?_, fun m id' => ?_,
    fun {m task content} htask hcontent => ?_, fun hmem => ?_, fun {id' content} hcontent => ?_, ?_,
    hfresh, fun {m count} hdoomed hcount => ?_⟩, hkeeps⟩
  · by_cases hm : m = n
    · subst hm
      rw [hnode, henters.files, Function.update_apply] at hfile
      split at hfile
      next heq =>
        rw [heq, hnew]
        exact hfile
      next => exact hkept (h.file hfile)
    · rw [hother hm] at hfile
      exact hkept (h.file hfile)
  · by_cases hm : m = n
    · subst hm
      rw [hnode, henters.files, henters.localIDs, getElem?_insert_id, Function.update_apply]
      split
      · simp
      · exact h.held m id'
    · rw [hother hm]
      exact h.held m id'
  · by_cases hm : m = n
    · subst hm
      rw [hnode, henters.copies] at htask
      exact hkept (h.copy (hcopies task htask) hcontent)
    · rw [hother hm] at htask
      exact hkept (h.copy htask hcontent)
  · rw [hflight] at hmem
    rcases mem_inFlight_act hmem with hold | ⟨send, hsend, -, rfl⟩
    · exact (h.flight hold).mono (fun _ hid => hid) fun id' m hold => Or.inr (hstores id' m hold)
    · dsimp only
      rw [hsends send hsend]
      exact Or.inr hstored
  · rw [hfirst, Function.update_apply] at hcontent
    split at hcontent
    · rw [← Option.some.inj hcontent]
      exact hdata
    · exact h.length hcontent
  · rw [hfirst, Function.update_of_ne hid.symm]
    exact h.zero
  · by_cases hold : net.first (buildBlockID m count) = none
    · -- the block is the new one, and its machine saves it
      rw [hfirst, Function.update_apply] at hcount
      split at hcount
      next heq =>
        rw [heq] at hold
        rcases hsame with ⟨-, hmachine⟩ | hsome
        · rw [← heq, getMachineIDFromBlockID_buildBlockID] at hmachine
          rw [hmachine, hnode, henters.files, ← hmachine, heq, Function.update_self]
          exact Option.some_ne_none data
        · rw [hsome] at hold
          cases hold
      next => exact absurd hold hcount
    · obtain ⟨content, hfile⟩ := Option.ne_none_iff_exists'.mp (h.home hdoomed hold)
      rw [hkeeps.files trivial hfile]
      exact Option.some_ne_none content

theorem Spares.step (h : net.Spares blockReplica doomed) (hreplica : 1 ≤ blockReplica)
    (hsparing : net.Sparing doomed event) (hstep : BlockStep blockReplica net event net') :
    net'.Spares blockReplica doomed ∧ net.KeepsOn (fun id => ¬ doomed id) net' := by
  have hsound {may : BlockID → MachineID → Prop}
      (hmay : ∀ id m, doomed id ∨ net.Stores id m → may id m)
      (hadmits : net.Admits blockReplica may event) : net'.Sound blockReplica may :=
    (h.sound.mono hmay).step hreplica hadmits hstep
  by_cases hwrites : Writes event
  · have hmay (hstores : ∀ id m, net.Stores id m → net'.Stores id m) (id : BlockID) (m : MachineID) :
        doomed id ∨ net.Stores id m → doomed id ∨ net'.Stores id m := Or.imp_right (hstores id m)
    have hforget (hsaves : net'.Spares blockReplica doomed ∧ net.KeepsOn (fun _ => True) net') :
        net'.Spares blockReplica doomed ∧ net.KeepsOn (fun id => ¬ doomed id) net' :=
      ⟨hsaves.1, hsaves.2.mono fun _ _ => trivial⟩
    cases hstep with
    | save n data opens id node hn hdata hsave =>
        obtain rfl : opens = true := hwrites
        have henters := BlockNode.enters_saveBlock hsave
        have hid : id = buildBlockID n ((net.nodes n).localMax + 1) :=
          (BlockNode.id_of_saveBlock hsave).trans (if_pos rfl)
        have hne : id ≠ 0 := hid ▸ buildBlockID_ne_zero hn _
        have hnone : net.first id = none := hid ▸ h.fresh n _ (localMax_lt_add_one hsparing)
        have hmachine : getMachineIDFromBlockID id = n :=
          hid ▸ getMachineIDFromBlockID_buildBlockID _ _
        have hfirst : ((net.act n node []).remember id data).first =
            Function.update net.first id (some data) := by
          unfold remember act
          dsimp only
          rw [if_neg hne, hnone, Option.none_or]
        refine hforget (@Spares.saves blockReplica doomed net _ h n node [] id data _ rfl rfl henters
          (fun _ htask => htask) hne hdata hfirst (Or.inl ⟨hnone, hmachine⟩)
          (h.fresh.save hsparing hsave) (fun _ hsend => absurd hsend List.not_mem_nil) ?_)
        intro hstores hstored
        refine hsound (hmay hstores) fun _ id' node' hsave' => Or.inr ?_
        rw [← (Prod.mk.inj (hsave.symm.trans hsave')).1]
        exact hstored
    | store n k opens task data id node htask hdata hsave =>
        obtain rfl : opens = true := hwrites
        have hne := h.block_ne_zero htask hdata
        have hfirst := h.copy (List.mem_of_getElem? htask) hdata
        obtain rfl : id = task.block := (BlockNode.id_of_saveBlock hsave).trans (if_neg hne)
        have hmax := BlockNode.localMax_saveBlock hsave
        rw [if_neg hne] at hmax
        refine hforget (h.saves rfl rfl (BlockNode.enters_saveBlock hsave)
          (fun _ => List.mem_of_mem_eraseIdx) hne (h.length hfirst)
          (Function.update_eq_self_iff.mpr hfirst.symm).symm (Or.inr hfirst) ?_ ?_ ?_)
        · intro m count hcount
          apply h.fresh m count
          by_cases hm : m = n
          · subst hm
            rw [nodes_act_self, hmax] at hcount
            exact hcount
          · rw [nodes_act_of_ne hm] at hcount
            exact hcount
        · intro send hsend
          rw [if_neg hne] at hsend
          rw [List.mem_singleton.mp hsend]
        · intro hstores hstored
          refine hsound (hmay hstores) fun _ task' data' id' node' htask' hdata' hsave' => Or.inr ?_
          obtain rfl := Option.some.inj (htask.symm.trans htask')
          obtain rfl := Option.some.inj (hdata.symm.trans hdata')
          rw [← (Prod.mk.inj (hsave.symm.trans hsave')).1]
          exact hstored
    | _ => exact hwrites.elim
  · have hsheds := h.sheds_of_step hsparing hwrites hstep
    refine ⟨h.sheds hsheds fun hstores => ?_, hsheds.keeps⟩
    have hmay (id : BlockID) (m : MachineID) (hold : doomed id ∨ net.Stores id m) :
        doomed id ∨ net'.Stores id m := hold.elim Or.inl (hstores id m)
    refine hsound hmay ?_
    cases event with
    | save n data opens => exact fun hopens => absurd hopens hwrites
    | store n k opens => exact fun hopens => absurd hopens hwrites
    | takeCopy n k => exact fun task m rest _ _ hmem => hmay _ _ (h.flight hmem)
    | check n id alive => exact hsparing
    | _ => exact trivial

end Steps

end BlockNet

end Doopey
