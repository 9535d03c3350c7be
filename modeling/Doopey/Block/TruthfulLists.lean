import Doopey.Block.WellFormedLists

/-!
# Location lists are truthful

A machine that is listed for a block has the bytes with which the block was first
saved, in every run in which no block is deleted and no ID is handed out for a
second time. It is listed by itself once the file is written, or by a machine
that has its acknowledgement of a copy.
-/

namespace Doopey

open Foundation

/-- The machine has the block as it was first saved. -/
def BlockNet.Stores (net : BlockNet) (id : BlockID) (m : MachineID) : Prop :=
  ∃ data, net.first id = some data ∧ (net.nodes m).files id = some data

/-- What a message says is true, besides its list. A machine that is asked for
copies lists itself, and nobody deletes blocks. -/
def BlockMessage.Truthful (stores : BlockID → MachineID → Prop) (src n : MachineID) :
    BlockMessage → Prop
  | blockACK id => stores id src
  | doReplica data => ∃ id machines, data = locationData id machines ∧ n ∈ machines
  | doDelete _ | deleteBlock _ => False
  | _ => True

theorem BlockMessage.Truthful.mono {stores stores' : BlockID → MachineID → Prop}
    {src n : MachineID} {msg : BlockMessage} (h : msg.Truthful stores src n)
    (hstores : ∀ id m, stores id m → stores' id m) : msg.Truthful stores' src n := by
  cases msg with
  | blockACK id => exact hstores _ _ h
  | doReplica data => exact h
  | doDelete id => exact h
  | deleteBlock id => exact h
  | _ => exact trivial

namespace BlockNode

/-- The files and the copies under way have the first contents of their blocks,
every file is listed, and `handleDoReplica` works on entries of `localIDs`. -/
structure Truthful (first : BlockID → Option Bytes) (node : BlockNode) : Prop where
  file {id : BlockID} {data : Bytes} : node.files id = some data → first id = some data
  listed {id : BlockID} : node.files id ≠ none → node.localIDs[id]? ≠ none
  copy {task : CopyTask} {data : Bytes} : task ∈ node.copies → task.data = some data →
    first task.block = some data
  owned {task : ReplicaTask} {id : BlockID} : task ∈ node.replicas →
    node.remoteIDs[id]? ≠ some task.attr

/-- What a handler that neither saves nor deletes a block does to a machine. -/
structure Quiet (first : BlockID → Option Bytes) (node node' : BlockNode) : Prop where
  files : node'.files = node.files
  localIDs : node'.localIDs = node.localIDs
  brk : node.brk ≤ node'.brk
  remote {id : BlockID} {attr : Nat} : node'.remoteIDs[id]? = some attr →
    node.remoteIDs[id]? = some attr ∨ node.brk ≤ attr
  replica {task : ReplicaTask} : task ∈ node'.replicas →
    (∃ task' ∈ node.replicas, task'.attr = task.attr) ∨
      ∃ id : BlockID, node.localIDs[id]? = some task.attr
  copy {task : CopyTask} : task ∈ node'.copies → task ∈ node.copies ∨
    ∀ data, task.data = some data → first task.block = some data

/-- What saving a block does to a machine. -/
structure Saves (id : BlockID) (data : Bytes) (node node' : BlockNode) : Prop where
  files : node'.files = Function.update node.files id (some data)
  listed {id' : BlockID} : id' = id ∨ node.localIDs[id']? ≠ none → node'.localIDs[id']? ≠ none
  remote {id' : BlockID} {attr : Nat} : node'.remoteIDs[id']? = some attr →
    node.remoteIDs[id']? = some attr
  replicas : node'.replicas = node.replicas
  copy {task : CopyTask} : task ∈ node'.copies → task ∈ node.copies

section Node

variable {blockReplica : UInt64} {first : BlockID → Option Bytes} {node : BlockNode}

namespace Quiet

theorem refl (node : BlockNode) : Quiet first node node where
  files := rfl
  localIDs := rfl
  brk := Nat.le_refl _
  remote hget := Or.inl hget
  replica htask := Or.inl ⟨_, htask, rfl⟩
  copy htask := Or.inl htask

theorem trans {node' node'' : BlockNode} (h : Quiet first node node')
    (h' : Quiet first node' node'') : Quiet first node node'' where
  files := h'.files.trans h.files
  localIDs := h'.localIDs.trans h.localIDs
  brk := h.brk.trans h'.brk
  remote hget := by
    rcases h'.remote hget with hmiddle | hnew
    · exact h.remote hmiddle
    · exact Or.inr (h.brk.trans hnew)
  replica htask := by
    rcases h'.replica htask with ⟨task', htask', hattr⟩ | ⟨id, hlocal⟩
    · rw [← hattr]
      exact h.replica htask'
    · rw [h.localIDs] at hlocal
      exact Or.inr ⟨id, hlocal⟩
  copy htask := by
    rcases h'.copy htask with hmiddle | hfirst
    · exact h.copy hmiddle
    · exact Or.inr hfirst

/-- The calls of `handleDoReplica` go on or end. -/
theorem replicas {replicas : List ReplicaTask}
    (hreplicas : ∀ task ∈ replicas, ∃ task' ∈ node.replicas, task'.attr = task.attr) :
    Quiet first node { node with replicas := replicas } :=
  { refl node with replica := fun htask => Or.inl (hreplicas _ htask) }

theorem set {k : Nat} {task task' : ReplicaTask} (htask : node.replicas[k]? = some task)
    (hattr : task'.attr = task.attr) :
    Quiet first node { node with replicas := node.replicas.set k task' } := by
  apply replicas
  intro other hother
  rcases List.mem_or_eq_of_mem_set hother with hold | rfl
  · exact ⟨other, hold, rfl⟩
  · exact ⟨task, List.mem_of_getElem? htask, hattr.symm⟩

theorem modify (node : BlockNode) (attr : Nat) (change : BlockLocationAttr → BlockLocationAttr) :
    Quiet first node (node.modify attr change) := { refl node with }

theorem removeRemoteID (node : BlockNode) (id : BlockID) :
    Quiet first node (node.removeRemoteID id) :=
  { refl node with remote := fun hget => Or.inl (eq_some_of_erase hget).2 }

theorem forceAddRemoteID (node : BlockNode) (m : MachineID) (id : BlockID) :
    Quiet first node (node.forceAddRemoteID blockReplica m id) where
  files := rfl
  localIDs := rfl
  brk := Nat.le_succ _
  remote hget := by
    rcases eq_some_of_insert hget with ⟨-, rfl⟩ | hold
    · exact Or.inr (Nat.le_refl _)
    · exact Or.inl hold
  replica htask := Or.inl ⟨_, htask, rfl⟩
  copy htask := Or.inl htask

theorem cleanCache (node : BlockNode) : Quiet first node node.cleanCache := by
  have hround (node : BlockNode) : Quiet first node node.eraseFirst := by
    unfold BlockNode.eraseFirst
    split
    next => exact refl node
    next => exact removeRemoteID node _
  exact (hround _).trans <| (hround _).trans <| (hround _).trans <|
    (hround _).trans (hround _)

theorem checkReplica (node : BlockNode) (attr : Nat) (alive : MachineID → Bool) :
    Quiet first node (node.checkReplica blockReplica attr alive).1 := by
  unfold BlockNode.checkReplica
  dsimp only
  split
  next => exact (modify node _ _).trans (removeRemoteID _ _)
  next =>
    dsimp only
    exact modify node _ _

theorem handleRequestBlockLocationACK {data : Bytes} {node' : BlockNode}
    (hrun : node.handleRequestBlockLocationACK blockReplica data = .ok node') :
    Quiet first node node' := by
  unfold BlockNode.handleRequestBlockLocationACK at hrun
  split at hrun
  next =>
    rw [← Except.ok.inj hrun]
    exact refl node
  next =>
    obtain ⟨⟨id, machines⟩, -, hrun⟩ := bind_eq_ok_iff.mp hrun
    dsimp only at hrun
    split at hrun
    next => exact absurd hrun (by simp)
    next m rest =>
      split at hrun
      next =>
        rw [← Except.ok.inj hrun]
        exact modify node _ _
      next =>
        rw [← Except.ok.inj hrun]
        refine trans ?_ ((forceAddRemoteID _ m id).trans (modify _ _ _))
        split
        next => exact cleanCache node
        next => exact refl node

theorem handleUpdateReplica {data : Bytes} {node' : BlockNode}
    (hrun : node.handleUpdateReplica data = .ok node') : Quiet first node node' := by
  unfold BlockNode.handleUpdateReplica at hrun
  obtain ⟨⟨id, machines⟩, -, hrun⟩ := bind_eq_ok_iff.mp hrun
  rw [← Except.ok.inj hrun]
  dsimp only
  cases node.localIDs[id]? with
  | none =>
      cases node.remoteIDs[id]? with
      | none => exact refl node
      | some attr => exact modify node attr _
  | some attr =>
      cases node.remoteIDs[id]? with
      | none => exact modify node attr _
      | some attr' => exact (modify node attr _).trans (modify _ attr' _)

/-- `handleDoReplica` of a block of the machine works on the entry of `localIDs`. -/
theorem handleDoReplica {pick : List MachineID → UInt64 → List MachineID} {id : BlockID}
    {machines : List MachineID} {node' : BlockNode} (hlocal : node.localIDs[id]? ≠ none)
    (hrun : node.handleDoReplica blockReplica pick (locationData id machines) = .ok node') :
    Quiet first node node' := by
  rw [BlockNode.handleDoReplica, readLocation_locationData, ok_bind] at hrun
  dsimp only at hrun
  split at hrun
  next =>
    rw [← Except.ok.inj hrun]
    exact refl node
  next attr hask =>
    split at hrun
    next =>
      rw [← Except.ok.inj hrun]
      exact refl node
    next =>
      have hattr : node.localIDs[id]? = some attr := by
        rw [← hask, BlockNode.askBlockDetail]
        cases hget : node.localIDs[id]? with
        | none => exact absurd hget hlocal
        | some attr' => rfl
      rw [← Except.ok.inj hrun]
      refine { refl node with replica := fun htask => ?_ }
      rcases List.mem_cons.mp htask with rfl | hold
      · exact Or.inr ⟨id, hattr⟩
      · exact Or.inl ⟨_, hold, rfl⟩

theorem addCandidate {k : Nat} {task : ReplicaTask} (htask : node.replicas[k]? = some task)
    (m : MachineID) (rest : List MachineID) :
    Quiet first node (node.addCandidate blockReplica k task m rest) := by
  have hset := @set first (node.modify task.attr (·.addMachine blockReplica m)) k task
    { task with candidate := rest, asked := false } htask rfl
  exact (modify node _ _).trans hset

theorem finishReplica (node : BlockNode) (k : Nat) (task : ReplicaTask) :
    Quiet first node (node.finishReplica k task).1 :=
  replicas fun other hother => ⟨other, List.mem_of_mem_eraseIdx hother, rfl⟩

theorem copies {copies : List CopyTask}
    (hcopies : ∀ task ∈ copies, task ∈ node.copies ∨
      ∀ data, task.data = some data → first task.block = some data) :
    Quiet first node { node with copies := copies } :=
  { @refl first node with copy := fun htask => hcopies _ htask }

end Quiet

/-- A machine keeps its word when it saves nothing. -/
theorem Truthful.quiet (h : node.Truthful first) {may : BlockID → MachineID → Prop}
    (hsound : node.Sound blockReplica may) {node' : BlockNode}
    (hquiet : Quiet first node node') : node'.Truthful first where
  file hfile := by
    rw [hquiet.files] at hfile
    exact h.file hfile
  listed hfile := by
    rw [hquiet.files] at hfile
    rw [hquiet.localIDs]
    exact h.listed hfile
  copy htask hdata := by
    rcases hquiet.copy htask with hold | hfirst
    · exact h.copy hold hdata
    · exact hfirst _ hdata
  owned {task _} htask hget := by
    -- a list of the task is old, and none that is in `remoteIDs`
    rcases hquiet.remote hget with hremote | hnew
    · rcases hquiet.replica htask with ⟨task', htask', hattr⟩ | ⟨id', hlocal⟩
      · rw [← hattr] at hremote
        exact h.owned htask' hremote
      · exact hsound.apart hlocal hremote
    · have hlt : task.attr < node.brk := by
        rcases hquiet.replica htask with ⟨task', htask', hattr⟩ | ⟨id', hlocal⟩
        · exact (hsound.entry (Or.inr (Or.inr ⟨task', htask', rfl, hattr⟩))).1
        · exact (hsound.entry (Or.inl hlocal)).1
      exact absurd hnew (Nat.not_le_of_lt hlt)

/-- The entry of a block that is saved is new. -/
structure Enters (blockReplica : UInt64) (me : MachineID) (id : BlockID) (data : Bytes)
    (node node' : BlockNode) : Prop where
  files : node'.files = Function.update node.files id (some data)
  localIDs : node'.localIDs = node.localIDs.insert id node.brk
  remoteIDs : node'.remoteIDs = node.remoteIDs.erase id
  attrs : node'.attrs = Function.update node.attrs node.brk (attrOf blockReplica id me)
  brk : node'.brk = node.brk + 1
  replicas : node'.replicas = node.replicas
  copies : node'.copies = node.copies

theorem enters_addLocalID (node : BlockNode) (me : MachineID) (id : BlockID) (data : Bytes) :
    node.Enters blockReplica me id data ({ node with
      files := Function.update node.files id (some data) }.addLocalID blockReplica me id) := by
  have hfile : ¬ Function.update node.files id (some data) id = none := by
    rw [Function.update_self]
    exact Option.some_ne_none data
  unfold BlockNode.addLocalID
  rw [if_neg hfile]
  exact ⟨rfl, rfl, rfl, rfl, rfl, rfl, rfl⟩

theorem enters_saveBlock {me : MachineID} {data : Bytes} {id newID : BlockID} {node' : BlockNode}
    (hsave : node.saveBlock blockReplica me true data id = (newID, node')) :
    node.Enters blockReplica me newID data node' := by
  unfold BlockNode.saveBlock at hsave
  by_cases hid : id = 0
  · rw [if_pos hid] at hsave
    obtain ⟨rfl, rfl⟩ := Prod.mk.inj hsave
    exact { enters_addLocalID (node.newLocalID me).2 me _ data with }
  · rw [if_neg hid] at hsave
    obtain ⟨rfl, rfl⟩ := Prod.mk.inj hsave
    exact enters_addLocalID node me _ data

/-- The block has its file and an entry then. -/
theorem Enters.saves {me : MachineID} {id : BlockID} {data : Bytes} {node' : BlockNode}
    (h : node.Enters blockReplica me id data node') : node.Saves id data node' where
  files := h.files
  listed hlisted := by
    rw [h.localIDs, getElem?_insert_id]
    split
    next => exact Option.some_ne_none _
    next hne => exact hlisted.resolve_left hne
  remote hget := by
    rw [h.remoteIDs] at hget
    exact (eq_some_of_erase hget).2
  replicas := h.replicas
  copy htask := by
    rw [h.copies] at htask
    exact htask

theorem id_of_saveBlock {me : MachineID} {data : Bytes} {id newID : BlockID} {node' : BlockNode}
    (hsave : node.saveBlock blockReplica me true data id = (newID, node')) :
    newID = if id = 0 then (node.newLocalID me).1 else id := by
  unfold BlockNode.saveBlock at hsave
  by_cases hid : id = 0
  · rw [if_pos hid] at hsave
    rw [if_pos hid]
    exact (Prod.mk.inj hsave).1.symm
  · rw [if_neg hid] at hsave
    rw [if_neg hid]
    exact (Prod.mk.inj hsave).1.symm

/-- Saving a block adds its file and its entry, or nothing. -/
theorem saveBlock_spec {me : MachineID} {opens : Bool} {data : Bytes} {id newID : BlockID}
    {node' : BlockNode}
    (hsave : node.saveBlock blockReplica me opens data id = (newID, node')) :
    opens = false ∧ newID = 0 ∧ Quiet first node node' ∨
      opens = true ∧ newID = (if id = 0 then (node.newLocalID me).1 else id) ∧
        node.Saves newID data node' := by
  cases opens with
  | false =>
      apply Or.inl
      unfold BlockNode.saveBlock at hsave
      by_cases hid : id = 0
      · rw [if_pos hid] at hsave
        obtain ⟨rfl, rfl⟩ := Prod.mk.inj hsave
        exact ⟨rfl, rfl, { Quiet.refl node with }⟩
      · rw [if_neg hid] at hsave
        obtain ⟨rfl, rfl⟩ := Prod.mk.inj hsave
        exact ⟨rfl, rfl, Quiet.refl node⟩
  | true =>
      apply Or.inr
      exact ⟨rfl, id_of_saveBlock hsave, (enters_saveBlock hsave).saves⟩

/-- A machine keeps its word when it saves a block. -/
theorem Truthful.saves {first' : BlockID → Option Bytes} (h : node.Truthful first)
    (hfirst : ∀ id data, first id = some data → first' id = some data) {id : BlockID}
    {data : Bytes} (hid : first' id = some data) {node' : BlockNode}
    (hsaves : node.Saves id data node') : node'.Truthful first' where
  file {id' content} hfile := by
    rw [hsaves.files, Function.update_apply] at hfile
    split at hfile
    next heq =>
      rw [heq, hid]
      exact hfile
    next => exact hfirst _ _ (h.file hfile)
  listed {id'} hfile := by
    apply hsaves.listed
    rw [hsaves.files, Function.update_apply] at hfile
    split at hfile
    next heq => exact Or.inl heq
    next => exact Or.inr (h.listed hfile)
  copy htask hdata := by
    exact hfirst _ _ (h.copy (hsaves.copy htask) hdata)
  owned htask hget := by
    rw [hsaves.replicas] at htask
    exact h.owned htask (hsaves.remote hget)

end Node

end BlockNode

namespace BlockNet

/-- All lists, machines and messages are truthful. -/
structure Truthful (blockReplica : UInt64) (net : BlockNet) : Prop where
  sound : net.Sound blockReplica net.Stores
  node (n : MachineID) : (net.nodes n).Truthful net.first
  flight {n : MachineID} {sent : MachineID × BlockMessage} : sent ∈ net.inFlight n →
    sent.2.Truthful net.Stores sent.1 n
  length {id : BlockID} {data : Bytes} : net.first id = some data → data.length = blockSize
  zero : net.first 0 = none

/-- No block is deleted, and a block that is saved has an ID that no block was
saved under. -/
def Lasting (net : BlockNet) : BlockEvent → Prop
  | .delete _ _ => False
  | .save n _ _ => net.first ((net.nodes n).newLocalID n).1 = none
  | _ => True

section Steps

variable {blockReplica : UInt64} {net : BlockNet}

theorem truthful_empty : empty.Truthful blockReplica where
  sound := sound_empty
  node _ :=
    { file := fun hfile => absurd hfile (by simp [empty, BlockNode.empty])
      listed := fun hfile => absurd rfl hfile
      copy := fun htask => absurd htask List.not_mem_nil
      owned := fun htask => absurd htask List.not_mem_nil }
  flight hmem := absurd hmem (Multiset.notMem_zero _)
  length hfirst := absurd hfirst (by simp [empty])
  zero := rfl

/-- A machine that sends nothing says nothing wrong. -/
theorem truthful_of_silent {n : MachineID} {stores : BlockID → MachineID → Prop} :
    ∀ send ∈ ([] : List (Target × BlockMessage)), ∀ m, send.1.Reaches n m →
      send.2.Truthful stores n m := fun _ hsend => absurd hsend List.not_mem_nil

/-- What a machine sends or what was there before. -/
theorem mem_inFlight_act {n m : MachineID} {node : BlockNode}
    {sends : List (Target × BlockMessage)} {sent : MachineID × BlockMessage}
    (hmem : sent ∈ (net.act n node sends).inFlight m) : sent ∈ net.inFlight m ∨
      ∃ send ∈ sends, send.1.Reaches n m ∧ sent = (n, send.2) :=
  (Multiset.mem_add.mp hmem).imp_right mem_arriving.mp

/-- A machine that saves nothing sends messages that are true. -/
theorem Truthful.quiet (h : net.Truthful blockReplica) {n : MachineID} {node : BlockNode}
    {sends : List (Target × BlockMessage)}
    (hsound : (net.act n node sends).Sound blockReplica net.Stores)
    (hquiet : BlockNode.Quiet net.first (net.nodes n) node)
    (hsends : ∀ send ∈ sends, ∀ m, send.1.Reaches n m → send.2.Truthful net.Stores n m) :
    (net.act n node sends).Truthful blockReplica := by
  have hstores (id : BlockID) (m : MachineID) (hstored : net.Stores id m) :
      (net.act n node sends).Stores id m := by
    obtain ⟨data, hfirst, hfile⟩ := hstored
    refine ⟨data, hfirst, ?_⟩
    unfold act
    dsimp only
    rw [Function.update_apply]
    split
    next heq =>
      rw [hquiet.files, ← heq]
      exact hfile
    next => exact hfile
  refine ⟨hsound.mono hstores, ?_, fun hmem => ?_, h.length, h.zero⟩
  · apply (Function.forall_update_iff net.nodes fun _ node => node.Truthful net.first).mpr
    exact ⟨(h.node n).quiet (h.sound.node n) hquiet, fun m _ => h.node m⟩
  · rcases mem_inFlight_act hmem with hold | ⟨send, hsend, hreaches, rfl⟩
    · exact (h.flight hold).mono hstores
    · exact (hsends send hsend _ hreaches).mono hstores

theorem Truthful.without (h : net.Truthful blockReplica) {n : MachineID}
    {lost : MachineID × BlockMessage} {rest : Multiset (MachineID × BlockMessage)}
    (hflight : net.inFlight n = lost ::ₘ rest) : (net.without n rest).Truthful blockReplica :=
  ⟨h.sound.without hflight, h.node, fun hmem => h.flight (mem_inFlight_of_without hflight hmem),
    h.length, h.zero⟩

/-- The first contents of a block stay when it is saved once more. -/
theorem first_of_update {first first' : BlockID → Option Bytes} {id : BlockID} {data : Bytes}
    (hfirst : first' = Function.update first id (some data))
    (hsame : first id = none ∨ first id = some data) {id' : BlockID} {content : Bytes}
    (hcontent : first id' = some content) : first' id' = some content := by
  rw [hfirst, Function.update_apply]
  split
  next heq =>
    rcases hsame with hnone | hsome
    · rw [heq, hnone] at hcontent
      exact absurd hcontent (by simp)
    · rw [← hcontent, heq, hsome]
  next => exact hcontent

/-- Saving a block takes no file from a machine. -/
theorem Stores.saves {net' : BlockNet} {n m : MachineID} {node : BlockNode}
    {id id' : BlockID} {data : Bytes} (h : net.Stores id' m)
    (hnodes : net'.nodes = Function.update net.nodes n node)
    (hsaves : (net.nodes n).Saves id data node)
    (hkept : ∀ id content, net.first id = some content → net'.first id = some content)
    (hnew : net'.Stores id n) : net'.Stores id' m := by
  obtain ⟨content, hcontent, hfile⟩ := h
  by_cases hm : m = n
  · subst hm
    by_cases heq : id' = id
    · rw [heq]
      exact hnew
    · refine ⟨content, hkept _ _ hcontent, ?_⟩
      rw [hnodes, Function.update_self, hsaves.files, Function.update_of_ne heq]
      exact hfile
  · refine ⟨content, hkept _ _ hcontent, ?_⟩
    rw [hnodes, Function.update_of_ne hm]
    exact hfile

/-- A machine saves a block with its first contents, and tells of it. -/
theorem Truthful.saves (h : net.Truthful blockReplica) {net' : BlockNet} {n : MachineID}
    {node : BlockNode} {sends : List (Target × BlockMessage)} {id : BlockID} {data : Bytes}
    (hnodes : net'.nodes = Function.update net.nodes n node)
    (hflight : net'.inFlight = (net.act n node sends).inFlight)
    (hsound : (∀ id m, net.Stores id m → net'.Stores id m) → net'.Stores id n →
      net'.Sound blockReplica net'.Stores)
    (hsaves : (net.nodes n).Saves id data node) (hid : id ≠ 0) (hdata : data.length = blockSize)
    (hfirst : net'.first = Function.update net.first id (some data))
    (hsame : net.first id = none ∨ net.first id = some data)
    (hsends : ∀ send ∈ sends, ∀ m, send.1.Reaches n m →
      send.2.Truthful (fun id' m' => id' = id ∧ m' = n) n m) : net'.Truthful blockReplica := by
  have hkept (id' : BlockID) (content : Bytes) (hcontent : net.first id' = some content) :
      net'.first id' = some content := first_of_update hfirst hsame hcontent
  have hnew : net'.Stores id n := by
    refine ⟨data, ?_, ?_⟩
    · rw [hfirst, Function.update_self]
    · rw [hnodes, Function.update_self, hsaves.files, Function.update_self]
  have hstores (id' : BlockID) (m : MachineID) (hstored : net.Stores id' m) :
      net'.Stores id' m := hstored.saves hnodes hsaves hkept hnew
  refine ⟨hsound hstores hnew, ?_, fun hmem => ?_, ?_, ?_⟩
  · rw [hnodes]
    apply (Function.forall_update_iff net.nodes fun _ node => node.Truthful net'.first).mpr
    refine ⟨(h.node n).saves hkept ?_ hsaves, fun m _ => ?_⟩
    · rw [hfirst, Function.update_self]
    · exact { h.node m with
        file := fun hfile => hkept _ _ ((h.node m).file hfile)
        copy := fun htask hcopy => hkept _ _ ((h.node m).copy htask hcopy) }
  · rw [hflight] at hmem
    rcases mem_inFlight_act hmem with hold | ⟨send, hsend, hreaches, rfl⟩
    · exact (h.flight hold).mono hstores
    · apply (hsends send hsend _ hreaches).mono
      intro id' m' heq
      rw [heq.1, heq.2]
      exact hnew
  · intro id' content hcontent
    rw [hfirst, Function.update_apply] at hcontent
    split at hcontent
    next =>
      rw [← Option.some.inj hcontent]
      exact hdata
    next => exact h.length hcontent
  · rw [hfirst, Function.update_of_ne hid.symm]
    exact h.zero

/-- A machine that stores a block has it in `localIDs`. -/
theorem Truthful.local_of_stores (h : net.Truthful blockReplica) {id : BlockID} {n : MachineID}
    (hstored : net.Stores id n) : (net.nodes n).localIDs[id]? ≠ none := by
  obtain ⟨data, -, hfile⟩ := hstored
  apply (h.node n).listed
  rw [hfile]
  exact Option.some_ne_none data

/-- Handling a message saves nothing, and the answer is true. -/
theorem Truthful.request (h : net.Truthful blockReplica) {n src : MachineID} {msg : BlockMessage}
    (hflight : (src, msg) ∈ net.inFlight n) {room : Nat}
    {pick : List MachineID → UInt64 → List MachineID}
    {node : BlockNode} {sends : List (Target × BlockMessage)}
    (hrun : (net.nodes n).request blockReplica room pick src msg = .ok (node, sends)) :
    BlockNode.Quiet net.first (net.nodes n) node ∧
      ∀ send ∈ sends, ∀ m, send.1.Reaches n m → send.2.Truthful net.Stores n m := by
  have hmsg := h.flight hflight
  cases msg with
  | requestBlockLocation asker id =>
      obtain ⟨rfl, rfl⟩ := Prod.mk.inj (Except.ok.inj hrun)
      refine ⟨.refl _, fun send hsend m _ => ?_⟩
      rw [List.mem_singleton.mp hsend]
      exact trivial
  | requestBlockLocationACK data =>
      obtain ⟨after, hafter, hrun⟩ := bind_eq_ok_iff.mp hrun
      obtain ⟨rfl, rfl⟩ := Prod.mk.inj (Except.ok.inj hrun)
      exact ⟨.handleRequestBlockLocationACK hafter, truthful_of_silent⟩
  | doReplica data =>
      obtain ⟨after, hafter, hrun⟩ := bind_eq_ok_iff.mp hrun
      obtain ⟨rfl, rfl⟩ := Prod.mk.inj (Except.ok.inj hrun)
      obtain ⟨id, machines, rfl, hmem⟩ := hmsg
      have hlisted := (h.sound.flight hflight).carriesList rfl |>.listed
        (readLocation_locationData id machines)
      have hlocal := h.local_of_stores (hlisted.may_of_mem hmem)
      exact ⟨.handleDoReplica hlocal hafter, truthful_of_silent⟩
  | updateReplica data =>
      obtain ⟨after, hafter, hrun⟩ := bind_eq_ok_iff.mp hrun
      obtain ⟨rfl, rfl⟩ := Prod.mk.inj (Except.ok.inj hrun)
      exact ⟨.handleUpdateReplica hafter, truthful_of_silent⟩
  | copyBlockFromRemote id =>
      obtain ⟨rfl, rfl⟩ := Prod.mk.inj (Except.ok.inj hrun)
      refine ⟨.copies fun task htask => ?_, truthful_of_silent⟩
      rcases List.mem_cons.mp htask with rfl | hold
      · exact Or.inr fun data hdata => absurd hdata (by simp)
      · exact Or.inl hold
  | blockACK id =>
      obtain ⟨rfl, rfl⟩ := Prod.mk.inj (Except.ok.inj hrun)
      exact ⟨.refl _, truthful_of_silent⟩
  | doDelete id => exact absurd hmsg not_false
  | deleteBlock id => exact absurd hmsg not_false

/-- An alive check asks only a machine of the list that it sends. -/
theorem truthful_of_checkReplica {node : BlockNode} {n : MachineID} {attr : Nat}
    {alive : MachineID → Bool} {stores : BlockID → MachineID → Prop} :
    ∀ send ∈ (node.checkReplica blockReplica attr alive).2, ∀ m, send.1.Reaches n m →
      send.2.Truthful stores n m := by
  intro send hsend m hreaches
  obtain ⟨first, rest, -, rfl⟩ := BlockNode.mem_checkReplica hsend
  refine ⟨_, _, rfl, ?_⟩
  rw [← hreaches.1]
  exact List.mem_cons_self

/-- The lists stay well formed, and list the machines that may be listed. -/
theorem Truthful.sound_step (h : net.Truthful blockReplica) (hreplica : 1 ≤ blockReplica)
    {may : BlockID → MachineID → Prop} (hmay : ∀ id m, net.Stores id m → may id m)
    {event : BlockEvent} {net' : BlockNet} (hadmits : net.Admits blockReplica may event)
    (hstep : BlockStep blockReplica net event net') : net'.Sound blockReplica may :=
  (h.sound.mono hmay).step hreplica hadmits hstep

/-- `saveBlock` of a new block, whose ID no block was saved under. -/
theorem Truthful.save (h : net.Truthful blockReplica) (hreplica : 1 ≤ blockReplica)
    {n : MachineID} {data : Bytes} {opens : Bool} {id : BlockID} {node : BlockNode} (hn : n ≠ 0)
    (hdata : data.length = blockSize)
    (hsave : (net.nodes n).saveBlock blockReplica n opens data 0 = (id, node))
    (hlasting : net.Lasting (.save n data opens)) :
    ((net.act n node []).remember id data).Truthful blockReplica := by
  have hstep := BlockStep.save n data opens id node hn hdata hsave
  rcases BlockNode.saveBlock_spec hsave with ⟨rfl, rfl, hquiet⟩ | ⟨rfl, hid, hsaves⟩
  · have hadmits : net.Admits blockReplica net.Stores (.save n data false) :=
      fun hopens => absurd hopens (by simp)
    exact h.quiet (h.sound_step hreplica (fun _ _ hstored => hstored) hadmits hstep) hquiet
      truthful_of_silent
  · rw [if_pos rfl] at hid
    have hne : id ≠ 0 := by
      rw [hid]
      exact buildBlockID_ne_zero hn _
    have hnone : net.first id = none := by
      rw [hid]
      exact hlasting
    have hnodes : ((net.act n node []).remember id data).nodes =
        Function.update net.nodes n node := rfl
    apply h.saves hnodes rfl ?_ hsaves hne hdata ?_ (Or.inl hnone) truthful_of_silent
    · intro hstores hnew
      apply h.sound_step hreplica hstores ?_ hstep
      intro _ id' node' hsave'
      rw [← (Prod.mk.inj (hsave.symm.trans hsave')).1]
      exact hnew
    · unfold remember act
      dsimp only
      rw [if_neg hne, hnone, Option.none_or]

/-- `saveBlock` of a copy, which tells the machine that it was copied from. -/
theorem Truthful.store (h : net.Truthful blockReplica) (hreplica : 1 ≤ blockReplica)
    {n : MachineID} {k : Nat} {opens : Bool} {task : CopyTask} {data : Bytes} {id : BlockID}
    {node : BlockNode} (htask : (net.nodes n).copies[k]? = some task)
    (hdata : task.data = some data)
    (hsave : { net.nodes n with copies := (net.nodes n).copies.eraseIdx k }.saveBlock
      blockReplica n opens data task.block = (id, node)) :
    (net.act n node (if id = 0 then [] else
      [(.machine task.src, .blockACK task.block)])).Truthful blockReplica := by
  have hstep := BlockStep.store n k opens task data id node htask hdata hsave
  rcases BlockNode.saveBlock_spec hsave with ⟨rfl, rfl, hquiet⟩ | ⟨rfl, hid, hsaves⟩
  · have hcopies := @BlockNode.Quiet.copies net.first (net.nodes n)
      ((net.nodes n).copies.eraseIdx k) fun task htask => Or.inl (List.mem_of_mem_eraseIdx htask)
    have hadmits : net.Admits blockReplica net.Stores (.store n k false) :=
      fun hopens => absurd hopens (by simp)
    exact h.quiet (h.sound_step hreplica (fun _ _ hstored => hstored) hadmits hstep)
      (hcopies.trans hquiet) truthful_of_silent
  · have hfirst := (h.node n).copy (List.mem_of_getElem? htask) hdata
    have hne : task.block ≠ 0 := by
      intro hzero
      rw [hzero, h.zero] at hfirst
      exact absurd hfirst (by simp)
    rw [if_neg hne] at hid
    have hsaves' : (net.nodes n).Saves id data node :=
      { hsaves with copy := fun htask => List.mem_of_mem_eraseIdx (hsaves.copy htask) }
    subst hid
    apply h.saves rfl rfl ?_ hsaves' hne (h.length hfirst) ?_ (Or.inr hfirst) ?_
    · intro hstores hnew
      apply h.sound_step hreplica hstores ?_ hstep
      intro _ task' data' id' node' htask' hdata' hsave'
      obtain rfl := Option.some.inj (htask.symm.trans htask')
      obtain rfl := Option.some.inj (hdata.symm.trans hdata')
      rw [← (Prod.mk.inj (hsave.symm.trans hsave')).1]
      exact hnew
    · exact (Function.update_eq_self_iff.mpr hfirst.symm).symm
    · intro send hsend m _
      rw [if_neg hne] at hsend
      rw [List.mem_singleton.mp hsend]
      exact ⟨rfl, rfl⟩

/-- Every step keeps the lists truthful. -/
theorem Truthful.step (h : net.Truthful blockReplica) (hreplica : 1 ≤ blockReplica)
    {event : BlockEvent} {net' : BlockNet} (hlasting : net.Lasting event)
    (hstep : BlockStep blockReplica net event net') : net'.Truthful blockReplica := by
  have hsound (hadmits : net.Admits blockReplica net.Stores event) :
      net'.Sound blockReplica net.Stores :=
    h.sound_step hreplica (fun _ _ hstored => hstored) hadmits hstep
  cases hstep with
  | save n data opens id node hn hdata hsave => exact h.save hreplica hn hdata hsave hlasting
  | askRemote n id =>
      apply h.quiet (hsound trivial) (.refl _)
      intro send hsend m _
      rw [List.mem_singleton.mp hsend]
      exact trivial
  | check n id attr alive hlocal hremote halive =>
      have hundisturbed : net.Undisturbed (.check n id alive) :=
        fun task htask => (h.node n).owned htask
      exact h.quiet (hsound hundisturbed) (.checkReplica _ _ _) truthful_of_checkReplica
  | forget n id => exact h.quiet (hsound trivial) (.removeRemoteID _ _) truthful_of_silent
  | checkAll n id attr pick node hlocal hpick hrun =>
      rw [((h.sound.node n).entry (Or.inl hlocal)).2.1] at hrun
      have hlisted : (net.nodes n).localIDs[id]? ≠ none := by
        rw [hlocal]
        exact Option.some_ne_none attr
      exact h.quiet (hsound trivial) (.handleDoReplica hlisted hrun) truthful_of_silent
  | delete n id => exact absurd hlasting not_false
  | deliver n src msg rest room pick node sends hflight hpick hrun =>
      have hmem : (src, msg) ∈ net.inFlight n := by
        rw [hflight]
        exact Multiset.mem_cons_self _ _
      obtain ⟨hquiet, hsends⟩ := h.request hmem hrun
      exact (h.without hflight).quiet (hsound trivial) hquiet hsends
  | drop n src msg rest hflight => exact h.without hflight
  | askCopy n k task m rest htask hcandidate hasked =>
      have hquiet := @BlockNode.Quiet.set net.first _ k task { task with asked := true } htask rfl
      apply h.quiet (hsound trivial) hquiet
      intro send hsend m' _
      rw [List.mem_singleton.mp hsend]
      exact trivial
  | skipCopy n k task m rest htask hcandidate =>
      have hquiet := @BlockNode.Quiet.set net.first _ k task
        { task with candidate := rest, asked := false } htask rfl
      exact h.quiet (hsound trivial) hquiet truthful_of_silent
  | takeCopy n k task m rest flight htask hcandidate hasked hflight =>
      have hadmits : net.Admits blockReplica net.Stores (.takeCopy n k) :=
        fun task' m' rest' _ _ hmem => h.flight hmem
      exact (h.without hflight).quiet (hsound hadmits) (.addCandidate htask m rest) truthful_of_silent
  | finish n k task htask hcandidate =>
      apply h.quiet (hsound trivial) (.finishReplica _ k task)
      intro send hsend m _
      rw [List.mem_singleton.mp hsend]
      exact trivial
  | load n k task content htask hdata hfile =>
      have hfirst := (h.node task.src).file hfile
      apply h.quiet (hsound trivial) (.copies fun other hother => ?_) truthful_of_silent
      rcases List.mem_or_eq_of_mem_set hother with hold | rfl
      · exact Or.inl hold
      · refine Or.inr fun data hloaded => ?_
        rw [← Option.some.inj hloaded, BlockManager.loadFile_eq (h.length hfirst)]
        exact hfirst
  | loadFails n k task htask hdata =>
      have hcopies := @BlockNode.Quiet.copies net.first (net.nodes n)
        ((net.nodes n).copies.eraseIdx k) fun task htask => Or.inl (List.mem_of_mem_eraseIdx htask)
      exact h.quiet (hsound trivial) (hcopies.trans (.removeRemoteID _ _)) truthful_of_silent
  | store n k opens task data id node htask hdata hsave =>
      exact h.store hreplica htask hdata hsave

theorem invariant_truthful (hreplica : 1 ≤ blockReplica) :
    ((blockSystem blockReplica).restrict Lasting).Invariant (Truthful blockReplica) where
  init hinit := by
    rw [hinit]
    exact truthful_empty
  step h hstep := h.step hreplica hstep.1 hstep.2

end Steps

/-- In every run without deletions in which IDs are not handed out twice, every
machine that is listed for a block, on some machine or in some message, has the
bytes with which the block was first saved. -/
theorem stores_of_run {blockReplica : UInt64} (hreplica : 1 ≤ blockReplica)
    {events : List BlockEvent} {net : BlockNet}
    (hrun : ((blockSystem blockReplica).restrict Lasting).Run events net) :
    (∀ n id attr m, (net.nodes n).Refers id attr → m ∈ ((net.nodes n).attrs attr).machine →
      net.Stores id m) ∧
    (∀ n src msg data, (src, msg) ∈ net.inFlight n → msg.listData = some data →
      ∃ id machines, readLocation data = .ok (id, machines) ∧ ∀ m ∈ machines, net.Stores id m) := by
  have hsound := ((invariant_truthful hreplica).run hrun).sound
  refine ⟨?_, ?_⟩
  · intro n id attr m hrefers hmem
    exact ((hsound.node n).entry hrefers).2.2.may_of_mem hmem
  · intro n src msg data hflight hlist
    obtain ⟨id, machines, rfl, hlisted⟩ := (hsound.flight hflight).carriesList hlist
    exact ⟨id, machines, readLocation_locationData id machines, fun m hmem =>
      hlisted.may_of_mem hmem⟩

/-- Both machines on the lists have the block, and the message about it is on its way. -/
theorem stores_of_run_example :
    ∃ net, ((blockSystem 2).restrict Lasting).Run
        (.save 1 allocateMem true :: copyTold (buildBlockID 1 1)) net ∧
      net.Stores (buildBlockID 1 1) 1 ∧ net.Stores (buildBlockID 1 1) 2 ∧
      ∃ id machines, readLocation (locationData (buildBlockID 1 1) [1, 2]) = .ok (id, machines) ∧
        ∀ m ∈ machines, net.Stores id m := by
  obtain ⟨net, hfold, hlocal, hmachine, hflight⟩ := exists_copyTold
  have hrun : ((blockSystem 2).restrict Lasting).Run
      (.save 1 allocateMem true :: copyTold (buildBlockID 1 1)) net := by
    refine ⟨empty, rfl, .cons ⟨rfl, step_oneBlock⟩
      (steps_of_next (answersAmong_copyTold _) ?_ hfold)⟩
    simp [copyTold, Lasting]
  obtain ⟨hlists, hmessages⟩ := stores_of_run (by decide) hrun
  have hstores (m : MachineID) (hm : m ∈ [1, 2]) : net.Stores (buildBlockID 1 1) m :=
    hlists 1 _ 0 m (Or.inl hlocal) (hmachine ▸ hm)
  exact ⟨net, hrun, hstores 1 (by decide), hstores 2 (by decide), hmessages 2 1 _ _ hflight rfl⟩

end BlockNet

end Doopey
