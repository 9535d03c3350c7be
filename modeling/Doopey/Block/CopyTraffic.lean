import Mathlib.Data.Multiset.Filter
import Doopey.Block.TruthfulLists

/-!
# What goes on for one block

The calls of `handleDoReplica` and of `handleCopyBlockFromRemote` for a block, the
messages about its copies, and what every step leaves of them that is not about the
block.
-/

namespace Doopey

open Foundation

section Lists

variable {α : Type*} {p : α → Bool} {xs : List α} {k : Nat} {x y z : α}

theorem exists_split_of_getElem? (hget : xs[k]? = some x) :
    ∃ before after, xs = before ++ x :: after ∧ xs.eraseIdx k = before ++ after ∧
      ∀ y, xs.set k y = before ++ y :: after := by
  obtain ⟨hk, rfl⟩ := List.getElem?_eq_some_iff.mp hget
  refine ⟨xs.take k, xs.drop (k + 1), ?_, List.eraseIdx_eq_take_drop_succ xs k, fun y => ?_⟩
  · rw [List.getElem_cons_drop hk, List.take_append_drop]
  · exact List.set_eq_take_append_cons_drop.trans (if_pos hk)

/-- An entry that does not matter is replaced by another one, or goes. -/
theorem filter_set_of_false (hget : xs[k]? = some x) (hx : p x = false) (hy : p y = false) :
    (xs.set k y).filter p = xs.filter p ∧ (xs.eraseIdx k).filter p = xs.filter p := by
  obtain ⟨before, after, hsplit, herase, hset⟩ := exists_split_of_getElem? hget
  constructor
  · rw [hset, hsplit]
    simp [hx, hy]
  · rw [herase, hsplit]
    simp [hx]

/-- The only entry that matters is replaced, or goes. -/
theorem filter_set_of_singleton (hget : xs[k]? = some x) (hx : p x = true)
    (hfilter : xs.filter p = [z]) :
    x = z ∧ (p y = true → (xs.set k y).filter p = [y]) ∧ (xs.eraseIdx k).filter p = [] := by
  obtain ⟨before, after, hsplit, herase, hset⟩ := exists_split_of_getElem? hget
  rw [hsplit, List.filter_append, List.filter_cons_of_pos hx] at hfilter
  -- anything in front of it would be a second entry that matters
  obtain ⟨hbefore, hrest⟩ : before.filter p = [] ∧ x :: after.filter p = [z] := by
    cases hbefore : before.filter p with
    | nil => exact ⟨rfl, by rwa [hbefore, List.nil_append] at hfilter⟩
    | cons first rest =>
        rw [hbefore] at hfilter
        exact absurd (List.cons.inj hfilter).2 (by simp)
  obtain ⟨rfl, hafter⟩ := List.cons.inj hrest
  refine ⟨rfl, fun hy => ?_, ?_⟩
  · rw [hset, List.filter_append, List.filter_cons_of_pos hy, hbefore, hafter]
    rfl
  · rw [herase, List.filter_append, hbefore, hafter]
    rfl

end Lists

/-- The message is about copies of the block, or tells who has them. -/
def BlockMessage.Concerns (id : BlockID) : BlockMessage → Bool
  | copyBlockFromRemote id' | blockACK id' => id' == id
  | updateReplica data => (readLocation data).toOption.any fun location => location.1 == id
  | _ => false

theorem BlockMessage.concerns_updateReplica (id id' : BlockID) (machines : List MachineID) :
    (updateReplica (locationData id' machines)).Concerns id = (id' == id) := by
  rw [Concerns, readLocation_locationData]
  rfl

theorem BlockMessage.concerns_update (id : BlockID) (machines : List MachineID) :
    (updateReplica (locationData id machines)).Concerns id = true := by
  rw [concerns_updateReplica]
  exact beq_self_eq_true id

namespace BlockNode

/-- The calls of `handleDoReplica` for a block. -/
def tasksOf (node : BlockNode) (id : BlockID) : List ReplicaTask :=
  node.replicas.filter (·.block == id)

/-- The calls of `handleCopyBlockFromRemote` for a block. -/
def copiesOf (node : BlockNode) (id : BlockID) : List CopyTask :=
  node.copies.filter (·.block == id)

theorem mem_tasksOf {node : BlockNode} {id : BlockID} {k : Nat} {task : ReplicaTask}
    (hget : node.replicas[k]? = some task) (hblock : task.block = id) : task ∈ node.tasksOf id :=
  List.mem_filter.mpr ⟨List.mem_of_getElem? hget, beq_iff_eq.mpr hblock⟩

theorem mem_copiesOf {node : BlockNode} {id : BlockID} {k : Nat} {copy : CopyTask}
    (hget : node.copies[k]? = some copy) (hblock : copy.block = id) : copy ∈ node.copiesOf id :=
  List.mem_filter.mpr ⟨List.mem_of_getElem? hget, beq_iff_eq.mpr hblock⟩

/-- Nothing has changed for a block but where else it is thought to be. -/
structure Calm (id : BlockID) (node node' : BlockNode) : Prop where
  localIDs : node'.localIDs[id]? = node.localIDs[id]?
  machine {attr : Nat} : node.localIDs[id]? = some attr →
    (node'.attrs attr).machine = (node.attrs attr).machine
  tasks : node'.tasksOf id = node.tasksOf id
  copies : node'.copiesOf id = node.copiesOf id

section Node

variable {blockReplica : UInt64} {may : BlockID → MachineID → Prop} {node node' node'' : BlockNode}
  {id : BlockID}

/-- A list is that of one block only. -/
theorem Sound.block_unique (h : node.Sound blockReplica may) {id' : BlockID} {attr : Nat}
    (hrefers : node.Refers id attr) (hrefers' : node.Refers id' attr) : id = id' :=
  (h.entry hrefers).2.1.symm.trans (h.entry hrefers').2.1

namespace Calm

theorem refl (id : BlockID) (node : BlockNode) : Calm id node node :=
  ⟨rfl, fun _ => rfl, rfl, rfl⟩

theorem trans (h : Calm id node node') (h' : Calm id node' node'') : Calm id node node'' where
  localIDs := h'.localIDs.trans h.localIDs
  machine hlocal := (h'.machine (h.localIDs.trans hlocal)).trans (h.machine hlocal)
  tasks := h'.tasks.trans h.tasks
  copies := h'.copies.trans h.copies

/-- The list of another entry is changed. -/
theorem modify (node : BlockNode) {attr : Nat} (change : BlockLocationAttr → BlockLocationAttr)
    (hother : node.localIDs[id]? ≠ some attr) : Calm id node (node.modify attr change) where
  localIDs := rfl
  machine {attr'} hlocal := by
    have hne : attr' ≠ attr := by
      rintro rfl
      exact hother hlocal
    unfold BlockNode.modify
    dsimp only
    rw [Function.update_of_ne hne]
  tasks := rfl
  copies := rfl

theorem removeRemoteID (node : BlockNode) (id' : BlockID) :
    Calm id node (node.removeRemoteID id') := { refl id node with }

theorem cleanCache (node : BlockNode) : Calm id node node.cleanCache := by
  have hround (node : BlockNode) : Calm id node node.eraseFirst := by
    unfold BlockNode.eraseFirst
    split
    next => exact refl id node
    next => exact removeRemoteID node _
  exact (hround _).trans <| (hround _).trans <| (hround _).trans <|
    (hround _).trans (hround _)

/-- A task of another block goes on or ends. -/
theorem replicas (node : BlockNode) {k : Nat} {task : ReplicaTask}
    (htask : node.replicas[k]? = some task) (hne : task.block ≠ id) :
    (∀ task' : ReplicaTask, task'.block = task.block →
      Calm id node { node with replicas := node.replicas.set k task' }) ∧
      Calm id node { node with replicas := node.replicas.eraseIdx k } := by
  have hfalse : (task.block == id) = false := beq_false_of_ne hne
  constructor
  · intro task' hblock
    refine { refl id node with tasks := (filter_set_of_false htask hfalse ?_).1 }
    rw [hblock]
    exact hfalse
  · exact { refl id node with tasks := (filter_set_of_false htask hfalse hfalse).2 }

/-- A copy of another block goes on or ends. -/
theorem copied (node : BlockNode) {k : Nat} {task : CopyTask}
    (htask : node.copies[k]? = some task) (hne : task.block ≠ id) :
    (∀ task' : CopyTask, task'.block = task.block →
      Calm id node { node with copies := node.copies.set k task' }) ∧
      Calm id node { node with copies := node.copies.eraseIdx k } := by
  have hfalse : (task.block == id) = false := beq_false_of_ne hne
  constructor
  · intro task' hblock
    refine { refl id node with copies := (filter_set_of_false htask hfalse ?_).1 }
    rw [hblock]
    exact hfalse
  · exact { refl id node with copies := (filter_set_of_false htask hfalse hfalse).2 }

/-- An alive check works on an entry of `remoteIDs`. -/
theorem checkReplica (hsound : node.Sound blockReplica may) {id' : BlockID} {attr : Nat}
    (hremote : node.remoteIDs[id']? = some attr) (alive : MachineID → Bool) :
    Calm id node (node.checkReplica blockReplica attr alive).1 := by
  have hother : node.localIDs[id]? ≠ some attr := fun hlocal => hsound.apart hlocal hremote
  unfold BlockNode.checkReplica
  dsimp only
  split
  next => exact (modify node _ hother).trans (removeRemoteID _ _)
  next =>
    dsimp only
    exact modify node _ hother

theorem forceAddRemoteID (hsound : node.Sound blockReplica may) (m : MachineID) (id' : BlockID) :
    Calm id node (node.forceAddRemoteID blockReplica m id') where
  localIDs := rfl
  machine {attr} hlocal := by
    -- a new list is at a new address
    have hlt := (hsound.entry (Or.inl hlocal)).1
    unfold BlockNode.forceAddRemoteID
    dsimp only
    rw [Function.update_of_ne (Nat.ne_of_lt hlt)]
  tasks := rfl
  copies := rfl

theorem handleRequestBlockLocationACK (hsound : node.Sound blockReplica may) {data : Bytes}
    (hrun : node.handleRequestBlockLocationACK blockReplica data = .ok node') :
    Calm id node node' := by
  unfold BlockNode.handleRequestBlockLocationACK at hrun
  split at hrun
  next =>
    rw [← Except.ok.inj hrun]
    exact refl id node
  next =>
    obtain ⟨⟨id', machines⟩, -, hrun⟩ := bind_eq_ok_iff.mp hrun
    dsimp only at hrun
    split at hrun
    next => exact absurd hrun (by simp)
    next m rest =>
      split at hrun
      next attr hremote =>
        rw [← Except.ok.inj hrun]
        exact modify node _ fun hlocal => hsound.apart hlocal hremote
      next =>
        rw [← Except.ok.inj hrun]
        have hcleaned : ∃ cleaned, (if remoteSizeMax ≤ node.remoteIDs.size then node.cleanCache
            else node) = cleaned ∧ cleaned.Sound blockReplica may ∧ Calm id node cleaned := by
          refine ⟨_, rfl, ?_⟩
          split
          next => exact ⟨hsound.cleanCache, cleanCache node⟩
          next => exact ⟨hsound, refl id node⟩
        obtain ⟨cleaned, heq, hsound', hcalm⟩ := hcleaned
        rw [heq]
        refine (hcalm.trans (forceAddRemoteID hsound' m id')).trans (modify _ _ fun hlocal => ?_)
        -- no entry has the address of the list that was just made
        exact Nat.lt_irrefl _ (hsound'.entry (Or.inl hlocal)).1

/-- The list of another block is replaced. -/
theorem handleUpdateReplica (hsound : node.Sound blockReplica may) {id' : BlockID}
    {machines : List MachineID} (hne : id' ≠ id)
    (hrun : node.handleUpdateReplica (locationData id' machines) = .ok node') :
    Calm id node node' := by
  have hother {attr : Nat} (hrefers : node.Refers id' attr) : node.localIDs[id]? ≠ some attr :=
    fun hlocal => hne (hsound.block_unique hrefers (Or.inl hlocal))
  rw [BlockNode.handleUpdateReplica, readLocation_locationData, ok_bind] at hrun
  rw [← Except.ok.inj hrun]
  cases hlocal : node.localIDs[id']? with
  | none =>
      cases hremote : node.remoteIDs[id']? with
      | none => exact refl id node
      | some attr => exact modify node _ (hother (Or.inr (Or.inl hremote)))
  | some attr =>
      have hfirst := modify node (fun attr => { attr with machine := machines })
        (hother (Or.inl hlocal))
      cases hremote : node.remoteIDs[id']? with
      | none => exact hfirst
      | some attr' =>
          exact hfirst.trans (modify _ _ (hother (Or.inr (Or.inl hremote))))

/-- Copies of another block are to be made. -/
theorem handleDoReplica (hsound : node.Sound blockReplica may)
    {pick : List MachineID → UInt64 → List MachineID} {id' : BlockID} {machines : List MachineID}
    (hne : id' ≠ id)
    (hrun : node.handleDoReplica blockReplica pick (locationData id' machines) = .ok node') :
    Calm id node node' := by
  rw [BlockNode.handleDoReplica, readLocation_locationData, ok_bind] at hrun
  dsimp only at hrun
  split at hrun
  next =>
    rw [← Except.ok.inj hrun]
    exact refl id node
  next attr hask =>
    split at hrun
    next =>
      rw [← Except.ok.inj hrun]
      exact refl id node
    next =>
      have hother : node.localIDs[id]? ≠ some attr := fun hlocal => by
        refine hne (hsound.block_unique ?_ (Or.inl hlocal))
        exact (refers_of_askBlockDetail hask).imp_right Or.inl
      have hrebuilt : Calm id node (node.modify attr fun attr =>
          { attr with machine := [] }.addMachines blockReplica machines) := modify node _ hother
      rw [← Except.ok.inj hrun]
      refine { hrebuilt with tasks := ?_ }
      exact List.filter_cons_of_neg (by simpa using hne)

theorem addCandidate (hsound : node.Sound blockReplica may) {k : Nat} {task : ReplicaTask}
    (htask : node.replicas[k]? = some task) (hne : task.block ≠ id) (m : MachineID)
    (rest : List MachineID) : Calm id node (node.addCandidate blockReplica k task m rest) := by
  have hrefers : node.Refers task.block task.attr :=
    Or.inr (Or.inr ⟨task, List.mem_of_getElem? htask, rfl, rfl⟩)
  have hadded : Calm id node (node.modify task.attr (·.addMachine blockReplica m)) :=
    modify node _ fun hlocal => hne (hsound.block_unique hrefers (Or.inl hlocal))
  have hset := (replicas (node.modify task.attr (·.addMachine blockReplica m)) htask hne).1
    { task with candidate := rest, asked := false } rfl
  exact hadded.trans hset

/-- Another block is saved. -/
theorem enters (hsound : node.Sound blockReplica may) {me : MachineID} {id' : BlockID}
    {data : Bytes} (hne : id' ≠ id) (henters : node.Enters blockReplica me id' data node') :
    Calm id node node' where
  localIDs := by rw [henters.localIDs, getElem?_insert_id, if_neg hne.symm]
  machine {attr} hlocal := by
    have hlt := (hsound.entry (Or.inl hlocal)).1
    rw [henters.attrs, Function.update_of_ne (Nat.ne_of_lt hlt)]
  tasks := by rw [tasksOf, henters.replicas, tasksOf]
  copies := by rw [copiesOf, henters.copies, copiesOf]

theorem saveBlock (hsound : node.Sound blockReplica may) {me : MachineID} {opens : Bool}
    {data : Bytes} {id' newID : BlockID} (hne : opens = true → newID ≠ id)
    (hsave : node.saveBlock blockReplica me opens data id' = (newID, node')) :
    Calm id node node' := by
  cases opens with
  | true => exact enters hsound (hne rfl) (enters_saveBlock hsave)
  | false =>
      unfold BlockNode.saveBlock at hsave
      by_cases hid : id' = 0
      · rw [if_pos hid] at hsave
        rw [← (Prod.mk.inj hsave).2]
        exact { refl id node with }
      · rw [if_neg hid] at hsave
        rw [← (Prod.mk.inj hsave).2]
        exact refl id node

end Calm

end Node

end BlockNode

theorem arriving_singleton (src : MachineID) (target : Target) (msg : BlockMessage)
    (n : MachineID) :
    arriving src [(target, msg)] n = if target.Reaches src n then {(src, msg)} else 0 := by
  unfold arriving
  by_cases hreaches : target.Reaches src n
  · simp [hreaches]
  · simp [hreaches]

namespace BlockNet

/-- The messages about copies of a block that a machine has yet to handle. -/
def letters (net : BlockNet) (id : BlockID) (n : MachineID) :
    Multiset (MachineID × BlockMessage) :=
  (net.inFlight n).filter fun sent => sent.2.Concerns id = true

section Letters

variable {net : BlockNet} {id : BlockID} {n : MachineID}

theorem letters_act (net : BlockNet) (id : BlockID) (n : MachineID) (node : BlockNode)
    (sends : List (Target × BlockMessage)) (k : MachineID) :
    (net.act n node sends).letters id k =
      net.letters id k + (arriving n sends k).filter fun sent => sent.2.Concerns id = true :=
  Multiset.filter_add _ _ _

/-- What is sent is not about the block. -/
theorem letters_act_of_silent (node : BlockNode) {sends : List (Target × BlockMessage)}
    (hsilent : ∀ send ∈ sends, send.2.Concerns id = false) (k : MachineID) :
    (net.act n node sends).letters id k = net.letters id k := by
  have hnone : (arriving n sends k).filter (fun sent => sent.2.Concerns id = true) = 0 := by
    rw [Multiset.filter_eq_nil]
    intro sent hmem
    obtain ⟨send, hsend, -, rfl⟩ := mem_arriving.mp hmem
    simp [hsilent send hsend]
  rw [letters_act, hnone, Multiset.add_zero]

theorem letters_act_nil (node : BlockNode) (k : MachineID) :
    (net.act n node []).letters id k = net.letters id k :=
  letters_act_of_silent node (fun _ hsend => absurd hsend List.not_mem_nil) k

theorem letters_act_singleton (node : BlockNode) {target : Target} {msg : BlockMessage}
    (hmsg : msg.Concerns id = true) (k : MachineID) :
    (net.act n node [(target, msg)]).letters id k =
      net.letters id k + if target.Reaches n k then {(n, msg)} else 0 := by
  rw [letters_act, arriving_singleton]
  split
  next => rw [Multiset.filter_singleton, if_pos hmsg]
  next => rw [Multiset.filter_zero]

/-- The letters of a machine before a message left the network. -/
theorem letters_without {sent : MachineID × BlockMessage}
    {rest : Multiset (MachineID × BlockMessage)} (hflight : net.inFlight n = sent ::ₘ rest) :
    (∀ k, k ≠ n → (net.without n rest).letters id k = net.letters id k) ∧
      net.letters id n = if sent.2.Concerns id = true then
        sent ::ₘ (net.without n rest).letters id n else (net.without n rest).letters id n := by
  constructor
  · intro k hk
    unfold letters without
    dsimp only
    rw [Function.update_of_ne hk]
  · unfold letters without
    dsimp only
    rw [Function.update_self, hflight]
    split
    next hconcerns => exact Multiset.filter_cons_of_pos _ hconcerns
    next hnot => exact Multiset.filter_cons_of_neg _ hnot

end Letters

/-- A step that leaves a block and the messages about its copies alone. -/
structure Calm (id : BlockID) (net net' : BlockNet) : Prop where
  nodes (n : MachineID) : BlockNode.Calm id (net.nodes n) (net'.nodes n)
  letters (n : MachineID) : net'.letters id n = net.letters id n

section Calm

variable {net net' net'' : BlockNet} {id : BlockID} {n : MachineID}

theorem Calm.trans (h : Calm id net net') (h' : Calm id net' net'') : Calm id net net'' :=
  ⟨fun n => (h.nodes n).trans (h'.nodes n), fun n => (h'.letters n).trans (h.letters n)⟩

theorem Calm.act {node : BlockNode} {sends : List (Target × BlockMessage)}
    (hnode : BlockNode.Calm id (net.nodes n) node)
    (hsilent : ∀ send ∈ sends, send.2.Concerns id = false) :
    Calm id net (net.act n node sends) where
  nodes k := by
    by_cases heq : k = n
    · rw [heq, nodes_act_self]
      exact hnode
    · rw [nodes_act_of_ne heq]
      exact .refl id _
  letters := letters_act_of_silent node hsilent

theorem Calm.without {sent : MachineID × BlockMessage}
    {rest : Multiset (MachineID × BlockMessage)} (hflight : net.inFlight n = sent ::ₘ rest)
    (hsilent : sent.2.Concerns id = false) : Calm id net (net.without n rest) where
  nodes k := .refl id _
  letters k := by
    obtain ⟨hothers, hself⟩ := @letters_without net id n _ _ hflight
    by_cases heq : k = n
    · rw [heq, hself, if_neg (by simp [hsilent])]
    · exact hothers k heq

theorem Calm.act_nil {node : BlockNode} (hnode : BlockNode.Calm id (net.nodes n) node) :
    Calm id net (net.act n node []) :=
  Calm.act hnode fun _ hsend => absurd hsend List.not_mem_nil

theorem Calm.act_singleton {node : BlockNode} (hnode : BlockNode.Calm id (net.nodes n) node)
    {target : Target} {msg : BlockMessage} (hmsg : msg.Concerns id = false) :
    Calm id net (net.act n node [(target, msg)]) := by
  apply Calm.act hnode
  intro send hsend
  rw [List.mem_singleton.mp hsend]
  exact hmsg

/-- Only a block that was saved is copied. -/
theorem Truthful.block_ne_zero {blockReplica : UInt64} (h : net.Truthful blockReplica) {k : Nat}
    {task : CopyTask} {data : Bytes} (hget : (net.nodes n).copies[k]? = some task)
    (hdata : task.data = some data) : task.block ≠ 0 := by
  intro hzero
  have hfirst := (h.node n).copy (List.mem_of_getElem? hget) hdata
  rw [hzero, h.zero] at hfirst
  exact absurd hfirst (by simp)

/-- The event has to do with copies of the block. -/
def Regards (net : BlockNet) (id : BlockID) : BlockEvent → Prop
  | .save n _ opens => opens = true ∧ ((net.nodes n).newLocalID n).1 = id
  | .checkAll _ id' => id' = id
  | .deliver _ _ (.doReplica data) => ∃ machines, data = locationData id machines
  | .deliver _ _ msg | .drop _ _ msg => msg.Concerns id = true
  | .askCopy n k | .skipCopy n k | .takeCopy n k | .finish n k =>
      ∃ task, (net.nodes n).replicas[k]? = some task ∧ task.block = id
  | .load n k | .loadFails n k | .store n k _ =>
      ∃ task, (net.nodes n).copies[k]? = some task ∧ task.block = id
  | _ => False

/-- Handling a message that is not about copies of the block. -/
theorem Calm.request {blockReplica : UInt64} (h : net.Truthful blockReplica) {src : MachineID}
    {msg : BlockMessage} (hmem : (src, msg) ∈ net.inFlight n)
    (hnot : ¬ net.Regards id (.deliver n src msg))
    {room : Nat} {pick : List MachineID → UInt64 → List MachineID} {node : BlockNode}
    {sends : List (Target × BlockMessage)}
    (hrun : (net.nodes n).request blockReplica room pick src msg = .ok (node, sends)) :
    BlockNode.Calm id (net.nodes n) node ∧ ∀ send ∈ sends, send.2.Concerns id = false := by
  have hsilent : ∀ send ∈ ([] : List (Target × BlockMessage)), send.2.Concerns id = false :=
    fun _ hsend => absurd hsend List.not_mem_nil
  have hsound := h.sound.node n
  cases msg with
  | requestBlockLocation asker id' =>
      obtain ⟨rfl, rfl⟩ := Prod.mk.inj (Except.ok.inj hrun)
      refine ⟨.refl id _, fun send hsend => ?_⟩
      rw [List.mem_singleton.mp hsend]
      rfl
  | requestBlockLocationACK data =>
      obtain ⟨after, hafter, hrun⟩ := bind_eq_ok_iff.mp hrun
      obtain ⟨rfl, rfl⟩ := Prod.mk.inj (Except.ok.inj hrun)
      exact ⟨.handleRequestBlockLocationACK hsound hafter, hsilent⟩
  | doReplica data =>
      obtain ⟨after, hafter, hrun⟩ := bind_eq_ok_iff.mp hrun
      obtain ⟨rfl, rfl⟩ := Prod.mk.inj (Except.ok.inj hrun)
      obtain ⟨id', machines, rfl, -⟩ := h.flight hmem
      have hne : id' ≠ id := by
        rintro rfl
        exact hnot ⟨machines, rfl⟩
      exact ⟨.handleDoReplica hsound hne hafter, hsilent⟩
  | updateReplica data =>
      obtain ⟨after, hafter, hrun⟩ := bind_eq_ok_iff.mp hrun
      obtain ⟨rfl, rfl⟩ := Prod.mk.inj (Except.ok.inj hrun)
      obtain ⟨id', machines, rfl, -⟩ := h.sound.flight hmem
      have hne : id' ≠ id := by
        rintro rfl
        refine hnot ?_
        change (BlockMessage.updateReplica _).Concerns id' = true
        rw [BlockMessage.concerns_updateReplica]
        exact beq_self_eq_true id'
      exact ⟨.handleUpdateReplica hsound hne hafter, hsilent⟩
  | copyBlockFromRemote id' =>
      obtain ⟨rfl, rfl⟩ := Prod.mk.inj (Except.ok.inj hrun)
      have hne : ¬ (id' == id) = true := hnot
      refine ⟨{ BlockNode.Calm.refl id (net.nodes n) with copies := ?_ }, hsilent⟩
      exact List.filter_cons_of_neg hne
  | blockACK id' =>
      obtain ⟨rfl, rfl⟩ := Prod.mk.inj (Except.ok.inj hrun)
      exact ⟨.refl id _, hsilent⟩
  | doDelete id' => exact absurd (h.flight hmem) not_false
  | deleteBlock id' => exact absurd (h.flight hmem) not_false

/-- A step that has nothing to do with copies of the block leaves it alone. -/
theorem calm_of_step {blockReplica : UInt64} (h : net.Truthful blockReplica) {event : BlockEvent}
    (hlasting : net.Lasting event) (hnot : ¬ net.Regards id event)
    (hstep : BlockStep blockReplica net event net') : Calm id net net' := by
  have htask {n : MachineID} {k : Nat} {task : ReplicaTask}
      (htask : (net.nodes n).replicas[k]? = some task)
      (hnot : ¬ ∃ task, (net.nodes n).replicas[k]? = some task ∧ task.block = id) :
      task.block ≠ id := fun heq => hnot ⟨task, htask, heq⟩
  have hcopy {n : MachineID} {k : Nat} {task : CopyTask}
      (htask : (net.nodes n).copies[k]? = some task)
      (hnot : ¬ ∃ task, (net.nodes n).copies[k]? = some task ∧ task.block = id) :
      task.block ≠ id := fun heq => hnot ⟨task, htask, heq⟩
  cases hstep with
  | save n data opens newID node hn hdata hsave =>
      have hnode : BlockNode.Calm id (net.nodes n) node := by
        apply BlockNode.Calm.saveBlock (h.sound.node n) _ hsave
        rintro rfl
        have hid := BlockNode.id_of_saveBlock hsave
        exact fun heq => hnot ⟨rfl, ((if_pos rfl).symm.trans hid.symm).trans heq⟩
      exact ⟨(Calm.act_nil hnode).nodes, (Calm.act_nil hnode).letters⟩
  | askRemote n id' =>
      exact Calm.act_singleton (.refl id _) rfl
  | check n id' attr alive hlocal hremote halive =>
      apply Calm.act (.checkReplica (h.sound.node n) hremote alive)
      intro send hsend
      obtain ⟨first, rest, -, rfl⟩ := BlockNode.mem_checkReplica hsend
      rfl
  | forget n id' => exact Calm.act_nil (.removeRemoteID _ id')
  | checkAll n id' attr pick node hlocal hpick hrun =>
      rw [((h.sound.node n).entry (Or.inl hlocal)).2.1] at hrun
      exact Calm.act_nil (.handleDoReplica (h.sound.node n) hnot hrun)
  | delete n id' => exact absurd hlasting not_false
  | deliver n src msg rest room pick node sends hflight hpick hrun =>
      have hmem : (src, msg) ∈ net.inFlight n := by
        rw [hflight]
        exact Multiset.mem_cons_self _ _
      obtain ⟨hnode, hsends⟩ := Calm.request h hmem hnot hrun
      have hmsg : msg.Concerns id = false := by
        cases msg with
        | doReplica data => rfl
        | _ => exact Bool.eq_false_of_not_eq_true hnot
      exact (Calm.without hflight hmsg).trans (.act hnode hsends)
  | drop n src msg rest hflight =>
      exact Calm.without hflight (Bool.eq_false_of_not_eq_true hnot)
  | askCopy n k task m rest hget hcandidate hasked =>
      have hne := htask hget hnot
      exact Calm.act_singleton
        ((BlockNode.Calm.replicas _ hget hne).1 { task with asked := true } rfl)
        (beq_false_of_ne hne)
  | skipCopy n k task m rest hget hcandidate =>
      exact Calm.act_nil ((BlockNode.Calm.replicas _ hget (htask hget hnot)).1
        { task with candidate := rest, asked := false } rfl)
  | takeCopy n k task m rest flight hget hcandidate hasked hflight =>
      have hne := htask hget hnot
      exact (Calm.without hflight (beq_false_of_ne hne)).trans
        (.act_nil (.addCandidate (h.sound.node n) hget hne m rest))
  | finish n k task hget hcandidate =>
      have hne := htask hget hnot
      have hblock : ((net.nodes n).attrs task.attr).block = task.block :=
        ((h.sound.node n).entry (Or.inr (Or.inr ⟨task, List.mem_of_getElem? hget, rfl, rfl⟩))).2.1
      apply Calm.act_singleton (BlockNode.Calm.replicas _ hget hne).2
      rw [BlockMessage.concerns_updateReplica, hblock]
      exact beq_false_of_ne hne
  | load n k task content hget hdata hfile =>
      exact Calm.act_nil ((BlockNode.Calm.copied _ hget (hcopy hget hnot)).1
        { task with data := some (BlockManager.loadFile content) } rfl)
  | loadFails n k task hget hdata =>
      exact Calm.act_nil ((BlockNode.Calm.copied _ hget (hcopy hget hnot)).2.trans
        (.removeRemoteID _ _))
  | store n k opens task data newID node hget hdata hsave =>
      have hne := hcopy hget hnot
      have hzero : task.block ≠ 0 := h.block_ne_zero hget hdata
      have hbefore : BlockNode.Calm id (net.nodes n)
          { net.nodes n with copies := (net.nodes n).copies.eraseIdx k } :=
        (BlockNode.Calm.copied _ hget hne).2
      have hsound : { net.nodes n with
          copies := (net.nodes n).copies.eraseIdx k }.Sound blockReplica net.Stores :=
        (h.sound.node n).of_refers rfl rfl (fun _ _ hget => hget) (fun _ _ hget => hget)
          fun task htask => ⟨task, htask, rfl, rfl⟩
      have hother : opens = true → newID ≠ id := by
        rintro rfl
        rw [BlockNode.id_of_saveBlock hsave, if_neg hzero]
        exact hne
      have hnode := hbefore.trans (.saveBlock hsound hother hsave)
      split
      next => exact Calm.act_nil hnode
      next => exact Calm.act_singleton hnode (beq_false_of_ne hne)

end Calm

end BlockNet

end Doopey
