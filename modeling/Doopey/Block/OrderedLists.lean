import Doopey.Block.WellFormedLists

/-!
# Every entry has an ordered list of its own

In every run, whatever an alive check disturbs, the lists of all machines are increasing and
no longer than `blockReplica`, and an entry shares its list with no entry for another block.
A list that takes up the machines of another one is what both have, so far as there is room.
-/

namespace Doopey

open Foundation

namespace BlockLocationAttr

variable {blockReplica : UInt64} {attr : BlockLocationAttr} {machines : List MachineID}

/-- The machines that a list does not have, as many as it has room for. -/
def newMachines (blockReplica : UInt64) (machine machines : List MachineID) : List MachineID :=
  (machines.filter fun m => m ∉ machine).take (blockReplica.toNat - machine.length)

theorem inOrder_addMachines (h : InOrder blockReplica attr.machine) (machines : List MachineID) :
    InOrder blockReplica (attr.addMachines blockReplica machines).machine := by
  induction machines generalizing attr with
  | nil => exact h
  | cons m machines ih => exact ih (inOrder_addMachine h m)

/-- A list that has a machine or no room for it stays as it is. -/
theorem addMachine_of_not_new {m : MachineID}
    (hold : blockReplica.toNat ≤ attr.machine.length ∨ m ∈ attr.machine) :
    attr.addMachine blockReplica m = attr := by
  unfold addMachine
  split
  next => rfl
  next hroom => rw [if_pos (hold.resolve_left hroom)]

theorem length_addMachine_of_new {m : MachineID} (hroom : attr.machine.length < blockReplica.toNat)
    (hnew : m ∉ attr.machine) :
    (attr.addMachine blockReplica m).machine.length = attr.machine.length + 1 := by
  rw [addMachine, if_neg (Nat.not_le_of_lt hroom), if_neg hnew]
  dsimp only
  rw [List.length_insertionSort, List.length_append, List.length_singleton]

/-- Which machines are on a list that takes up others. -/
theorem mem_addMachines_iff_new (hnodup : machines.Nodup) {other : MachineID} :
    other ∈ (attr.addMachines blockReplica machines).machine ↔
      other ∈ attr.machine ∨ other ∈ newMachines blockReplica attr.machine machines := by
  induction machines generalizing attr with
  | nil => simp [addMachines, newMachines]
  | cons m machines ih =>
      obtain ⟨hm, hmachines⟩ := List.nodup_cons.mp hnodup
      change other ∈ ((attr.addMachine blockReplica m).addMachines blockReplica machines).machine ↔ _
      rw [ih hmachines]
      by_cases hold : blockReplica.toNat ≤ attr.machine.length ∨ m ∈ attr.machine
      · rw [addMachine_of_not_new hold]
        rcases hold with hfull | hmem
        · simp [newMachines, Nat.sub_eq_zero_of_le hfull]
        · simp [newMachines, hmem]
      · obtain ⟨hroom, hnew⟩ := not_or.mp hold
        have hroom := Nat.lt_of_not_le hroom
        -- `m` comes first, and nothing else is new because of it
        have hrest : newMachines blockReplica (attr.addMachine blockReplica m).machine machines =
            (machines.filter fun m => m ∉ attr.machine).take
              (blockReplica.toNat - (attr.machine.length + 1)) := by
          rw [newMachines, length_addMachine_of_new hroom hnew]
          congr 1
          apply List.filter_congr
          intro x hx
          have hne : x ≠ m := fun heq => hm (heq ▸ hx)
          simp [mem_addMachine_iff hroom, hne]
        have hfirst : newMachines blockReplica attr.machine (m :: machines) =
            m :: newMachines blockReplica (attr.addMachine blockReplica m).machine machines := by
          rw [hrest, newMachines, List.filter_cons_of_pos (by simpa using hnew)]
          have hsub : blockReplica.toNat - attr.machine.length =
              blockReplica.toNat - (attr.machine.length + 1) + 1 := by omega
          rw [hsub, List.take_succ_cons]
        rw [hfirst, List.mem_cons, mem_addMachine_iff hroom, or_assoc]

/-- A list that may be kept is rebuilt as it is. -/
theorem machine_addMachines_nil (h : WellFormed blockReplica machines) (attr : BlockLocationAttr) :
    ({ attr with machine := [] }.addMachines blockReplica machines).machine = machines := by
  have hnodup : machines.Nodup := h.increasing.imp fun hlt => UInt32.ne_of_lt hlt
  have hnew : newMachines blockReplica [] machines = machines := by
    rw [newMachines, List.filter_eq_self.mpr (by simp), List.length_nil, Nat.sub_zero,
      List.take_of_length_le h.bounded]
  refine List.Pairwise.eq_of_mem_iff
    (inOrder_addMachines ⟨List.Pairwise.nil, Nat.zero_le _⟩ machines).1 h.increasing fun other => ?_
  rw [mem_addMachines_iff_new hnodup]
  dsimp only
  rw [hnew, or_iff_right List.not_mem_nil]

end BlockLocationAttr

open BlockLocationAttr

/-- The lists that a message brings are in order. -/
def BlockMessage.Ordered (blockReplica : UInt64) : BlockMessage → Prop
  | updateReplica data => ∀ id machines, readLocation data = .ok (id, machines) →
      InOrder blockReplica machines
  | _ => True

namespace BlockNode

/-- The list is that of an entry in one of the two maps. -/
def Entry (node : BlockNode) (id : BlockID) (attr : Nat) : Prop :=
  node.localIDs[id]? = some attr ∨ node.remoteIDs[id]? = some attr

/-- All lists are in order, and that of an entry is for the block of the entry. -/
structure Ordered (blockReplica : UInt64) (node : BlockNode) : Prop where
  entry {id : BlockID} {attr : Nat} : node.Entry id attr →
    attr < node.brk ∧ (node.attrs attr).block = id
  list (attr : Nat) : InOrder blockReplica (node.attrs attr).machine

variable {blockReplica : UInt64} {node node' : BlockNode}

theorem ordered_empty : empty.Ordered blockReplica where
  entry hentry := by
    rcases hentry with hlocal | hremote
    · exact absurd hlocal (by simp [empty])
    · exact absurd hremote (by simp [empty])
  list _ := ⟨List.Pairwise.nil, Nat.zero_le _⟩

/-- Lists are changed in their places, and entries are taken away. -/
theorem Ordered.of_entry (h : node.Ordered blockReplica) (hbrk : node'.brk = node.brk)
    (hblock : ∀ attr, (node'.attrs attr).block = (node.attrs attr).block)
    (hlist : ∀ attr, InOrder blockReplica (node'.attrs attr).machine)
    (hentry : ∀ id attr, node'.Entry id attr → node.Entry id attr) :
    node'.Ordered blockReplica where
  entry hnew := by
    rw [hbrk, hblock]
    exact h.entry (hentry _ _ hnew)
  list := hlist

theorem Ordered.modify (h : node.Ordered blockReplica) {attr : Nat}
    {change : BlockLocationAttr → BlockLocationAttr}
    (hblock : (change (node.attrs attr)).block = (node.attrs attr).block)
    (hlist : InOrder blockReplica (change (node.attrs attr)).machine) :
    (node.modify attr change).Ordered blockReplica := by
  refine h.of_entry rfl (fun other => ?_) (fun other => ?_) fun _ _ hentry => hentry
  · unfold BlockNode.modify
    dsimp only
    rw [Function.update_apply]
    split
    next heq => rw [heq, hblock]
    next => rfl
  · unfold BlockNode.modify
    dsimp only
    rw [Function.update_apply]
    split
    next => exact hlist
    next => exact h.list other

theorem Ordered.removeRemoteID (h : node.Ordered blockReplica) (id : BlockID) :
    (node.removeRemoteID id).Ordered blockReplica :=
  h.of_entry rfl (fun _ => rfl) h.list fun _ _ hentry =>
    hentry.imp_right fun hremote => (eq_some_of_erase hremote).2

theorem Ordered.removeLocalID (h : node.Ordered blockReplica) (id : BlockID) :
    (node.removeLocalID id).Ordered blockReplica :=
  h.of_entry rfl (fun _ => rfl) h.list fun _ _ hentry =>
    hentry.imp_left fun hlocal => (eq_some_of_erase hlocal).2

theorem inOrder_attrOf (id : BlockID) (m : MachineID) :
    InOrder blockReplica (attrOf blockReplica id m).machine :=
  inOrder_addMachine ⟨List.Pairwise.nil, Nat.zero_le _⟩ m

/-- A new entry has a fresh list. -/
theorem Ordered.alloc (h : node.Ordered blockReplica) {id : BlockID} {m : MachineID}
    (hattrs : node'.attrs = Function.update node.attrs node.brk (attrOf blockReplica id m))
    (hbrk : node'.brk = node.brk + 1)
    (hentry : ∀ id' attr, node'.Entry id' attr → id' = id ∧ attr = node.brk ∨ node.Entry id' attr) :
    node'.Ordered blockReplica where
  entry hnew := by
    rw [hattrs, hbrk, Function.update_apply]
    rcases hentry _ _ hnew with ⟨rfl, rfl⟩ | hold
    · rw [if_pos rfl]
      exact ⟨Nat.lt_succ_self _, block_addMachine _ _⟩
    · obtain ⟨hlt, hblock⟩ := h.entry hold
      rw [if_neg (Nat.ne_of_lt hlt)]
      exact ⟨Nat.lt_succ_of_lt hlt, hblock⟩
  list attr := by
    rw [hattrs, Function.update_apply]
    split
    next => exact inOrder_attrOf id m
    next => exact h.list attr

theorem Ordered.forceAddLocalID (h : node.Ordered blockReplica) (me : MachineID) (id : BlockID) :
    (node.forceAddLocalID blockReplica me id).Ordered blockReplica := by
  apply h.alloc rfl rfl
  intro id' attr hentry
  rcases hentry with hlocal | hremote
  · exact (eq_some_of_insert hlocal).imp_right Or.inl
  · exact Or.inr (Or.inr (eq_some_of_erase hremote).2)

theorem Ordered.forceAddRemoteID (h : node.Ordered blockReplica) (m : MachineID) (id : BlockID) :
    (node.forceAddRemoteID blockReplica m id).Ordered blockReplica := by
  apply h.alloc rfl rfl
  intro id' attr hentry
  rcases hentry with hlocal | hremote
  · exact Or.inr (Or.inl hlocal)
  · exact (eq_some_of_insert hremote).imp_right Or.inr

theorem Ordered.saveBlock (h : node.Ordered blockReplica) (me : MachineID) (opens : Bool)
    (data : Bytes) (id : BlockID) :
    (node.saveBlock blockReplica me opens data id).2.Ordered blockReplica := by
  have hsaved {node : BlockNode} (h : node.Ordered blockReplica) (newID : BlockID) :
      ({ node with files := Function.update node.files newID (some data) }.addLocalID
        blockReplica me newID).Ordered blockReplica := by
    have hfiles : { node with files := Function.update node.files newID (some data) }.Ordered
        blockReplica := h.of_entry rfl (fun _ => rfl) h.list fun _ _ hentry => hentry
    unfold BlockNode.addLocalID
    split
    next => exact hfiles
    next => exact hfiles.forceAddLocalID me newID
  have hnumbered : (if id = 0 then node.newLocalID me else (id, node)).2.Ordered blockReplica := by
    split
    next => exact h.of_entry rfl (fun _ => rfl) h.list fun _ _ hentry => hentry
    next => exact h
  unfold BlockNode.saveBlock
  dsimp only
  split
  next => exact hsaved hnumbered _
  next => exact hnumbered

theorem Ordered.cleanCache (h : node.Ordered blockReplica) :
    node.cleanCache.Ordered blockReplica := by
  have hround {node : BlockNode} (h : node.Ordered blockReplica) :
      node.eraseFirst.Ordered blockReplica := by
    unfold BlockNode.eraseFirst
    split
    next => exact h
    next => exact h.removeRemoteID _
  exact hround (hround (hround (hround (hround h))))

theorem Ordered.checkReplica (h : node.Ordered blockReplica) (attr : Nat)
    (alive : MachineID → Bool) :
    (node.checkReplica blockReplica attr alive).1.Ordered blockReplica := by
  have hleft : InOrder blockReplica ((node.attrs attr).machine.filter alive) :=
    ⟨(h.list attr).1.filter _, (List.length_filter_le _ _).trans (h.list attr).2⟩
  have hmodify : (node.modify attr fun attr' =>
      { attr' with machine := (node.attrs attr).machine.filter alive }).Ordered blockReplica :=
    h.modify rfl hleft
  unfold BlockNode.checkReplica
  dsimp only
  split
  next => exact hmodify.removeRemoteID _
  next => exact hmodify

theorem Ordered.handleRequestBlockLocationACK (h : node.Ordered blockReplica) {data : Bytes}
    (hrun : node.handleRequestBlockLocationACK blockReplica data = .ok node') :
    node'.Ordered blockReplica := by
  have hadd {node : BlockNode} (h : node.Ordered blockReplica) (attr : Nat)
      (machines : List MachineID) :
      (node.modify attr (·.addMachines blockReplica machines)).Ordered blockReplica :=
    h.modify (block_addMachines _ _) (inOrder_addMachines (h.list attr) machines)
  unfold BlockNode.handleRequestBlockLocationACK at hrun
  split at hrun
  next =>
    rw [← Except.ok.inj hrun]
    exact h
  next =>
    obtain ⟨⟨id, machines⟩, -, hrun⟩ := bind_eq_ok_iff.mp hrun
    dsimp only at hrun
    split at hrun
    next => exact absurd hrun (by simp)
    next m rest =>
      split at hrun
      next attr _ =>
        rw [← Except.ok.inj hrun]
        exact hadd h attr _
      next =>
        rw [← Except.ok.inj hrun]
        refine hadd (Ordered.forceAddRemoteID ?_ m id) _ rest
        split
        next => exact h.cleanCache
        next => exact h

theorem Ordered.handleUpdateReplica (h : node.Ordered blockReplica) {data : Bytes}
    (hdata : ∀ id machines, readLocation data = .ok (id, machines) → InOrder blockReplica machines)
    (hrun : node.handleUpdateReplica data = .ok node') : node'.Ordered blockReplica := by
  obtain ⟨⟨id, machines⟩, hread, hrun⟩ := bind_eq_ok_iff.mp hrun
  have hset {node : BlockNode} (h : node.Ordered blockReplica) (attr : Nat) :
      (node.modify attr fun attr => { attr with machine := machines }).Ordered blockReplica :=
    h.modify rfl (hdata id machines hread)
  rw [← Except.ok.inj hrun]
  dsimp only
  cases node.localIDs[id]? with
  | none =>
      cases node.remoteIDs[id]? with
      | none => exact h
      | some attr => exact hset h attr
  | some attr =>
      cases node.remoteIDs[id]? with
      | none => exact hset h attr
      | some attr' => exact hset (hset h attr) attr'

theorem Ordered.handleDoReplica (h : node.Ordered blockReplica)
    {pick : List MachineID → UInt64 → List MachineID} {data : Bytes}
    (hrun : node.handleDoReplica blockReplica pick data = .ok node') :
    node'.Ordered blockReplica := by
  obtain ⟨⟨id, machines⟩, -, hrun⟩ := bind_eq_ok_iff.mp hrun
  dsimp only at hrun
  split at hrun
  next =>
    rw [← Except.ok.inj hrun]
    exact h
  next attr _ =>
    split at hrun
    next =>
      rw [← Except.ok.inj hrun]
      exact h
    next =>
      have hrebuilt : (node.modify attr fun attr =>
          { attr with machine := [] }.addMachines blockReplica machines).Ordered blockReplica :=
        h.modify (block_addMachines _ _)
          (inOrder_addMachines ⟨List.Pairwise.nil, Nat.zero_le _⟩ machines)
      rw [← Except.ok.inj hrun]
      exact hrebuilt.of_entry rfl (fun _ => rfl) hrebuilt.list fun _ _ hentry => hentry

theorem Ordered.addCandidate (h : node.Ordered blockReplica) (k : Nat) (task : ReplicaTask)
    (m : MachineID) (rest : List MachineID) :
    (node.addCandidate blockReplica k task m rest).Ordered blockReplica := by
  have hadded : (node.modify task.attr (·.addMachine blockReplica m)).Ordered blockReplica :=
    h.modify (block_addMachine _ _) (inOrder_addMachine (h.list task.attr) m)
  exact hadded.of_entry rfl (fun _ => rfl) hadded.list fun _ _ hentry => hentry

theorem Ordered.afterDeleteBlock (h : node.Ordered blockReplica) (id : BlockID) :
    (node.afterDeleteBlock id).Ordered blockReplica :=
  (h.removeLocalID id).removeRemoteID id

theorem Ordered.afterDoDelete (h : node.Ordered blockReplica) (id : BlockID) :
    (node.afterDoDelete id).1.Ordered blockReplica := by
  unfold BlockNode.afterDoDelete
  split
  next => exact h
  next attr _ =>
    have hmarked : (node.modify attr fun attr =>
        { attr with state := .deleting }).Ordered blockReplica := h.modify rfl (h.list attr)
    exact hmarked.afterDeleteBlock id

theorem Ordered.afterDelete (h : node.Ordered blockReplica) (me : MachineID) (id : BlockID) :
    (node.afterDelete me id).1.Ordered blockReplica := by
  unfold BlockNode.afterDelete
  split
  next => exact h
  next =>
    split
    next => exact h
    next =>
      split
      next => exact h.afterDoDelete id
      next => exact h

/-- Handling a message. -/
theorem Ordered.request (h : node.Ordered blockReplica)
    {room : Nat} {pick : List MachineID → UInt64 → List MachineID} {src : MachineID}
    {msg : BlockMessage}
    (hmsg : msg.Ordered blockReplica) {sends : List (Target × BlockMessage)}
    (hrun : node.request blockReplica room pick src msg = .ok (node', sends)) :
    node'.Ordered blockReplica ∧ ∀ send ∈ sends, send.2.Ordered blockReplica := by
  have hsilent : ∀ send ∈ ([] : List (Target × BlockMessage)), send.2.Ordered blockReplica :=
    fun _ hsend => absurd hsend List.not_mem_nil
  cases msg with
  | requestBlockLocation asker id =>
      obtain ⟨rfl, rfl⟩ := Prod.mk.inj (Except.ok.inj hrun)
      refine ⟨h, fun send hsend => ?_⟩
      rw [List.mem_singleton.mp hsend]
      exact trivial
  | requestBlockLocationACK data =>
      obtain ⟨after, hafter, hrun⟩ := bind_eq_ok_iff.mp hrun
      obtain ⟨rfl, rfl⟩ := Prod.mk.inj (Except.ok.inj hrun)
      exact ⟨h.handleRequestBlockLocationACK hafter, hsilent⟩
  | doReplica data =>
      obtain ⟨after, hafter, hrun⟩ := bind_eq_ok_iff.mp hrun
      obtain ⟨rfl, rfl⟩ := Prod.mk.inj (Except.ok.inj hrun)
      exact ⟨h.handleDoReplica hafter, hsilent⟩
  | updateReplica data =>
      obtain ⟨after, hafter, hrun⟩ := bind_eq_ok_iff.mp hrun
      obtain ⟨rfl, rfl⟩ := Prod.mk.inj (Except.ok.inj hrun)
      exact ⟨h.handleUpdateReplica hmsg hafter, hsilent⟩
  | copyBlockFromRemote id =>
      obtain ⟨rfl, rfl⟩ := Prod.mk.inj (Except.ok.inj hrun)
      exact ⟨h.of_entry rfl (fun _ => rfl) h.list fun _ _ hentry => hentry, hsilent⟩
  | blockACK id =>
      obtain ⟨rfl, rfl⟩ := Prod.mk.inj (Except.ok.inj hrun)
      exact ⟨h, hsilent⟩
  | doDelete id =>
      have hnode := h.afterDoDelete id
      have hsends {send : Target × BlockMessage} (hsend : send ∈ (node.afterDoDelete id).2) :
          send.2.Ordered blockReplica := by
        rw [mem_afterDoDelete hsend]
        exact trivial
      rw [(eq_of_handleDoDelete hrun).2] at hnode hsends
      exact ⟨hnode, fun send hsend => hsends hsend⟩
  | deleteBlock id =>
      obtain ⟨-, rfl, rfl⟩ := eq_of_request_deleteBlock hrun
      exact ⟨h.afterDeleteBlock id, hsilent⟩

end BlockNode

namespace BlockNet

/-- The lists of all machines and in all messages are in order. -/
structure Ordered (blockReplica : UInt64) (net : BlockNet) : Prop where
  node (n : MachineID) : (net.nodes n).Ordered blockReplica
  flight {n : MachineID} {sent : MachineID × BlockMessage} : sent ∈ net.inFlight n →
    sent.2.Ordered blockReplica

variable {blockReplica : UInt64} {net net' : BlockNet}

theorem Ordered.act (h : net.Ordered blockReplica) {n : MachineID} {node : BlockNode}
    {sends : List (Target × BlockMessage)} (hnode : node.Ordered blockReplica)
    (hsends : ∀ send ∈ sends, send.2.Ordered blockReplica) :
    (net.act n node sends).Ordered blockReplica where
  node := Function.forall_update_iff _ _ |>.mpr ⟨hnode, fun m _ => h.node m⟩
  flight hmem := by
    rcases Multiset.mem_add.mp hmem with hold | hnew
    · exact h.flight hold
    · obtain ⟨send, hsend, -, rfl⟩ := mem_arriving.mp hnew
      exact hsends send hsend

theorem Ordered.without (h : net.Ordered blockReplica) {n : MachineID}
    {lost : MachineID × BlockMessage} {rest : Multiset (MachineID × BlockMessage)}
    (hflight : net.inFlight n = lost ::ₘ rest) : (net.without n rest).Ordered blockReplica :=
  ⟨h.node, fun hmem => h.flight (mem_inFlight_of_without hflight hmem)⟩

/-- Only the end of `handleDoReplica` sends a list that is taken as it is. -/
theorem Ordered.step (h : net.Ordered blockReplica) {event : BlockEvent}
    (hstep : BlockStep blockReplica net event net') : net'.Ordered blockReplica := by
  have hsilent : ∀ send ∈ ([] : List (Target × BlockMessage)), send.2.Ordered blockReplica :=
    fun _ hsend => absurd hsend List.not_mem_nil
  -- what a machine has still to do does not matter
  have htasks (n : MachineID) (replicas : List ReplicaTask) (copies : List CopyTask) :
      { net.nodes n with replicas := replicas, copies := copies }.Ordered blockReplica :=
    (h.node n).of_entry rfl (fun _ => rfl) (h.node n).list fun _ _ hentry => hentry
  cases hstep with
  | save n data opens id node hn hdata hsave =>
      have hnode := (h.node n).saveBlock n opens data 0
      rw [hsave] at hnode
      have hact := h.act hnode hsilent (n := n)
      exact ⟨hact.node, hact.flight⟩
  | askRemote n id =>
      apply h.act (h.node n)
      intro send hsend
      rw [List.mem_singleton.mp hsend]
      exact trivial
  | check n id attr alive hlocal hremote halive =>
      apply h.act ((h.node n).checkReplica attr alive)
      intro send hsend
      obtain ⟨first, rest, -, rfl⟩ := BlockNode.mem_checkReplica hsend
      exact trivial
  | forget n id => exact h.act ((h.node n).removeRemoteID id) hsilent
  | checkAll n id attr pick node hlocal hpick hrun =>
      exact h.act ((h.node n).handleDoReplica hrun) hsilent
  | delete n id room node sends hrun =>
      have hnode := (h.node n).afterDelete n id
      rw [BlockNode.eq_of_deleteBlock hrun] at hnode
      apply h.act hnode
      intro send hsend
      rcases BlockNode.mem_deleteBlock hrun hsend with rfl | ⟨first, rfl⟩
      · exact trivial
      · exact trivial
  | deliver n src msg rest room pick node sends hflight hpick hrun =>
      have hmsg : msg.Ordered blockReplica := by
        have hmem : (src, msg) ∈ net.inFlight n := by
          rw [hflight]
          exact Multiset.mem_cons_self _ _
        exact h.flight hmem
      obtain ⟨hnode, hsends⟩ := (h.node n).request hmsg hrun
      exact (h.without hflight).act hnode hsends
  | drop n src msg rest hflight => exact h.without hflight
  | askCopy n k task m rest htask hcandidate hasked =>
      apply h.act (htasks n _ _)
      intro send hsend
      rw [List.mem_singleton.mp hsend]
      exact trivial
  | skipCopy n k task m rest htask hcandidate => exact h.act (htasks n _ _) hsilent
  | takeCopy n k task m rest flight htask hcandidate hasked hflight =>
      exact (h.without hflight).act ((h.node n).addCandidate k task m rest) hsilent
  | finish n k task htask hcandidate =>
      apply h.act (htasks n _ _)
      intro send hsend
      rw [List.mem_singleton.mp hsend]
      intro id machines hread
      rw [readLocation_locationData] at hread
      rw [← (Prod.mk.inj (Except.ok.inj hread)).2]
      exact (h.node n).list task.attr
  | load n k task content htask hdata hfile => exact h.act (htasks n _ _) hsilent
  | loadFails n k task htask hdata => exact h.act ((htasks n _ _).removeRemoteID _) hsilent
  | store n k opens task data id node htask hdata hsave =>
      have hnode := (htasks n (net.nodes n).replicas ((net.nodes n).copies.eraseIdx k)).saveBlock
        n opens data task.block
      rw [hsave] at hnode
      apply h.act hnode
      intro send hsend
      split at hsend
      next => exact hsilent send hsend
      next =>
        rw [List.mem_singleton.mp hsend]
        exact trivial

theorem invariant_ordered : (blockSystem blockReplica).Invariant (Ordered blockReplica) where
  init hinit := by
    rw [hinit]
    exact ⟨fun _ => BlockNode.ordered_empty, fun hmem => absurd hmem (Multiset.notMem_zero _)⟩
  step h hstep := h.step hstep

end BlockNet

end Doopey
