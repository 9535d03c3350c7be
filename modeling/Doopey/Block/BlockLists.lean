import Doopey.Block.BlockNet

/-!
# What the handlers keep of location lists

Every list that a machine keeps or sends is well formed, and each machine in it
may be listed for its block. Which machines may be listed is a parameter: the
handlers copy lists and shorten them, and a machine gets into a list only where
it has saved the block or has acknowledged a copy.

The one thing that would break a list is an alive check of an entry that
`handleDoReplica` is working on: it may take all machines out of the list.
-/

namespace Doopey

open Foundation BlockLocationAttr

/-- A list that a machine may keep or send for a block. -/
structure Listed (blockReplica : UInt64) (may : BlockID → MachineID → Prop) (id : BlockID)
    (machines : List MachineID) : Prop where
  wellFormed : WellFormed blockReplica machines
  may_of_mem {m : MachineID} : m ∈ machines → may id m

/-- The payload carries such a list. -/
def CarriesList (blockReplica : UInt64) (may : BlockID → MachineID → Prop) (data : Bytes) : Prop :=
  ∃ id machines, data = locationData id machines ∧ Listed blockReplica may id machines

/-- A message with a list carries such a list; the answer to a request may have
no payload. -/
def BlockMessage.Sound (blockReplica : UInt64) (may : BlockID → MachineID → Prop) :
    BlockMessage → Prop
  | requestBlockLocationACK data => data = [] ∨ CarriesList blockReplica may data
  | doReplica data | updateReplica data => CarriesList blockReplica may data
  | _ => True

/-- The payload of a message with a list, if it has one. -/
def BlockMessage.listData : BlockMessage → Option Bytes
  | requestBlockLocationACK data => if data = [] then none else some data
  | doReplica data | updateReplica data => some data
  | _ => none

theorem BlockMessage.Sound.carriesList {blockReplica : UInt64} {may : BlockID → MachineID → Prop}
    {msg : BlockMessage} (h : msg.Sound blockReplica may) {data : Bytes}
    (hlist : msg.listData = some data) : CarriesList blockReplica may data := by
  cases msg with
  | requestBlockLocationACK payload =>
      by_cases hempty : payload = []
      · exact absurd hlist (by simp [listData, hempty])
      · obtain rfl := Option.some.inj ((if_neg hempty).symm.trans hlist)
        exact Or.resolve_left h hempty
  | doReplica payload =>
      obtain rfl := Option.some.inj hlist
      exact h
  | updateReplica payload =>
      obtain rfl := Option.some.inj hlist
      exact h
  | _ => exact absurd hlist (by simp [listData])

/-- Who is listed is read back from the payload. -/
theorem CarriesList.listed {blockReplica : UInt64} {may : BlockID → MachineID → Prop}
    {data : Bytes} (h : CarriesList blockReplica may data) {id : BlockID}
    {machines : List MachineID} (hread : readLocation data = .ok (id, machines)) :
    Listed blockReplica may id machines := by
  obtain ⟨id', machines', rfl, hlisted⟩ := h
  rw [readLocation_locationData] at hread
  obtain ⟨rfl, rfl⟩ := Prod.mk.inj (Except.ok.inj hread)
  exact hlisted

namespace BlockNode

/-- The list is that of a map entry, or of a call of `handleDoReplica`. -/
def Refers (node : BlockNode) (id : BlockID) (attr : Nat) : Prop :=
  node.localIDs[id]? = some attr ∨ node.remoteIDs[id]? = some attr ∨
    ∃ task ∈ node.replicas, task.block = id ∧ task.attr = attr

/-- Every list that is referred to is one that may be kept, and the two maps share
no list. -/
structure Sound (blockReplica : UInt64) (may : BlockID → MachineID → Prop) (node : BlockNode) :
    Prop where
  entry {id : BlockID} {attr : Nat} : node.Refers id attr → attr < node.brk ∧
    (node.attrs attr).block = id ∧ Listed blockReplica may id (node.attrs attr).machine
  apart {id id' : BlockID} {attr : Nat} : node.localIDs[id]? = some attr →
    node.remoteIDs[id']? ≠ some attr

end BlockNode

theorem getElem?_insert_id (map : Std.TreeMap BlockID Nat) (id id' : BlockID) (attr : Nat) :
    (map.insert id attr)[id']? = if id' = id then some attr else map[id']? := by
  rw [Std.TreeMap.getElem?_insert]
  simp only [Std.LawfulEqCmp.compare_eq_iff_eq, @eq_comm _ id' id]

theorem getElem?_erase_id (map : Std.TreeMap BlockID Nat) (id id' : BlockID) :
    (map.erase id)[id']? = if id' = id then none else map[id']? := by
  rw [Std.TreeMap.getElem?_erase]
  simp only [Std.LawfulEqCmp.compare_eq_iff_eq, @eq_comm _ id' id]

theorem eq_some_of_erase {map : Std.TreeMap BlockID Nat} {id id' : BlockID} {attr : Nat}
    (hget : (map.erase id)[id']? = some attr) : id' ≠ id ∧ map[id']? = some attr := by
  rw [getElem?_erase_id] at hget
  split at hget
  next => exact absurd hget (by simp)
  next hne => exact ⟨hne, hget⟩

theorem eq_some_of_insert {map : Std.TreeMap BlockID Nat} {id id' : BlockID} {attr attr' : Nat}
    (hget : (map.insert id attr)[id']? = some attr') :
    id' = id ∧ attr' = attr ∨ map[id']? = some attr' := by
  rw [getElem?_insert_id] at hget
  split at hget
  next hid => exact Or.inl ⟨hid, (Option.some.inj hget).symm⟩
  next => exact Or.inr hget

section Node

variable {blockReplica : UInt64} {may : BlockID → MachineID → Prop} {node : BlockNode}

namespace Listed

variable {id : BlockID} {machines : List MachineID}

theorem mono {may' : BlockID → MachineID → Prop} (h : Listed blockReplica may id machines)
    (hmay : ∀ m, may id m → may' id m) : Listed blockReplica may' id machines :=
  ⟨h.wellFormed, fun hmem => hmay _ (h.may_of_mem hmem)⟩

/-- A new list with one machine. -/
theorem attrOf (hreplica : 1 ≤ blockReplica) {m : MachineID} (hm : may id m) :
    Listed blockReplica may id (BlockNode.attrOf blockReplica id m).machine := by
  refine ⟨wellFormed_addMachine hreplica ⟨List.Pairwise.nil, Nat.zero_le _⟩ m, fun hmem => ?_⟩
  rcases mem_addMachine hmem with hnil | rfl
  · exact absurd hnil List.not_mem_nil
  · exact hm

theorem addMachine (hreplica : 1 ≤ blockReplica) {attr : BlockLocationAttr}
    (h : Listed blockReplica may id attr.machine) {m : MachineID} (hm : may id m) :
    Listed blockReplica may id (attr.addMachine blockReplica m).machine := by
  refine ⟨wellFormed_addMachine hreplica h.wellFormed.inOrder m, fun hmem => ?_⟩
  rcases mem_addMachine hmem with hold | rfl
  · exact h.may_of_mem hold
  · exact hm

theorem addMachines (hreplica : 1 ≤ blockReplica) {attr : BlockLocationAttr}
    (h : Listed blockReplica may id attr.machine) (hm : ∀ m ∈ machines, may id m) :
    Listed blockReplica may id (attr.addMachines blockReplica machines).machine := by
  induction machines generalizing attr with
  | nil => exact h
  | cons m machines ih =>
      apply ih (h.addMachine hreplica (hm m List.mem_cons_self))
      exact fun other hother => hm other (List.mem_cons_of_mem _ hother)

/-- A list that is rebuilt from another one. -/
theorem rebuilt (hreplica : 1 ≤ blockReplica) (h : Listed blockReplica may id machines)
    (attr : BlockLocationAttr) : Listed blockReplica may id
      ({ attr with machine := [] }.addMachines blockReplica machines).machine := by
  refine ⟨wellFormed_addMachines hreplica ⟨List.Pairwise.nil, Nat.zero_le _⟩
    h.wellFormed.nonempty, fun hmem => ?_⟩
  rcases mem_addMachines hmem with hnil | hnew
  · exact absurd hnil List.not_mem_nil
  · exact h.may_of_mem hnew

/-- What is left of a list, if anything. -/
theorem filter (h : Listed blockReplica may id machines) {alive : MachineID → Bool}
    (hne : machines.filter alive ≠ []) :
    Listed blockReplica may id (machines.filter alive) :=
  ⟨⟨hne, h.wellFormed.increasing.filter _,
    (List.length_filter_le _ _).trans h.wellFormed.bounded⟩,
    fun hmem => h.may_of_mem (List.mem_of_mem_filter hmem)⟩

end Listed

namespace BlockNode

theorem Sound.mono {may' : BlockID → MachineID → Prop} (h : node.Sound blockReplica may)
    (hmay : ∀ id m, may id m → may' id m) : node.Sound blockReplica may' where
  entry hrefers := by
    obtain ⟨hlt, hblock, hlisted⟩ := h.entry hrefers
    exact ⟨hlt, hblock, hlisted.mono (hmay _)⟩
  apart := h.apart

theorem sound_empty : empty.Sound blockReplica may where
  entry hrefers := by
    rcases hrefers with hlocal | hremote | ⟨task, htask, -⟩
    · exact absurd hlocal (by simp [empty])
    · exact absurd hremote (by simp [empty])
    · exact absurd htask List.not_mem_nil
  apart hlocal := absurd hlocal (by simp [empty])

/-- Files, counters and copies do not matter, and the lists of a smaller machine
are lists of the larger one. -/
theorem Sound.of_refers {node' : BlockNode} (h : node.Sound blockReplica may)
    (hattrs : node'.attrs = node.attrs) (hbrk : node'.brk = node.brk)
    (hlocal : ∀ (id : BlockID) (attr : Nat),
      node'.localIDs[id]? = some attr → node.localIDs[id]? = some attr)
    (hremote : ∀ (id : BlockID) (attr : Nat),
      node'.remoteIDs[id]? = some attr → node.remoteIDs[id]? = some attr)
    (hreplicas : ∀ task ∈ node'.replicas,
      ∃ task' ∈ node.replicas, task'.block = task.block ∧ task'.attr = task.attr) :
    node'.Sound blockReplica may where
  entry {id attr} hrefers := by
    rw [hattrs, hbrk]
    apply h.entry
    rcases hrefers with hget | hget | ⟨task, htask, rfl, rfl⟩
    · exact Or.inl (hlocal _ _ hget)
    · exact Or.inr (Or.inl (hremote _ _ hget))
    · obtain ⟨task', htask', hblock, hattr⟩ := hreplicas task htask
      exact Or.inr (Or.inr ⟨task', htask', hblock, hattr⟩)
  apart hget hget' := h.apart (hlocal _ _ hget) (hremote _ _ hget')

theorem Sound.removeRemoteID (h : node.Sound blockReplica may) (id : BlockID) :
    (node.removeRemoteID id).Sound blockReplica may :=
  h.of_refers rfl rfl (fun _ _ hget => hget) (fun _ _ hget => (eq_some_of_erase hget).2)
    fun task htask => ⟨task, htask, rfl, rfl⟩

theorem Sound.removeLocalID (h : node.Sound blockReplica may) (id : BlockID) :
    (node.removeLocalID id).Sound blockReplica may :=
  h.of_refers rfl rfl (fun _ _ hget => (eq_some_of_erase hget).2) (fun _ _ hget => hget)
    fun task htask => ⟨task, htask, rfl, rfl⟩

/-- A change of a list in its place. -/
theorem Sound.modify (h : node.Sound blockReplica may) {attr : Nat}
    {change : BlockLocationAttr → BlockLocationAttr}
    (hblock : (change (node.attrs attr)).block = (node.attrs attr).block)
    (hlist : ∀ id, node.Refers id attr →
      Listed blockReplica may id (change (node.attrs attr)).machine) :
    (node.modify attr change).Sound blockReplica may where
  entry {id attr'} hrefers := by
    have hbefore : node.Refers id attr' := hrefers
    obtain ⟨hlt, hid, hlisted⟩ := h.entry hbefore
    refine ⟨hlt, ?_⟩
    unfold BlockNode.modify
    dsimp only
    rw [Function.update_apply]
    split
    next heq =>
      subst heq
      exact ⟨hblock.trans hid, hlist id hbefore⟩
    next => exact ⟨hid, hlisted⟩
  apart := h.apart

/-- A new list goes into a fresh cell. -/
theorem Sound.alloc (h : node.Sound blockReplica may) {node' : BlockNode} {id : BlockID}
    {attr : BlockLocationAttr} (hattrs : node'.attrs = Function.update node.attrs node.brk attr)
    (hbrk : node'.brk = node.brk + 1) (hblock : attr.block = id)
    (hlisted : Listed blockReplica may id attr.machine)
    (hrefers : ∀ id' attr', node'.Refers id' attr' →
      (id' = id ∧ attr' = node.brk) ∨ node.Refers id' attr')
    (hapart : ∀ (id₁ id₂ : BlockID) (attr' : Nat), node'.localIDs[id₁]? = some attr' →
      node'.remoteIDs[id₂]? ≠ some attr') : node'.Sound blockReplica may where
  entry {id' attr'} href := by
    rw [hattrs, hbrk, Function.update_apply]
    rcases hrefers id' attr' href with ⟨rfl, rfl⟩ | hold
    · rw [if_pos rfl]
      exact ⟨Nat.lt_succ_self _, hblock, hlisted⟩
    · obtain ⟨hlt, hentry⟩ := h.entry hold
      rw [if_neg (Nat.ne_of_lt hlt)]
      exact ⟨Nat.lt_succ_of_lt hlt, hentry⟩
  apart := hapart _ _ _

theorem Sound.forceAddLocalID (h : node.Sound blockReplica may) (hreplica : 1 ≤ blockReplica)
    {me : MachineID} {id : BlockID} (hme : may id me) :
    (node.forceAddLocalID blockReplica me id).Sound blockReplica may := by
  apply h.alloc rfl rfl (block_addMachine _ _) (Listed.attrOf hreplica hme)
  · intro id' attr' hrefers
    rcases hrefers with hget | hget | htask
    · exact (eq_some_of_insert hget).imp_right Or.inl
    · exact Or.inr (Or.inr (Or.inl (eq_some_of_erase hget).2))
    · exact Or.inr (Or.inr (Or.inr htask))
  · intro id₁ id₂ attr' hlocal hremote
    have hold := (eq_some_of_erase hremote).2
    rcases eq_some_of_insert hlocal with ⟨-, rfl⟩ | hlocal
    · exact absurd (h.entry (Or.inr (Or.inl hold))).1 (Nat.lt_irrefl _)
    · exact h.apart hlocal hold

theorem Sound.forceAddRemoteID (h : node.Sound blockReplica may) (hreplica : 1 ≤ blockReplica)
    {m : MachineID} {id : BlockID} (hm : may id m) :
    (node.forceAddRemoteID blockReplica m id).Sound blockReplica may := by
  apply h.alloc rfl rfl (block_addMachine _ _) (Listed.attrOf hreplica hm)
  · intro id' attr' hrefers
    rcases hrefers with hget | hget | htask
    · exact Or.inr (Or.inl hget)
    · exact (eq_some_of_insert hget).imp_right fun hold => Or.inr (Or.inl hold)
    · exact Or.inr (Or.inr (Or.inr htask))
  · intro id₁ id₂ attr' hlocal hremote
    rcases eq_some_of_insert hremote with ⟨-, rfl⟩ | hremote
    · exact absurd (h.entry (Or.inl hlocal)).1 (Nat.lt_irrefl _)
    · exact h.apart hlocal hremote

/-- Calls of `handleDoReplica` that go on or end. -/
theorem Sound.replicas (h : node.Sound blockReplica may) {replicas : List ReplicaTask}
    (hreplicas : ∀ task ∈ replicas,
      ∃ task' ∈ node.replicas, task'.block = task.block ∧ task'.attr = task.attr) :
    { node with replicas := replicas }.Sound blockReplica may :=
  h.of_refers rfl rfl (fun _ _ hget => hget) (fun _ _ hget => hget) hreplicas

theorem Sound.set (h : node.Sound blockReplica may) {k : Nat} {task task' : ReplicaTask}
    (htask : node.replicas[k]? = some task) (hblock : task'.block = task.block)
    (hattr : task'.attr = task.attr) :
    { node with replicas := node.replicas.set k task' }.Sound blockReplica may := by
  apply h.replicas
  intro other hother
  rcases List.mem_or_eq_of_mem_set hother with hold | rfl
  · exact ⟨other, hold, rfl, rfl⟩
  · exact ⟨task, List.mem_of_getElem? htask, hblock.symm, hattr.symm⟩

theorem Sound.saveBlock (h : node.Sound blockReplica may) (hreplica : 1 ≤ blockReplica)
    {me : MachineID} {opens : Bool} {data : Bytes} {id newID : BlockID} {node' : BlockNode}
    (hsave : node.saveBlock blockReplica me opens data id = (newID, node'))
    (hme : opens = true → may newID me) : node'.Sound blockReplica may := by
  -- what happens to the file of the block, and then to its entry
  have hopen {before : BlockNode} (hbefore : before.Sound blockReplica may) {fileID : BlockID}
      (hrun : (if opens = true then (fileID, { before with
        files := Function.update before.files fileID (some data) }.addLocalID blockReplica me fileID)
          else (0, before)) = (newID, node')) : node'.Sound blockReplica may := by
    cases opens with
    | false =>
        rw [if_neg (by simp)] at hrun
        rw [← (Prod.mk.inj hrun).2]
        exact hbefore
    | true =>
        rw [if_pos rfl] at hrun
        obtain ⟨rfl, rfl⟩ := Prod.mk.inj hrun
        have hstored : { before with
            files := Function.update before.files fileID (some data) }.Sound blockReplica may :=
          hbefore.of_refers rfl rfl (fun _ _ hget => hget) (fun _ _ hget => hget)
            fun task htask => ⟨task, htask, rfl, rfl⟩
        rw [BlockNode.addLocalID]
        split
        next => exact hstored
        next => exact hstored.forceAddLocalID hreplica (hme rfl)
  unfold BlockNode.saveBlock at hsave
  by_cases hid : id = 0
  · rw [if_pos hid] at hsave
    refine hopen ?_ hsave
    exact h.of_refers rfl rfl (fun _ _ hget => hget) (fun _ _ hget => hget)
      fun task htask => ⟨task, htask, rfl, rfl⟩
  · rw [if_neg hid] at hsave
    exact hopen h hsave

theorem Sound.cleanCache (h : node.Sound blockReplica may) :
    node.cleanCache.Sound blockReplica may := by
  have hround {node : BlockNode} (h : node.Sound blockReplica may) :
      node.eraseFirst.Sound blockReplica may := by
    unfold BlockNode.eraseFirst
    split
    next => exact h
    next => exact h.removeRemoteID _
  exact hround (hround (hround (hround (hround h))))

/-- An alive check sends the list that is left to the first machine on it. -/
theorem mem_checkReplica {attr : Nat} {alive : MachineID → Bool} {send : Target × BlockMessage}
    (hsend : send ∈ (node.checkReplica blockReplica attr alive).2) :
    ∃ first rest, (node.attrs attr).machine.filter alive = first :: rest ∧
      send = (.machine first, .doReplica (locationData (node.attrs attr).block (first :: rest))) := by
  unfold BlockNode.checkReplica at hsend
  dsimp only at hsend
  split at hsend
  next => exact absurd hsend List.not_mem_nil
  next first rest hleft =>
    dsimp only at hsend
    split at hsend
    next =>
      refine ⟨first, rest, hleft, ?_⟩
      rw [List.mem_singleton.mp hsend, hleft]
    next => exact absurd hsend List.not_mem_nil

/-- An alive check leaves a good list or none at all. -/
theorem Sound.checkReplica (h : node.Sound blockReplica may) {id : BlockID} {attr : Nat}
    (hremote : node.remoteIDs[id]? = some attr) (alive : MachineID → Bool)
    (hundisturbed : ∀ task ∈ node.replicas, task.attr ≠ attr) :
    (node.checkReplica blockReplica attr alive).1.Sound blockReplica may ∧
      ∀ send ∈ (node.checkReplica blockReplica attr alive).2, send.2.Sound blockReplica may := by
  have hrefers : node.Refers id attr := Or.inr (Or.inl hremote)
  obtain ⟨hlt, hblock, hlisted⟩ := h.entry hrefers
  unfold BlockNode.checkReplica
  dsimp only
  split
  next hnone =>
    -- the entry is gone, and no one else has the list
    refine ⟨⟨?_, ?_⟩, fun _ hsend => absurd hsend List.not_mem_nil⟩
    · intro id' attr' hrefers'
      have hother : attr' ≠ attr ∧ node.Refers id' attr' := by
        rcases hrefers' with hlocal | hget | ⟨task, htask, hid, hattr⟩
        · refine ⟨?_, Or.inl hlocal⟩
          rintro rfl
          exact h.apart hlocal hremote
        · obtain ⟨hne, hold⟩ := eq_some_of_erase hget
          refine ⟨?_, Or.inr (Or.inl hold)⟩
          rintro rfl
          have hid' := (h.entry (Or.inr (Or.inl hold))).2.1
          exact hne hid'.symm
        · refine ⟨?_, Or.inr (Or.inr ⟨task, htask, hid, hattr⟩)⟩
          rintro rfl
          exact hundisturbed task htask hattr
      obtain ⟨hlt', hentry⟩ := h.entry hother.2
      refine ⟨hlt', ?_⟩
      unfold BlockNode.removeRemoteID BlockNode.modify
      dsimp only
      rw [Function.update_of_ne hother.1]
      exact hentry
    · intro id₁ id₂ attr' hlocal hget
      exact h.apart hlocal (eq_some_of_erase hget).2
  next first rest hleft =>
    have hfiltered : Listed blockReplica may id ((node.attrs attr).machine.filter alive) :=
      hlisted.filter (by rw [hleft]; exact List.cons_ne_nil _ _)
    refine ⟨?_, fun send hsend => ?_⟩
    · have hsound := @Sound.modify _ _ _ h attr
        (fun attr' => { attr' with machine := (node.attrs attr).machine.filter alive }) rfl
      apply hsound
      intro id' hrefers'
      obtain rfl := hblock.symm.trans (h.entry hrefers').2.1
      exact hfiltered
    · split at hsend
      next =>
        rw [List.mem_singleton.mp hsend]
        exact ⟨_, _, rfl, by rw [hblock]; exact hfiltered⟩
      next => exact absurd hsend List.not_mem_nil

/-- The answer to a request for a location carries the list of the entry. -/
theorem Sound.handleRequestBlockLocation (h : node.Sound blockReplica may) (asker : MachineID)
    (id : BlockID) : ∀ send ∈ node.handleRequestBlockLocation asker id,
      send.2.Sound blockReplica may := by
  intro send hsend
  rw [List.mem_singleton.mp hsend]
  dsimp only
  split
  next => exact Or.inl rfl
  next attr hlocal => exact Or.inr ⟨id, _, rfl, (h.entry (Or.inl hlocal)).2.2⟩

theorem Sound.handleRequestBlockLocationACK (h : node.Sound blockReplica may)
    (hreplica : 1 ≤ blockReplica) {data : Bytes}
    (hdata : data = [] ∨ CarriesList blockReplica may data) {node' : BlockNode}
    (hrun : node.handleRequestBlockLocationACK blockReplica data = .ok node') :
    node'.Sound blockReplica may := by
  unfold BlockNode.handleRequestBlockLocationACK at hrun
  split at hrun
  next =>
    rw [← Except.ok.inj hrun]
    exact h
  next hne =>
    obtain ⟨id, machines, rfl, hlisted⟩ := hdata.resolve_left hne
    rw [readLocation_locationData, ok_bind] at hrun
    cases machines with
    | nil => exact absurd rfl hlisted.wellFormed.nonempty
    | cons m rest =>
        dsimp only at hrun
        split at hrun
        next attr hremote =>
          rw [← Except.ok.inj hrun]
          apply h.modify (block_addMachines _ _)
          intro id' hrefers
          obtain ⟨-, hblock, hlisted'⟩ := h.entry hrefers
          obtain rfl := hblock.symm.trans (h.entry (Or.inr (Or.inl hremote))).2.1
          exact hlisted'.addMachines hreplica fun other hother => hlisted.may_of_mem hother
        next =>
          rw [← Except.ok.inj hrun]
          have hcleaned : (if remoteSizeMax ≤ node.remoteIDs.size then node.cleanCache
              else node).Sound blockReplica may := by
            split
            next => exact h.cleanCache
            next => exact h
          have hadded := hcleaned.forceAddRemoteID hreplica
            (hlisted.may_of_mem List.mem_cons_self)
          apply hadded.modify (block_addMachines _ _)
          intro id' hrefers
          obtain ⟨-, hblock, hlisted'⟩ := hadded.entry hrefers
          have hid : id' = id := by
            rw [← hblock, BlockNode.forceAddRemoteID]
            dsimp only
            rw [Function.update_self, BlockNode.attrOf, block_addMachine]
          subst hid
          exact hlisted'.addMachines hreplica fun other hother =>
            hlisted.may_of_mem (List.mem_cons_of_mem _ hother)

theorem Sound.handleUpdateReplica (h : node.Sound blockReplica may) {data : Bytes}
    (hdata : CarriesList blockReplica may data) {node' : BlockNode}
    (hrun : node.handleUpdateReplica data = .ok node') : node'.Sound blockReplica may := by
  obtain ⟨id, machines, rfl, hlisted⟩ := hdata
  have hset {node : BlockNode} (h : node.Sound blockReplica may) {attr : Nat}
      (hrefers : node.Refers id attr) :
      (node.modify attr fun attr => { attr with machine := machines }).Sound blockReplica may := by
    apply h.modify rfl
    intro id' hrefers'
    obtain rfl := (h.entry hrefers).2.1.symm.trans (h.entry hrefers').2.1
    exact hlisted
  rw [BlockNode.handleUpdateReplica, readLocation_locationData, ok_bind] at hrun
  rw [← Except.ok.inj hrun]
  cases hlocal : node.localIDs[id]? with
  | none =>
      cases hremote : node.remoteIDs[id]? with
      | none => exact h
      | some attr => exact hset h (Or.inr (Or.inl hremote))
  | some attr =>
      have hfirst := hset h (Or.inl hlocal)
      cases hremote : node.remoteIDs[id]? with
      | none => exact hfirst
      | some attr' => exact hset hfirst (Or.inr (Or.inl hremote))

/-- `askBlockDetail` returns an entry of one of the maps. -/
theorem refers_of_askBlockDetail {id : BlockID} {attr : Nat}
    (hask : node.askBlockDetail id = some attr) :
    node.localIDs[id]? = some attr ∨ node.remoteIDs[id]? = some attr := by
  unfold BlockNode.askBlockDetail at hask
  cases hlocal : node.localIDs[id]? with
  | none => exact Or.inr (by simpa [hlocal] using hask)
  | some attr' => exact Or.inl (by simpa [hlocal] using hask)

theorem Sound.handleDoReplica (h : node.Sound blockReplica may) (hreplica : 1 ≤ blockReplica)
    {pick : List MachineID → UInt64 → List MachineID} {data : Bytes}
    (hdata : CarriesList blockReplica may data) {node' : BlockNode}
    (hrun : node.handleDoReplica blockReplica pick data = .ok node') :
    node'.Sound blockReplica may := by
  obtain ⟨id, machines, rfl, hlisted⟩ := hdata
  rw [BlockNode.handleDoReplica, readLocation_locationData, ok_bind] at hrun
  dsimp only at hrun
  split at hrun
  next =>
    rw [← Except.ok.inj hrun]
    exact h
  next attr hask =>
    split at hrun
    next =>
      rw [← Except.ok.inj hrun]
      exact h
    next =>
      have hrefers : node.Refers id attr := by
        rcases refers_of_askBlockDetail hask with hlocal | hremote
        · exact Or.inl hlocal
        · exact Or.inr (Or.inl hremote)
      have hrebuilt : (node.modify attr fun attr =>
          { attr with machine := [] }.addMachines blockReplica machines).Sound blockReplica may := by
        apply h.modify (block_addMachines _ _)
        intro id' hrefers'
        obtain rfl := (h.entry hrefers).2.1.symm.trans (h.entry hrefers').2.1
        exact hlisted.rebuilt hreplica _
      rw [← Except.ok.inj hrun]
      refine ⟨?_, hrebuilt.apart⟩
      intro id' attr' hrefers'
      apply hrebuilt.entry
      rcases hrefers' with hlocal | hremote | ⟨task, htask, hid, hattr⟩
      · exact Or.inl hlocal
      · exact Or.inr (Or.inl hremote)
      · rcases List.mem_cons.mp htask with rfl | hold
        · -- the call of the handler has the list of the entry
          rw [← hid, ← hattr]
          exact (refers_of_askBlockDetail hask).imp_right Or.inl
        · exact Or.inr (Or.inr ⟨task, hold, hid, hattr⟩)

theorem Sound.addCandidate (h : node.Sound blockReplica may) (hreplica : 1 ≤ blockReplica)
    {k : Nat} {task : ReplicaTask} (htask : node.replicas[k]? = some task) {m : MachineID}
    (hm : may task.block m) (rest : List MachineID) :
    (node.addCandidate blockReplica k task m rest).Sound blockReplica may := by
  have hrefers : node.Refers task.block task.attr :=
    Or.inr (Or.inr ⟨task, List.mem_of_getElem? htask, rfl, rfl⟩)
  have hadded : (node.modify task.attr (·.addMachine blockReplica m)).Sound blockReplica may := by
    apply h.modify (block_addMachine _ _)
    intro id' hrefers'
    obtain ⟨-, hblock, hlisted⟩ := h.entry hrefers'
    obtain rfl := hblock.symm.trans (h.entry hrefers).2.1
    exact hlisted.addMachine hreplica hm
  exact hadded.set htask rfl rfl

theorem Sound.finishReplica (h : node.Sound blockReplica may) {k : Nat} {task : ReplicaTask}
    (htask : node.replicas[k]? = some task) :
    (node.finishReplica k task).1.Sound blockReplica may ∧
      ∀ send ∈ (node.finishReplica k task).2, send.2.Sound blockReplica may := by
  refine ⟨h.replicas fun other hother => ⟨other, List.mem_of_mem_eraseIdx hother, rfl, rfl⟩, ?_⟩
  intro send hsend
  obtain ⟨-, hblock, hlisted⟩ :=
    h.entry (Or.inr (Or.inr ⟨task, List.mem_of_getElem? htask, rfl, rfl⟩))
  rw [List.mem_singleton.mp hsend]
  exact ⟨_, _, rfl, by rw [hblock]; exact hlisted⟩

theorem Sound.afterDeleteBlock (h : node.Sound blockReplica may) (id : BlockID) :
    (node.afterDeleteBlock id).Sound blockReplica may :=
  (h.removeLocalID id).removeRemoteID id

theorem Sound.afterDoDelete (h : node.Sound blockReplica may) (id : BlockID) :
    (node.afterDoDelete id).1.Sound blockReplica may ∧
      ∀ send ∈ (node.afterDoDelete id).2, send.2.Sound blockReplica may := by
  unfold BlockNode.afterDoDelete
  split
  next => exact ⟨h, fun _ hsend => absurd hsend List.not_mem_nil⟩
  next attr _ =>
    have hmarked : (node.modify attr fun attr =>
        { attr with state := .deleting }).Sound blockReplica may :=
      h.modify rfl fun id' hrefers => (h.entry hrefers).2.2
    refine ⟨hmarked.afterDeleteBlock id, fun send hsend => ?_⟩
    rw [List.mem_singleton.mp hsend]
    exact trivial

theorem Sound.afterDelete (h : node.Sound blockReplica may) (me : MachineID) (id : BlockID) :
    (node.afterDelete me id).1.Sound blockReplica may ∧
      ∀ send ∈ (node.afterDelete me id).2, send.2.Sound blockReplica may := by
  unfold BlockNode.afterDelete
  split
  next => exact ⟨h, fun _ hsend => absurd hsend List.not_mem_nil⟩
  next =>
    split
    next => exact ⟨h, fun _ hsend => absurd hsend List.not_mem_nil⟩
    next =>
      split
      next => exact h.afterDoDelete id
      next =>
        refine ⟨h, fun send hsend => ?_⟩
        rw [List.mem_singleton.mp hsend]
        exact trivial

theorem mem_afterDoDelete {id : BlockID} {send : Target × BlockMessage}
    (hsend : send ∈ (node.afterDoDelete id).2) : send = (.others, .deleteBlock id) := by
  unfold BlockNode.afterDoDelete at hsend
  split at hsend
  next => exact absurd hsend List.not_mem_nil
  next => exact List.mem_singleton.mp hsend

/-- A deletion is asked for, or has taken place and is made known. -/
theorem mem_afterDelete {me : MachineID} {id : BlockID} {send : Target × BlockMessage}
    (hsend : send ∈ (node.afterDelete me id).2) :
    send = (.others, .deleteBlock id) ∨ ∃ first, send = (.machine first, .doDelete id) := by
  unfold BlockNode.afterDelete at hsend
  split at hsend
  next => exact absurd hsend List.not_mem_nil
  next =>
    split at hsend
    next => exact absurd hsend List.not_mem_nil
    next first _ _ =>
      split at hsend
      next => exact Or.inl (mem_afterDoDelete hsend)
      next => exact Or.inr ⟨first, List.mem_singleton.mp hsend⟩

theorem mem_deleteBlock {me : MachineID} {room : Nat} {id : BlockID} {node' : BlockNode}
    {sends : List (Target × BlockMessage)}
    (hrun : node.deleteBlock me room id = .ok (node', sends)) {send : Target × BlockMessage}
    (hsend : send ∈ sends) :
    send = (.others, .deleteBlock id) ∨ ∃ first, send = (.machine first, .doDelete id) := by
  refine @mem_afterDelete node me id send ?_
  rw [eq_of_deleteBlock hrun]
  exact hsend

/-- Handling a message. -/
theorem Sound.request (h : node.Sound blockReplica may) (hreplica : 1 ≤ blockReplica)
    {room : Nat} {pick : List MachineID → UInt64 → List MachineID} {src : MachineID}
    {msg : BlockMessage}
    (hmsg : msg.Sound blockReplica may) {node' : BlockNode}
    {sends : List (Target × BlockMessage)}
    (hrun : node.request blockReplica room pick src msg = .ok (node', sends)) :
    node'.Sound blockReplica may ∧ ∀ send ∈ sends, send.2.Sound blockReplica may := by
  have hsilent : ∀ send ∈ ([] : List (Target × BlockMessage)), send.2.Sound blockReplica may :=
    fun _ hsend => absurd hsend List.not_mem_nil
  cases msg with
  | requestBlockLocation asker id =>
      obtain ⟨rfl, rfl⟩ := Prod.mk.inj (Except.ok.inj hrun)
      exact ⟨h, h.handleRequestBlockLocation asker id⟩
  | requestBlockLocationACK data =>
      obtain ⟨after, hafter, hrun⟩ := bind_eq_ok_iff.mp hrun
      obtain ⟨rfl, rfl⟩ := Prod.mk.inj (Except.ok.inj hrun)
      exact ⟨h.handleRequestBlockLocationACK hreplica hmsg hafter, hsilent⟩
  | doReplica data =>
      obtain ⟨after, hafter, hrun⟩ := bind_eq_ok_iff.mp hrun
      obtain ⟨rfl, rfl⟩ := Prod.mk.inj (Except.ok.inj hrun)
      exact ⟨h.handleDoReplica hreplica hmsg hafter, hsilent⟩
  | updateReplica data =>
      obtain ⟨after, hafter, hrun⟩ := bind_eq_ok_iff.mp hrun
      obtain ⟨rfl, rfl⟩ := Prod.mk.inj (Except.ok.inj hrun)
      exact ⟨h.handleUpdateReplica hmsg hafter, hsilent⟩
  | copyBlockFromRemote id =>
      obtain ⟨rfl, rfl⟩ := Prod.mk.inj (Except.ok.inj hrun)
      refine ⟨?_, hsilent⟩
      exact h.of_refers rfl rfl (fun _ _ hget => hget) (fun _ _ hget => hget)
        fun task htask => ⟨task, htask, rfl, rfl⟩
  | blockACK id =>
      obtain ⟨rfl, rfl⟩ := Prod.mk.inj (Except.ok.inj hrun)
      exact ⟨h, hsilent⟩
  | doDelete id =>
      have hsound := h.afterDoDelete id
      rw [(eq_of_handleDoDelete hrun).2] at hsound
      exact hsound
  | deleteBlock id =>
      obtain ⟨-, rfl, rfl⟩ := eq_of_request_deleteBlock hrun
      exact ⟨h.afterDeleteBlock id, hsilent⟩

end BlockNode

end Node

end Doopey
