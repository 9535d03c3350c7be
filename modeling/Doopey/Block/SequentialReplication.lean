import Doopey.Block.CopyTraffic
import Doopey.Block.Deletions

/-!
# Copies that are made one call at a time

`handleDoReplica` takes over the list that its request carries, whatever it knew
itself. As long as a request is handled only when the list is the one that the machine
has, and one that asks for copies only when no other call for the block is under way or
yet to be told of, no copy is made too much and every copy is on the list of every
machine that has the block.
-/

namespace Doopey

open Foundation BlockLocationAttr

/-- What is under way for the machine that was asked for a copy. -/
inductive Errand
  | nothing
  | request (m : MachineID)
  | copy (m : MachineID) (task : CopyTask)
  | ack (m : MachineID)

namespace Errand

/-- The machine that was asked. -/
def machine : Errand → Option MachineID
  | nothing => none
  | request m | copy m _ | ack m => some m

/-- The call of `handleCopyBlockFromRemote`. -/
def copies (n : MachineID) : Errand → List CopyTask
  | copy m task => if n = m then [task] else []
  | _ => []

/-- The message on its way, from or to the machine `source` that asked. -/
def letters (id : BlockID) (source n : MachineID) : Errand → Multiset (MachineID × BlockMessage)
  | request m => if n = m then {(source, .copyBlockFromRemote id)} else 0
  | ack m => if n = source then {(m, .blockACK id)} else 0
  | _ => 0

/-- The only message on its way is the request to the machine, or its acknowledgement. -/
theorem eq_of_mem_letters {id : BlockID} {source n : MachineID} {errand : Errand}
    {sent : MachineID × BlockMessage} (hmem : sent ∈ errand.letters id source n) :
    errand.letters id source n = {sent} ∧
      (errand = .request n ∧ sent = (source, .copyBlockFromRemote id) ∨
        n = source ∧ ∃ m, errand = .ack m ∧ sent = (m, .blockACK id)) := by
  cases errand with
  | nothing => exact absurd hmem (Multiset.notMem_zero _)
  | copy m task => exact absurd hmem (Multiset.notMem_zero _)
  | request m =>
      rw [letters] at hmem ⊢
      split at hmem
      next heq =>
        subst heq
        obtain rfl := Multiset.mem_singleton.mp hmem
        exact ⟨if_pos rfl, Or.inl ⟨rfl, rfl⟩⟩
      next => exact absurd hmem (Multiset.notMem_zero _)
  | ack m =>
      rw [letters] at hmem ⊢
      split at hmem
      next heq =>
        obtain rfl := Multiset.mem_singleton.mp hmem
        exact ⟨if_pos heq, Or.inr ⟨heq, m, rfl, rfl⟩⟩
      next => exact absurd hmem (Multiset.notMem_zero _)

/-- It is on its way to one machine only. -/
theorem letters_eq_zero {id : BlockID} {source n k : MachineID} {errand : Errand}
    {sent : MachineID × BlockMessage} (hmem : sent ∈ errand.letters id source n) (hne : k ≠ n) :
    errand.letters id source k = 0 := by
  rcases (eq_of_mem_letters hmem).2 with ⟨rfl, -⟩ | ⟨rfl, m, rfl, -⟩
  · exact if_neg hne
  · exact if_neg hne

end Errand

/-- A call of `handleDoReplica` has begun for a block, with the list that the machine has. -/
structure BlockNode.Starts (blockReplica : UInt64) (id : BlockID) (attr : Nat)
    (candidate : List MachineID) (node node' : BlockNode) : Prop where
  localIDs : node'.localIDs = node.localIDs
  copies : node'.copies = node.copies
  replicas : node'.replicas = ⟨id, attr, candidate, false⟩ :: node.replicas
  machine {m : MachineID} : m ∈ (node'.attrs attr).machine ↔ m ∈ (node.attrs attr).machine
  wellFormed : WellFormed blockReplica (node'.attrs attr).machine
  room : (node'.attrs attr).machine.length + candidate.length ≤ blockReplica.toNat
  fresh {m : MachineID} : m ∈ candidate → m ∉ (node'.attrs attr).machine
  distinct : candidate.Nodup

theorem BlockNode.starts_of_handleDoReplica {blockReplica : UInt64}
    (hreplica : 1 ≤ blockReplica) {may : BlockID → MachineID → Prop} {node node' : BlockNode}
    (hsound : node.Sound blockReplica may) {id : BlockID} {attr : Nat}
    (hlocal : node.localIDs[id]? = some attr) {me : MachineID}
    {pick : List MachineID → UInt64 → List MachineID} (hpick : Picks blockReplica me pick)
    (hrun : node.handleDoReplica blockReplica pick
      (locationData id (node.attrs attr).machine) = .ok node') :
    node' = node ∨ ∃ candidate, node.Starts blockReplica id attr candidate node' := by
  have hlisted := (hsound.entry (Or.inl hlocal)).2.2
  have hask : node.askBlockDetail id = some attr := by
    rw [BlockNode.askBlockDetail, hlocal]
    rfl
  rw [BlockNode.handleDoReplica, readLocation_locationData, ok_bind] at hrun
  dsimp only at hrun
  rw [hask] at hrun
  dsimp only at hrun
  split at hrun
  next => exact Or.inl (Except.ok.inj hrun).symm
  next =>
    have hwell := (hlisted.rebuilt hreplica (node.attrs attr)).wellFormed
    have hattrs (change : BlockLocationAttr → BlockLocationAttr) :
        (node.modify attr change).attrs attr = change (node.attrs attr) := Function.update_self ..
    rw [hattrs] at hrun
    obtain ⟨hdistinct, hfresh, hlength, -⟩ :=
      hpick ({ node.attrs attr with machine := [] }.addMachines blockReplica
        (node.attrs attr).machine).machine (blockReplica - .ofNat ({ node.attrs attr with
          machine := [] }.addMachines blockReplica (node.attrs attr).machine).machine.length)
    rw [hwell.toNat_sub] at hlength
    rw [← Except.ok.inj hrun]
    refine Or.inr ⟨_, rfl, rfl, rfl, fun {m} => ?_, ?_, ?_, fun hm => ?_, hdistinct⟩
    · rw [hattrs, mem_addMachines_iff (by simpa using hlisted.wellFormed.bounded)]
      exact or_iff_right List.not_mem_nil
    · rw [hattrs]
      exact hwell
    · rw [hattrs]
      apply (Nat.add_le_add_left hlength _).trans
      exact Nat.le_of_eq (Nat.add_sub_cancel' hwell.bounded)
    · rw [hattrs]
      exact (hfresh _ hm).1

namespace BlockNet

/-- A machine has the block in `localIDs`. -/
def Holds (net : BlockNet) (id : BlockID) (n : MachineID) : Prop :=
  (net.nodes n).localIDs[id]? ≠ none

/-- A machine that has the block lists all machines that have it. -/
def Complete (net : BlockNet) (id : BlockID) (n : MachineID) : Prop :=
  ∀ attr, (net.nodes n).localIDs[id]? = some attr → ∀ m, net.Holds id m →
    m ∈ ((net.nodes n).attrs attr).machine

/-- No copy of the block is being made, and no machine is yet to be told of one. -/
def Settled (cluster : MachineID → Prop) (net : BlockNet) (id : BlockID) : Prop :=
  ∀ n, cluster n → (net.nodes n).tasksOf id = [] ∧ (net.nodes n).copiesOf id = [] ∧
    net.letters id n = 0

/-- The list of a machine that has the block. -/
def Records (net : BlockNet) (id : BlockID) (n : MachineID) (machines : List MachineID) : Prop :=
  ∀ attr, (net.nodes n).localIDs[id]? = some attr →
    ((net.nodes n).attrs attr).machine = machines

/-- A call of `handleDoReplica` for the block begins with the list that the machine has, and
when the block is settled unless the list is full; none of the acknowledgements and updates
gets lost. -/
def Sequential (blockReplica : UInt64) (cluster : MachineID → Prop) (id : BlockID)
    (net : BlockNet) : BlockEvent → Prop
  | .checkAll n id' => id' = id → ∀ machines, net.Records id n machines →
      net.Settled cluster id ∨ blockReplica.toNat ≤ machines.length
  | .deliver n _ (.doReplica data) => ∀ machines, data = locationData id machines →
      net.Records id n machines ∧
        (net.Settled cluster id ∨ blockReplica.toNat ≤ machines.length)
  | .drop n _ (.updateReplica data) => ∀ machines, data = locationData id machines →
      net.Records id n machines
  | .deliver _ _ (.blockACK id') | .drop _ _ (.blockACK id') => id' ≠ id
  | .skipCopy n k => ∀ task, (net.nodes n).replicas[k]? = some task → task.block = id →
      task.asked = true → ∀ m, cluster m → (net.nodes m).copiesOf id = [] ∧ net.letters id m = 0
  | _ => True

/-- Nothing is under way for the block but news of who has it. -/
structure Idle (cluster : MachineID → Prop) (net : BlockNet) (id : BlockID) : Prop where
  tasks {n : MachineID} : cluster n → (net.nodes n).tasksOf id = []
  copies {n : MachineID} : cluster n → (net.nodes n).copiesOf id = []
  letters {n : MachineID} {sent : MachineID × BlockMessage} : cluster n →
    sent ∈ net.letters id n → ∃ machines, sent.2 = .updateReplica (locationData id machines) ∧
      ∀ m, net.Holds id m → m ∈ machines
  complete {n : MachineID} : cluster n → net.letters id n = 0 → net.Complete id n

/-- One call of `handleDoReplica` is under way for the block. -/
structure Busy (blockReplica : UInt64) (cluster : MachineID → Prop) (net : BlockNet)
    (id : BlockID) (source : MachineID) (task : ReplicaTask) (errand : Errand) : Prop where
  inside : cluster source
  tasks {n : MachineID} : cluster n →
    (net.nodes n).tasksOf id = if n = source then [task] else []
  copies {n : MachineID} : cluster n → (net.nodes n).copiesOf id = errand.copies n
  letters {n : MachineID} : cluster n → net.letters id n = errand.letters id source n
  asked {m : MachineID} : errand.machine = some m →
    m ≠ source ∧ task.asked = true ∧ task.candidate.head? = some m
  entry : (net.nodes source).localIDs[id]? = some task.attr
  room : ((net.nodes source).attrs task.attr).machine.length + task.candidate.length ≤
    blockReplica.toNat
  listed {m : MachineID} : net.Holds id m →
    m ∈ ((net.nodes source).attrs task.attr).machine ∨ errand = .ack m
  copied {m : MachineID} {copy : CopyTask} : errand = .copy m copy → copy.src = source
  fresh {m : MachineID} : m ∈ task.candidate →
    m ∉ ((net.nodes source).attrs task.attr).machine
  distinct : task.candidate.Nodup
  unheard {m n : MachineID} {attr : Nat} : errand = .ack m →
    (net.nodes n).localIDs[id]? = some attr → m ∈ ((net.nodes n).attrs attr).machine →
      ((net.nodes n).attrs attr).machine.length = 1

section Steps

variable {blockReplica : UInt64} {cluster : MachineID → Prop} {net net' : BlockNet} {id : BlockID}
  {n : MachineID}

theorem Calm.holds_iff (h : Calm id net net') (n : MachineID) :
    net'.Holds id n ↔ net.Holds id n := by
  unfold Holds
  rw [(h.nodes n).localIDs]

theorem Calm.complete (h : Calm id net net') (hcomplete : net.Complete id n) :
    net'.Complete id n := by
  intro attr hlocal m hm
  rw [(h.nodes n).localIDs] at hlocal
  rw [(h.nodes n).machine hlocal]
  exact hcomplete attr hlocal m ((h.holds_iff m).mp hm)

theorem Idle.calm (h : net.Idle cluster id) (hcalm : Calm id net net') :
    net'.Idle cluster id where
  tasks hn := (hcalm.nodes _).tasks.trans (h.tasks hn)
  copies hn := (hcalm.nodes _).copies.trans (h.copies hn)
  letters hn hsent := by
    rw [hcalm.letters] at hsent
    obtain ⟨machines, heq, hlisted⟩ := h.letters hn hsent
    exact ⟨machines, heq, fun m hm => hlisted m ((hcalm.holds_iff m).mp hm)⟩
  complete hn hnone := hcalm.complete (h.complete hn ((hcalm.letters _).symm.trans hnone))

theorem Busy.calm {source : MachineID} {task : ReplicaTask} {errand : Errand}
    (h : net.Busy blockReplica cluster id source task errand) (hcalm : Calm id net net') :
    net'.Busy blockReplica cluster id source task errand where
  inside := h.inside
  tasks hn := (hcalm.nodes _).tasks.trans (h.tasks hn)
  copies hn := (hcalm.nodes _).copies.trans (h.copies hn)
  letters hn := (hcalm.letters _).trans (h.letters hn)
  asked := h.asked
  entry := (hcalm.nodes source).localIDs.trans h.entry
  room := by
    rw [(hcalm.nodes source).machine h.entry]
    exact h.room
  listed hm := by
    rw [(hcalm.nodes source).machine h.entry]
    exact h.listed ((hcalm.holds_iff _).mp hm)
  copied := h.copied
  fresh hm := by
    rw [(hcalm.nodes source).machine h.entry]
    exact h.fresh hm
  distinct := h.distinct
  unheard {m n attr} hack hlocal := by
    rw [(hcalm.nodes n).localIDs] at hlocal
    rw [(hcalm.nodes n).machine hlocal]
    exact h.unheard hack hlocal

/-- A machine keeps its blocks. -/
theorem holds_act_iff {node : BlockNode} (sends : List (Target × BlockMessage))
    (hlocal : node.localIDs[id]? = (net.nodes n).localIDs[id]?) (m : MachineID) :
    (net.act n node sends).Holds id m ↔ net.Holds id m := by
  unfold Holds
  by_cases heq : m = n
  · rw [heq, nodes_act_self, hlocal]
  · rw [nodes_act_of_ne heq]

theorem tasksOf_act {node : BlockNode} (sends : List (Target × BlockMessage))
    (htasks : node.tasksOf id = (net.nodes n).tasksOf id) (k : MachineID) :
    ((net.act n node sends).nodes k).tasksOf id = (net.nodes k).tasksOf id := by
  by_cases heq : k = n
  · rw [heq, nodes_act_self, htasks]
  · rw [nodes_act_of_ne heq]

theorem copiesOf_act {node : BlockNode} (sends : List (Target × BlockMessage))
    (hcopies : node.copiesOf id = (net.nodes n).copiesOf id) (k : MachineID) :
    ((net.act n node sends).nodes k).copiesOf id = (net.nodes k).copiesOf id := by
  by_cases heq : k = n
  · rw [heq, nodes_act_self, hcopies]
  · rw [nodes_act_of_ne heq]

/-! ## News of who has the block -/

/-- A message is handled, or gets lost, and nothing is sent. -/
theorem letters_handled {sent : MachineID × BlockMessage}
    {rest : Multiset (MachineID × BlockMessage)} (hflight : net.inFlight n = sent ::ₘ rest)
    (node : BlockNode) :
    (∀ k, k ≠ n → ((net.without n rest).act n node []).letters id k = net.letters id k) ∧
      ∀ k, ∀ other ∈ ((net.without n rest).act n node []).letters id k,
        other ∈ net.letters id k := by
  obtain ⟨hothers, hself⟩ := @letters_without net id n _ _ hflight
  have hsilent (k : MachineID) : ((net.without n rest).act n node []).letters id k =
      (net.without n rest).letters id k :=
    letters_act_nil node k
  refine ⟨fun k hk => (hsilent k).trans (hothers k hk), fun k other hmem => ?_⟩
  rw [hsilent] at hmem
  by_cases heq : k = n
  · subst heq
    rw [hself]
    split
    next => exact Multiset.mem_cons_of_mem hmem
    next => exact hmem
  · rw [← hothers k heq]
    exact hmem

/-- All other machines are told of the list when a call ends. -/
theorem letters_finishReplica {k : Nat} {task : ReplicaTask}
    (hattr : ((net.nodes n).attrs task.attr).block = id) (m : MachineID) :
    (net.act n ((net.nodes n).finishReplica k task).1
      ((net.nodes n).finishReplica k task).2).letters id m =
      net.letters id m + if m ≠ n then {(n, .updateReplica (locationData id
        ((net.nodes n).attrs task.attr).machine))} else 0 := by
  rw [BlockNode.finishReplica, hattr]
  exact letters_act_singleton _ (BlockMessage.concerns_update id _) m

/-- A machine handles the news, or they get lost where they are no news. -/
theorem Idle.update (h : net.Idle cluster id) {node : BlockNode}
    {sent : MachineID × BlockMessage} {rest : Multiset (MachineID × BlockMessage)}
    (hflight : net.inFlight n = sent ::ₘ rest)
    (hlocal : node.localIDs[id]? = (net.nodes n).localIDs[id]?)
    (htasks : node.tasksOf id = (net.nodes n).tasksOf id)
    (hcopies : node.copiesOf id = (net.nodes n).copiesOf id)
    (hmachine : ∀ attr, (net.nodes n).localIDs[id]? = some attr → ∀ m, net.Holds id m →
      m ∈ (node.attrs attr).machine) :
    ((net.without n rest).act n node []).Idle cluster id := by
  obtain ⟨hothers, hsub⟩ := @letters_handled net id n _ _ hflight node
  have hholds (m : MachineID) : ((net.without n rest).act n node []).Holds id m ↔
      net.Holds id m := @holds_act_iff (net.without n rest) id n node [] hlocal m
  refine ⟨fun {k} hk => (@tasksOf_act (net.without n rest) _ _ _ [] htasks k).trans (h.tasks hk),
    fun {k} hk => (@copiesOf_act (net.without n rest) _ _ _ [] hcopies k).trans (h.copies hk),
    fun {k sent'} hk hmem => ?_, fun {k} hk hnone => ?_⟩
  · obtain ⟨machines, heq, hlisted⟩ := h.letters hk (hsub k sent' hmem)
    exact ⟨machines, heq, fun m hm => hlisted m ((hholds m).mp hm)⟩
  · intro attr hattr m hm
    by_cases heq : k = n
    · rw [heq, nodes_act_self] at hattr ⊢
      exact hmachine attr (hlocal.symm.trans hattr) m ((hholds m).mp hm)
    · rw [hothers k heq] at hnone
      rw [nodes_act_of_ne heq] at hattr ⊢
      exact h.complete hk hnone attr hattr m ((hholds m).mp hm)

/-! ## The call of `handleDoReplica` -/

/-- A settled block has no call under way. -/
theorem Busy.not_settled {source : MachineID} {task : ReplicaTask} {errand : Errand}
    (h : net.Busy blockReplica cluster id source task errand) : ¬ net.Settled cluster id := by
  intro hsettled
  have htasks := h.tasks h.inside
  rw [(hsettled source h.inside).1, if_pos rfl] at htasks
  exact absurd htasks (by simp)

/-- The call begins. -/
theorem Idle.start (h : net.Idle cluster id) (hsettled : net.Settled cluster id)
    (hreplica : 1 ≤ blockReplica) (hsound : net.Sound blockReplica net.Stores) (hn : cluster n)
    {attr : Nat} (hlocal : (net.nodes n).localIDs[id]? = some attr)
    {pick : List MachineID → UInt64 → List MachineID} (hpick : Picks blockReplica n pick)
    {node : BlockNode} (hrun : (net.nodes n).handleDoReplica blockReplica pick
      (locationData id ((net.nodes n).attrs attr).machine) = .ok node) :
    (net.act n node []).Idle cluster id ∨
      ∃ task errand, (net.act n node []).Busy blockReplica cluster id n task errand := by
  rcases BlockNode.starts_of_handleDoReplica hreplica (hsound.node n) hlocal hpick hrun with
    rfl | ⟨candidate, hstarts⟩
  · left
    rw [act_nothing]
    exact h
  · right
    have htasks : node.tasksOf id = ⟨id, attr, candidate, false⟩ :: (net.nodes n).tasksOf id := by
      rw [BlockNode.tasksOf, hstarts.replicas, List.filter_cons_of_pos (by simp),
        ← BlockNode.tasksOf]
    have hcopies : node.copiesOf id = (net.nodes n).copiesOf id := by
      rw [BlockNode.copiesOf, hstarts.copies, ← BlockNode.copiesOf]
    refine ⟨⟨id, attr, candidate, false⟩, .nothing, hn, fun {k} hk => ?_,
      fun {k} hk => (copiesOf_act [] hcopies k).trans (hsettled k hk).2.1,
      fun {k} hk => (letters_act_nil node k).trans (hsettled k hk).2.2,
      fun hm => absurd hm (by simp [Errand.machine]), ?_, ?_, fun {m} hm => Or.inl ?_,
      fun hcopy => absurd hcopy (by simp), fun {m} hm => ?_, hstarts.distinct,
      fun hack => absurd hack (by simp)⟩
    · by_cases heq : k = n
      · rw [heq, nodes_act_self, if_pos rfl, htasks, (hsettled n hn).1]
      · rw [nodes_act_of_ne heq, if_neg heq]
        exact (hsettled k hk).1
    · rw [nodes_act_self, hstarts.localIDs]
      exact hlocal
    · rw [nodes_act_self]
      exact hstarts.room
    · rw [nodes_act_self, hstarts.machine]
      apply h.complete hn (hsettled n hn).2.2 attr hlocal m
      exact (holds_act_iff [] (by rw [hstarts.localIDs]) m).mp hm
    · rw [nodes_act_self]
      exact hstarts.fresh hm

/-! ## The machine that makes the call -/

section Source

variable {source : MachineID} {task task' : ReplicaTask} {errand errand' : Errand}

/-- The call goes on, whatever the messages were that it has handled or sent. -/
theorem Busy.act_source (h : net.Busy blockReplica cluster id source task errand)
    {before : BlockNet} (hbefore : before.nodes = net.nodes) {node : BlockNode}
    {sends : List (Target × BlockMessage)} (htasks : node.tasksOf id = [task'])
    (hcopies : node.copies = (net.nodes source).copies)
    (herrand : ∀ k, cluster k → errand'.copies k = errand.copies k)
    (hletters : ∀ k, cluster k →
      (before.act source node sends).letters id k = errand'.letters id source k)
    (hasked : ∀ m, errand'.machine = some m →
      m ≠ source ∧ task'.asked = true ∧ task'.candidate.head? = some m)
    (hlocal : node.localIDs = (net.nodes source).localIDs) (hattr : task'.attr = task.attr)
    (hroom : (node.attrs task.attr).machine.length + task'.candidate.length ≤ blockReplica.toNat)
    (hlisted : ∀ m, net.Holds id m → m ∈ (node.attrs task.attr).machine)
    (hnot : ∀ m copy, errand' ≠ .copy m copy ∧ errand' ≠ .ack m)
    (hfresh : ∀ m ∈ task'.candidate, m ∉ (node.attrs task.attr).machine)
    (hdistinct : task'.candidate.Nodup) :
    (before.act source node sends).Busy blockReplica cluster id source task' errand' where
  inside := h.inside
  tasks {k} hk := by
    by_cases heq : k = source
    · rw [heq, nodes_act_self, if_pos rfl, htasks]
    · rw [nodes_act_of_ne heq, hbefore, h.tasks hk, if_neg heq, if_neg heq]
  copies {k} hk := by
    rw [herrand k hk, ← h.copies hk]
    by_cases heq : k = source
    · subst heq
      rw [nodes_act_self, BlockNode.copiesOf, hcopies, BlockNode.copiesOf]
    · rw [nodes_act_of_ne heq, hbefore]
  letters hk := hletters _ hk
  asked hm := hasked _ hm
  entry := by
    rw [nodes_act_self, hlocal, hattr]
    exact h.entry
  room := by
    rw [nodes_act_self, hattr]
    exact hroom
  listed {m} hm := by
    rw [nodes_act_self, hattr]
    apply Or.inl
    apply hlisted
    rw [← hbefore] at hlocal
    have hholds := (@holds_act_iff before id source node sends (by rw [hlocal]) m).mp hm
    unfold Holds at hholds ⊢
    rwa [hbefore] at hholds
  copied hcopy := absurd hcopy (hnot _ _).1
  fresh hm := by
    rw [nodes_act_self, hattr]
    exact hfresh _ hm
  distinct := hdistinct
  unheard hack := absurd hack (hnot _ ⟨0, 0, none⟩).2

/-- The call is where the task is. -/
theorem Busy.eq_source (h : net.Busy blockReplica cluster id source task errand) (hn : cluster n)
    {k : Nat} {task' : ReplicaTask} (hget : (net.nodes n).replicas[k]? = some task')
    (hblock : task'.block = id) : n = source ∧ task' = task ∧
      (∀ next : ReplicaTask, next.block = id →
        List.filter (·.block == id) ((net.nodes n).replicas.set k next) = [next]) ∧
      List.filter (·.block == id) ((net.nodes n).replicas.eraseIdx k) = [] := by
  have htasks := h.tasks hn
  have htrue : (task'.block == id) = true := beq_iff_eq.mpr hblock
  by_cases heq : n = source
  · rw [if_pos heq] at htasks
    obtain ⟨hsame, -, herase⟩ := @filter_set_of_singleton _ _ _ _ _ task' _ hget htrue htasks
    refine ⟨heq, hsame, fun next hnext => ?_, herase⟩
    exact (@filter_set_of_singleton _ _ _ _ _ next _ hget htrue htasks).2.1 (beq_iff_eq.mpr hnext)
  · rw [if_neg heq] at htasks
    have hmem : task' ∈ (net.nodes n).tasksOf id :=
      List.mem_filter.mpr ⟨List.mem_of_getElem? hget, htrue⟩
    rw [htasks] at hmem
    exact absurd hmem List.not_mem_nil

/-- Nothing is under way as long as no machine was asked. -/
theorem Busy.errand_eq (h : net.Busy blockReplica cluster id source task errand)
    (hnot : ∀ m, ¬ (task.asked = true ∧ task.candidate.head? = some m)) : errand = .nothing := by
  cases errand with
  | nothing => rfl
  | request m => exact absurd (h.asked rfl).2 (hnot m)
  | copy m copy => exact absurd (h.asked rfl).2 (hnot m)
  | ack m => exact absurd (h.asked rfl).2 (hnot m)

theorem Busy.askCopy (h : net.Busy blockReplica cluster id source task errand) (hn : cluster n)
    {k : Nat} (hget : (net.nodes n).replicas[k]? = some task') (hblock : task'.block = id)
    {m : MachineID} {rest : List MachineID} (hcandidate : task'.candidate = m :: rest)
    (hasked : task'.asked = false) :
    ∃ task errand, (net.act n { net.nodes n with
        replicas := (net.nodes n).replicas.set k { task' with asked := true } }
      [(.machine m, .copyBlockFromRemote task'.block)]).Busy blockReplica cluster id n task
        errand := by
  obtain ⟨rfl, rfl, hset, -⟩ := h.eq_source hn hget hblock
  obtain rfl := h.errand_eq fun m hm => by simp [hasked] at hm
  have hmsg : (BlockMessage.copyBlockFromRemote task'.block).Concerns id = true :=
    beq_iff_eq.mpr hblock
  have hlisted (k : MachineID) (hk : net.Holds id k) :=
    (h.listed hk).resolve_right (by simp)
  by_cases heq : m = n
  · -- nobody sends anything to itself
    refine ⟨{ task' with asked := true }, .nothing, h.act_source rfl (hset _ hblock) rfl
      (fun _ _ => rfl) (fun k hk => ?_) (fun _ hm => absurd hm (by simp [Errand.machine])) rfl rfl
      h.room hlisted (fun _ _ => by simp) (fun _ hm => h.fresh hm) h.distinct⟩
    rw [letters_act_singleton _ hmsg, h.letters hk,
      if_neg fun hreaches => hreaches.2 (hreaches.1.symm.trans heq)]
    exact Multiset.add_zero _
  · refine ⟨{ task' with asked := true }, .request m, h.act_source rfl (hset _ hblock) rfl
      (fun _ _ => rfl) (fun k hk => ?_) (fun k hk => ?_) rfl rfl h.room hlisted
      (fun _ _ => by simp) (fun _ hm => h.fresh hm) h.distinct⟩
    · rw [letters_act_singleton _ hmsg, h.letters hk, hblock]
      change 0 + _ = if k = m then _ else 0
      rw [Multiset.zero_add]
      by_cases hk : k = m
      · rw [if_pos hk, if_pos ⟨hk.symm, hk ▸ heq⟩]
      · rw [if_neg hk, if_neg fun hreaches => hk hreaches.1.symm]
    · obtain rfl : m = k := Option.some.inj hk
      exact ⟨heq, rfl, by rw [hcandidate]; rfl⟩

/-- The machine is given up when it has not been asked, or does not answer any more. -/
theorem Busy.skipCopy (h : net.Busy blockReplica cluster id source task errand) (hn : cluster n)
    {k : Nat} (hget : (net.nodes n).replicas[k]? = some task') (hblock : task'.block = id)
    {m : MachineID} {rest : List MachineID} (hcandidate : task'.candidate = m :: rest)
    (hskip : task'.asked = true → ∀ m, cluster m →
      (net.nodes m).copiesOf id = [] ∧ net.letters id m = 0) :
    ∃ task errand, (net.act n { net.nodes n with
        replicas := (net.nodes n).replicas.set k { task' with candidate := rest, asked := false } }
      []).Busy blockReplica cluster id n task errand := by
  obtain ⟨rfl, rfl, hset, -⟩ := h.eq_source hn hget hblock
  have hnothing : ∀ m, cluster m → (net.nodes m).copiesOf id = [] ∧ net.letters id m = 0 := by
    cases hasked : task'.asked with
    | true => exact hskip hasked
    | false =>
        obtain rfl := h.errand_eq fun m hm => by simp [hasked] at hm
        exact fun m hm => ⟨h.copies hm, h.letters hm⟩
  refine ⟨{ task' with candidate := rest, asked := false }, .nothing, h.act_source rfl
    (hset _ hblock) rfl (fun k hk => ?_) (fun k hk => ?_)
    (fun _ hm => absurd hm (by simp [Errand.machine])) rfl rfl ?_ (fun k hk => ?_)
    (fun _ _ => by simp) (fun k hk => h.fresh (hcandidate ▸ List.mem_cons_of_mem _ hk)) ?_⟩
  · rw [← h.copies hk, (hnothing k hk).1]
    rfl
  · rw [letters_act_nil]
    exact (hnothing k hk).2
  · have hroom := h.room
    rw [hcandidate, List.length_cons] at hroom
    dsimp only
    omega
  · apply (h.listed hk).resolve_right
    rintro rfl
    -- the acknowledgement would still be on its way
    have hletter := (h.letters hn).symm.trans (hnothing n hn).2
    exact absurd hletter (by simp [Errand.letters])
  · have hdistinct := h.distinct
    rw [hcandidate] at hdistinct
    exact hdistinct.of_cons

/-- A message about the block that arrives is the errand, and no other one is on its way. -/
theorem Busy.eq_letter (h : net.Busy blockReplica cluster id source task errand) (hn : cluster n)
    {sent : MachineID × BlockMessage} {rest : Multiset (MachineID × BlockMessage)}
    (hflight : net.inFlight n = sent ::ₘ rest) (hmsg : sent.2.Concerns id = true) :
    (errand = .request n ∧ sent = (source, .copyBlockFromRemote id) ∨
      n = source ∧ ∃ m, errand = .ack m ∧ sent = (m, .blockACK id)) ∧
    ∀ k, cluster k → (net.without n rest).letters id k = 0 := by
  obtain ⟨hothers, hself⟩ := @letters_without net id n _ _ hflight
  rw [if_pos hmsg, h.letters hn] at hself
  have hmem : sent ∈ errand.letters id source n := by
    rw [hself]
    exact Multiset.mem_cons_self _ _
  obtain ⟨hsingle, hcases⟩ := Errand.eq_of_mem_letters hmem
  refine ⟨hcases, fun k hk => ?_⟩
  by_cases heq : k = n
  · rw [hsingle] at hself
    rw [heq]
    exact ((Multiset.singleton_eq_cons_iff _).mp hself).2
  · rw [hothers k heq, h.letters hk]
    exact Errand.letters_eq_zero hmem heq

/-- The machine that was asked has told of its copy, and is put on the list. -/
theorem Busy.takeCopy (h : net.Busy blockReplica cluster id source task errand) (hn : cluster n)
    {k : Nat} (hget : (net.nodes n).replicas[k]? = some task') (hblock : task'.block = id)
    {m : MachineID} {rest : List MachineID} (hcandidate : task'.candidate = m :: rest)
    {flight : Multiset (MachineID × BlockMessage)}
    (hflight : net.inFlight n = (m, .blockACK task'.block) ::ₘ flight) :
    ∃ task errand, ((net.without n flight).act n
      ((net.nodes n).addCandidate blockReplica k task' m rest) []).Busy blockReplica cluster id n
        task errand := by
  obtain ⟨rfl, rfl, hset, -⟩ := h.eq_source hn hget hblock
  obtain ⟨⟨-, hsent⟩ | ⟨-, m', rfl, hsent⟩, hnone⟩ := h.eq_letter hn hflight (beq_iff_eq.mpr hblock)
  · exact absurd (Prod.mk.inj hsent).2 (by simp)
  obtain rfl := (Prod.mk.inj hsent).1
  have hroom := h.room
  rw [hcandidate, List.length_cons] at hroom
  have hdistinct := h.distinct
  rw [hcandidate, List.nodup_cons] at hdistinct
  have hattrs : ((net.nodes n).addCandidate blockReplica k task' m rest).attrs task'.attr =
      ((net.nodes n).attrs task'.attr).addMachine blockReplica m := Function.update_self ..
  have htasks : ((net.nodes n).addCandidate blockReplica k task' m rest).tasksOf id =
      [{ task' with candidate := rest, asked := false }] := hset _ hblock
  have hbefore : (net.without n flight).nodes = net.nodes := rfl
  refine ⟨{ task' with candidate := rest, asked := false }, .nothing, h.act_source hbefore
    htasks rfl (fun _ _ => rfl) (fun k hk => ?_)
    (fun _ hm => absurd hm (by simp [Errand.machine])) rfl rfl ?_ (fun k hk => ?_)
    (fun _ _ => by simp) (fun k hk => ?_) hdistinct.2⟩
  · rw [letters_act_nil]
    exact hnone k hk
  · have hlength := @length_addMachine_le blockReplica ((net.nodes n).attrs task'.attr) m
    rw [hattrs]
    dsimp only
    omega
  · rw [hattrs, mem_addMachine_iff (by omega)]
    rcases h.listed hk with hold | hnew
    · exact Or.inl hold
    · exact Or.inr (Errand.ack.inj hnew).symm
  · rw [hattrs, mem_addMachine_iff (by omega)]
    rintro (hold | rfl)
    · exact h.fresh (hcandidate ▸ List.mem_cons_of_mem _ hk) hold
    · exact hdistinct.1 hk

/-- The call ends, and the machine tells all others of the list. -/
theorem Busy.finish (h : net.Busy blockReplica cluster id source task errand)
    (hsound : net.Sound blockReplica net.Stores) (hn : cluster n)
    {k : Nat} (hget : (net.nodes n).replicas[k]? = some task') (hblock : task'.block = id)
    (hcandidate : task'.candidate = []) :
    (net.act n ((net.nodes n).finishReplica k task').1
      ((net.nodes n).finishReplica k task').2).Idle cluster id := by
  obtain ⟨rfl, rfl, -, herase⟩ := h.eq_source hn hget hblock
  obtain rfl := h.errand_eq fun m hm => by simp [hcandidate] at hm
  have hattr : ((net.nodes n).attrs task'.attr).block = id :=
    ((hsound.node n).entry (Or.inl h.entry)).2.1
  have hlisted (m : MachineID) (hm : net.Holds id m) :
      m ∈ ((net.nodes n).attrs task'.attr).machine := (h.listed hm).resolve_right (by simp)
  have hholds (m : MachineID) : (net.act n ((net.nodes n).finishReplica k task').1
      ((net.nodes n).finishReplica k task').2).Holds id m ↔ net.Holds id m :=
    holds_act_iff _ (by rfl) m
  have hletters (k' : MachineID) (hk : cluster k') :
      (net.act n ((net.nodes n).finishReplica k task').1
        ((net.nodes n).finishReplica k task').2).letters id k' =
        if k' ≠ n then {(n, .updateReplica (locationData id
          ((net.nodes n).attrs task'.attr).machine))} else 0 := by
    rw [letters_finishReplica hattr, h.letters hk]
    exact Multiset.zero_add _
  refine ⟨fun {k'} hk => ?_, fun {k'} hk => ?_, fun {k' sent} hk hmem => ?_,
    fun {k'} hk hnone => ?_⟩
  · by_cases heq : k' = n
    · rw [heq, nodes_act_self]
      exact herase
    · rw [nodes_act_of_ne heq, h.tasks hk, if_neg heq]
  · by_cases heq : k' = n
    · rw [heq, nodes_act_self]
      exact h.copies hn
    · rw [nodes_act_of_ne heq]
      exact h.copies hk
  · rw [hletters k' hk] at hmem
    split at hmem
    next =>
      rw [Multiset.mem_singleton.mp hmem]
      exact ⟨_, rfl, fun m hm => hlisted m ((hholds m).mp hm)⟩
    next => exact absurd hmem (Multiset.notMem_zero _)
  · rw [hletters k' hk] at hnone
    by_cases heq : k' = n
    · subst heq
      intro attr hlocal m hm
      rw [nodes_act_self] at hlocal ⊢
      obtain rfl : attr = task'.attr := Option.some.inj (hlocal.symm.trans h.entry)
      exact hlisted m ((hholds m).mp hm)
    · rw [if_pos heq] at hnone
      exact absurd hnone (Multiset.singleton_ne_zero _)

end Source

/-! ## The machine that was asked -/

section Candidate

variable {source : MachineID} {task : ReplicaTask} {errand errand' : Errand}

/-- The errand goes on at the machine that was asked. -/
theorem Busy.act_candidate (h : net.Busy blockReplica cluster id source task errand)
    (hmachine : errand.machine = some n) (hnot : ∀ m, errand ≠ .ack m)
    {before : BlockNet} (hbefore : before.nodes = net.nodes) {node : BlockNode}
    {sends : List (Target × BlockMessage)} (htasks : node.tasksOf id = (net.nodes n).tasksOf id)
    (hmachine' : ∀ m, errand'.machine = some m → m = n)
    (hcopies : node.copiesOf id = errand'.copies n)
    (hletters : ∀ k, cluster k →
      (before.act n node sends).letters id k = errand'.letters id source k)
    (hlocal : node.localIDs[id]? ≠ none →
      (net.nodes n).localIDs[id]? ≠ none ∨ errand' = .ack n)
    (hcopied : ∀ m copy, errand' = .copy m copy → copy.src = source)
    (hunheard : ∀ m, errand' = .ack m → ∀ k attr,
      ((before.act n node sends).nodes k).localIDs[id]? = some attr →
      m ∈ (((before.act n node sends).nodes k).attrs attr).machine →
        (((before.act n node sends).nodes k).attrs attr).machine.length = 1) :
    (before.act n node sends).Busy blockReplica cluster id source task errand' := by
  have hasked := h.asked hmachine
  have hne : source ≠ n := hasked.1.symm
  -- no other machine has a copy under way, before and after
  have helsewhere {errand : Errand} (hmachine : ∀ m, errand.machine = some m → m = n)
      {k : MachineID} (hk : k ≠ n) : errand.copies k = [] := by
    cases errand with
    | copy m copy =>
        obtain rfl := hmachine m rfl
        exact if_neg hk
    | _ => rfl
  have hsource : (before.act n node sends).nodes source = net.nodes source := by
    rw [nodes_act_of_ne hne, hbefore]
  refine ⟨h.inside, fun {k} hk => ?_, fun {k} hk => ?_, fun {k} hk => hletters k hk,
    fun {m} hm => ?_, ?_, ?_, fun {m} hm => ?_, fun hcopy => hcopied _ _ hcopy,
    fun {m} hm => ?_, h.distinct, fun hack => hunheard _ hack _ _⟩
  · by_cases heq : k = n
    · subst heq
      rw [nodes_act_self, htasks]
      exact h.tasks hk
    · rw [nodes_act_of_ne heq, hbefore]
      exact h.tasks hk
  · by_cases heq : k = n
    · rw [heq, nodes_act_self]
      exact hcopies
    · rw [nodes_act_of_ne heq, hbefore, h.copies hk, helsewhere hmachine' heq]
      apply helsewhere _ heq
      exact fun m hm => Option.some.inj (hm.symm.trans hmachine)
  · rw [hmachine' m hm]
    exact hasked
  · rw [hsource]
    exact h.entry
  · rw [hsource]
    exact h.room
  · rw [hsource]
    have hold (hholds : net.Holds id m) :
        m ∈ ((net.nodes source).attrs task.attr).machine ∨ errand' = .ack m :=
      Or.inl ((h.listed hholds).resolve_right (hnot m))
    unfold Holds at hm
    by_cases heq : m = n
    · rw [heq, nodes_act_self] at hm
      rcases hlocal hm with hlocal | hack
      · apply hold
        rw [heq]
        exact hlocal
      · rw [heq]
        exact Or.inr hack
    · rw [nodes_act_of_ne heq, hbefore] at hm
      exact hold hm
  · rw [hsource]
    exact h.fresh hm

/-- The call is the errand. -/
theorem Busy.eq_copy (h : net.Busy blockReplica cluster id source task errand) (hn : cluster n)
    {k : Nat} {copy : CopyTask} (hget : (net.nodes n).copies[k]? = some copy)
    (hblock : copy.block = id) : errand = .copy n copy ∧ copy.src = source ∧
      (∀ next : CopyTask, next.block = id →
        List.filter (·.block == id) ((net.nodes n).copies.set k next) = [next]) ∧
      List.filter (·.block == id) ((net.nodes n).copies.eraseIdx k) = [] := by
  have hcopies := h.copies hn
  have htrue : (copy.block == id) = true := beq_iff_eq.mpr hblock
  have hmem : copy ∈ (net.nodes n).copiesOf id :=
    List.mem_filter.mpr ⟨List.mem_of_getElem? hget, htrue⟩
  rw [hcopies] at hmem
  cases errand with
  | copy m other =>
      rw [Errand.copies] at hmem hcopies
      split at hmem
      next heq =>
        rw [if_pos heq] at hcopies
        obtain ⟨rfl, -, herase⟩ := @filter_set_of_singleton _ _ _ _ _ copy _ hget htrue hcopies
        refine ⟨by rw [heq], h.copied rfl, fun next hnext => ?_, herase⟩
        exact (@filter_set_of_singleton _ _ _ _ _ next _ hget htrue hcopies).2.1
          (beq_iff_eq.mpr hnext)
      next => exact absurd hmem List.not_mem_nil
  | _ => exact absurd hmem List.not_mem_nil

/-- The message is the errand. -/
theorem Busy.eq_request (h : net.Busy blockReplica cluster id source task errand) (hn : cluster n)
    {src : MachineID} {rest : Multiset (MachineID × BlockMessage)}
    (hflight : net.inFlight n = (src, .copyBlockFromRemote id) ::ₘ rest) :
    errand = .request n ∧ src = source ∧
      ∀ k, cluster k → (net.without n rest).letters id k = 0 := by
  obtain ⟨⟨rfl, hsent⟩ | ⟨-, m, -, hsent⟩, hnone⟩ := h.eq_letter hn hflight (beq_self_eq_true id)
  · exact ⟨rfl, (Prod.mk.inj hsent).1, hnone⟩
  · exact absurd (Prod.mk.inj hsent).2 (by simp)

/-- The machine begins to make a copy. -/
theorem Busy.handleCopyBlockFromRemote
    (h : net.Busy blockReplica cluster id source task errand) (hn : cluster n) {src : MachineID}
    {rest : Multiset (MachineID × BlockMessage)}
    (hflight : net.inFlight n = (src, .copyBlockFromRemote id) ::ₘ rest) :
    ∃ errand, ((net.without n rest).act n { net.nodes n with
      copies := ⟨id, src, none⟩ :: (net.nodes n).copies } []).Busy blockReplica cluster id source
        task errand := by
  obtain ⟨rfl, rfl, hnone⟩ := h.eq_request hn hflight
  have hbefore : (net.without n rest).nodes = net.nodes := rfl
  refine ⟨.copy n ⟨id, src, none⟩, h.act_candidate rfl (fun m => by simp) hbefore rfl
    (fun m hm => (Option.some.inj hm).symm) ?_ (fun k hk => ?_) Or.inl (fun m copy hcopy => ?_)
    fun _ hack => absurd hack (by simp)⟩
  · have hcopies : (net.nodes n).copiesOf id = [] := h.copies hn
    unfold BlockNode.copiesOf at hcopies ⊢
    rw [List.filter_cons_of_pos (by simp), hcopies]
    exact (if_pos rfl).symm
  · rw [letters_act_nil]
    exact hnone k hk
  · obtain ⟨-, rfl⟩ := Errand.copy.inj hcopy
    rfl

/-- The machine is never asked, since the request got lost. -/
theorem Busy.dropRequest (h : net.Busy blockReplica cluster id source task errand) (hn : cluster n)
    {src : MachineID} {rest : Multiset (MachineID × BlockMessage)}
    (hflight : net.inFlight n = (src, .copyBlockFromRemote id) ::ₘ rest) :
    (net.without n rest).Busy blockReplica cluster id source task .nothing := by
  obtain ⟨rfl, rfl, hnone⟩ := h.eq_request hn hflight
  exact
    { h with
      letters := hnone _
      asked := fun hm => absurd hm (by simp [Errand.machine])
      listed := fun hm => Or.inl ((h.listed hm).resolve_right (by simp))
      copied := fun hcopy => absurd hcopy (by simp)
      unheard := fun hack => absurd hack (by simp) }

/-- The block has been loaded. -/
theorem Busy.load (h : net.Busy blockReplica cluster id source task errand) (hn : cluster n)
    {k : Nat} {copy : CopyTask} (hget : (net.nodes n).copies[k]? = some copy)
    (hblock : copy.block = id) (data : Bytes) :
    ∃ errand, (net.act n { net.nodes n with
      copies := (net.nodes n).copies.set k { copy with data := some data } } []).Busy blockReplica
        cluster id source task errand := by
  obtain ⟨rfl, rfl, hset, -⟩ := h.eq_copy hn hget hblock
  refine ⟨.copy n { copy with data := some data }, h.act_candidate rfl (fun m => by simp) rfl rfl
    (fun m hm => (Option.some.inj hm).symm) ?_ (fun k hk => ?_) Or.inl (fun m other hcopy => ?_)
    fun _ hack => absurd hack (by simp)⟩
  · have hcopies := hset { copy with data := some data } hblock
    exact hcopies.trans (if_pos rfl).symm
  · rw [letters_act_nil]
    exact h.letters hk
  · obtain ⟨-, rfl⟩ := Errand.copy.inj hcopy
    rfl

/-- The machine makes no copy, and tells nobody. -/
theorem Busy.giveUp (h : net.Busy blockReplica cluster id source task errand) (hn : cluster n)
    {k : Nat} {copy : CopyTask} (hget : (net.nodes n).copies[k]? = some copy)
    (hblock : copy.block = id) {node : BlockNode}
    (hlocal : node.localIDs = (net.nodes n).localIDs)
    (hreplicas : node.replicas = (net.nodes n).replicas)
    (hcopies : node.copies = (net.nodes n).copies.eraseIdx k) :
    (net.act n node []).Busy blockReplica cluster id source task .nothing := by
  obtain ⟨rfl, rfl, -, herase⟩ := h.eq_copy hn hget hblock
  refine h.act_candidate rfl (fun m => by simp) rfl ?_
    (fun m hm => absurd hm (by simp [Errand.machine])) ?_ (fun k hk => ?_) (fun hm => Or.inl ?_)
    (fun _ _ hcopy => absurd hcopy (by simp)) fun _ hack => absurd hack (by simp)
  · rw [BlockNode.tasksOf, hreplicas, BlockNode.tasksOf]
  · rw [BlockNode.copiesOf, hcopies]
    exact herase
  · rw [letters_act_nil]
    exact h.letters hk
  · rw [← hlocal]
    exact hm

/-- The machine has the block now, and tells the one that asked. -/
theorem Busy.store (h : net.Busy blockReplica cluster id source task errand)
    (hreplica : 1 ≤ blockReplica) (hsound : net.Sound blockReplica net.Holds) (hn : cluster n)
    {k : Nat} {copy : CopyTask} (hget : (net.nodes n).copies[k]? = some copy)
    (hblock : copy.block = id) {data : Bytes} {node : BlockNode}
    (henters : { net.nodes n with copies := (net.nodes n).copies.eraseIdx k }.Enters blockReplica
      n id data node) :
    (net.act n node [(.machine copy.src, .blockACK copy.block)]).Busy blockReplica cluster id
      source task (.ack n) := by
  obtain ⟨rfl, rfl, -, herase⟩ := h.eq_copy hn hget hblock
  have hne : copy.src ≠ n := (h.asked rfl).1.symm
  have hmsg : (BlockMessage.blockACK copy.block).Concerns id = true := beq_iff_eq.mpr hblock
  refine h.act_candidate rfl (fun m => by simp) rfl ?_
    (fun m hm => (Option.some.inj hm).symm) ?_ (fun k hk => ?_) (fun _ => Or.inr rfl)
    (fun _ _ hcopy => absurd hcopy (by simp)) fun m hack k attr hlocal hm => ?_
  · rw [BlockNode.tasksOf, henters.replicas, BlockNode.tasksOf]
  · rw [BlockNode.copiesOf, henters.copies]
    exact herase
  · rw [letters_act_singleton _ hmsg, h.letters hk, hblock]
    change 0 + _ = if k = copy.src then _ else 0
    rw [Multiset.zero_add]
    by_cases heq : k = copy.src
    · rw [if_pos heq, if_pos ⟨heq.symm, heq ▸ hne⟩]
    · rw [if_neg heq, if_neg fun hreaches => heq hreaches.1.symm]
  · obtain rfl := Errand.ack.inj hack
    by_cases heq : k = n
    · subst heq
      rw [nodes_act_self, henters.localIDs, getElem?_insert_id, if_pos rfl] at hlocal
      rw [nodes_act_self, henters.attrs, ← Option.some.inj hlocal, Function.update_self,
        BlockNode.machine_attrOf hreplica]
      rfl
    · -- nobody can have heard of a copy that was not there
      rw [nodes_act_of_ne heq] at hlocal hm
      have hold := ((hsound.node k).entry (Or.inl hlocal)).2.2.may_of_mem hm
      have hcandidate := List.mem_of_head? (h.asked rfl).2.2
      exact absurd ((h.listed hold).resolve_right (by simp)) (h.fresh hcandidate)

end Candidate

end Steps

end BlockNet

end Doopey
