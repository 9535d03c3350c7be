import Mathlib.Data.Finset.Card
import Doopey.Block.SequentialReplication

/-!
# Blocks that have all their copies

As soon as one machine lists `blockReplica` machines, these are the machines that have the
block, and no call of `handleDoReplica` with such a list asks for another copy. Any number
of these calls may be under way then.
-/

namespace Doopey

open Foundation BlockLocationAttr

section Lists

variable {blockReplica : UInt64} {machines machines' : List MachineID}

theorem WellFormed.card_toFinset (h : WellFormed blockReplica machines) :
    machines.toFinset.card = machines.length :=
  List.toFinset_card_of_nodup (h.increasing.imp fun hlt => UInt32.ne_of_lt hlt)

/-- No list has more machines than one that is full. -/
theorem WellFormed.toFinset_eq (h : WellFormed blockReplica machines)
    (hfull : blockReplica.toNat ≤ machines.length) (h' : WellFormed blockReplica machines')
    (hsub : ∀ m ∈ machines, m ∈ machines') : machines.toFinset = machines'.toFinset := by
  apply Finset.eq_of_subset_of_card_le
  · intro m hm
    exact List.mem_toFinset.mpr (hsub m (List.mem_toFinset.mp hm))
  · rw [h.card_toFinset, h'.card_toFinset]
    exact h'.bounded.trans hfull

end Lists

namespace BlockNet

/-- The block has as many copies as it may have, and nobody asks for more. -/
structure Full (blockReplica : UInt64) (cluster : MachineID → Prop) (net : BlockNet)
    (id : BlockID) (holders : Finset MachineID) : Prop where
  number : holders.card = blockReplica.toNat
  holds {m : MachineID} : net.Holds id m ↔ m ∈ holders
  copies {n : MachineID} : cluster n → (net.nodes n).copiesOf id = []
  letters {n : MachineID} {sent : MachineID × BlockMessage} : cluster n →
    sent ∈ net.letters id n → ∃ machines, sent.2 = .updateReplica (locationData id machines) ∧
      machines.toFinset = holders
  tasks {n : MachineID} {task : ReplicaTask} : cluster n → task ∈ (net.nodes n).tasksOf id →
    task.candidate = [] ∧ (net.nodes n).localIDs[id]? = some task.attr ∧
      ((net.nodes n).attrs task.attr).machine.toFinset = holders
  complete {n : MachineID} {attr : Nat} : cluster n → net.letters id n = 0 →
    (∀ k, cluster k → (net.nodes k).tasksOf id = []) →
      (net.nodes n).localIDs[id]? = some attr →
        ((net.nodes n).attrs attr).machine.toFinset = holders

section Steps

variable {blockReplica : UInt64} {cluster : MachineID → Prop} {net net' : BlockNet} {id : BlockID}
  {n : MachineID} {holders : Finset MachineID}

/-! ## How a block becomes full -/

/-- Nothing is under way but news, and a machine has a full list. -/
theorem Idle.full (h : net.Idle cluster id) (hsound : net.Sound blockReplica net.Holds)
    (hn : cluster n) {attr : Nat} (hlocal : (net.nodes n).localIDs[id]? = some attr)
    (hfull : blockReplica.toNat ≤ ((net.nodes n).attrs attr).machine.length) :
    ∃ holders, net.Full blockReplica cluster id holders := by
  have hlisted := ((hsound.node n).entry (Or.inl hlocal)).2.2
  -- whatever list of all holders the machine has or is sent, it is no longer than its own
  obtain ⟨machines, hmachines, hall⟩ : ∃ machines, Listed blockReplica net.Holds id machines ∧
      ∀ m, net.Holds id m → m ∈ machines := by
    by_cases hnone : net.letters id n = 0
    · exact ⟨_, hlisted, h.complete hn hnone attr hlocal⟩
    · obtain ⟨sent, hsent⟩ := Multiset.exists_mem_of_ne_zero hnone
      obtain ⟨machines, heq, hall⟩ := h.letters hn hsent
      have hcarries := hsound.flight (Multiset.mem_of_mem_filter hsent)
      rw [heq] at hcarries
      exact ⟨machines, CarriesList.listed hcarries (readLocation_locationData id machines), hall⟩
  have hsame := hlisted.wellFormed.toFinset_eq hfull hmachines.wellFormed
    fun m hm => hall m (hlisted.may_of_mem hm)
  have hholds (m : MachineID) :
      net.Holds id m ↔ m ∈ ((net.nodes n).attrs attr).machine.toFinset := by
    constructor
    · intro hm
      rw [hsame]
      exact List.mem_toFinset.mpr (hall m hm)
    · exact fun hm => hlisted.may_of_mem (List.mem_toFinset.mp hm)
  -- a list of holders that has all of them
  have hlist {list : List MachineID} (hlisted' : Listed blockReplica net.Holds id list)
      (hall : ∀ m, net.Holds id m → m ∈ list) :
      list.toFinset = ((net.nodes n).attrs attr).machine.toFinset := by
    ext m
    rw [List.mem_toFinset, ← hholds]
    exact ⟨fun hm => hlisted'.may_of_mem hm, hall m⟩
  refine ⟨((net.nodes n).attrs attr).machine.toFinset, ?_, fun {m} => hholds m,
    fun hk => h.copies hk, fun {k sent} hk hsent => ?_, fun {k task} hk htask => ?_,
    fun {k attr'} hk hnone _ hlocal' => ?_⟩
  · rw [hlisted.wellFormed.card_toFinset]
    exact Nat.le_antisymm hlisted.wellFormed.bounded hfull
  · obtain ⟨list, heq, hall⟩ := h.letters hk hsent
    have hcarries := hsound.flight (Multiset.mem_of_mem_filter hsent)
    rw [heq] at hcarries
    exact ⟨list, heq, hlist (CarriesList.listed hcarries (readLocation_locationData id list)) hall⟩
  · rw [h.tasks hk] at htask
    exact absurd htask List.not_mem_nil
  · exact hlist ((hsound.node k).entry (Or.inl hlocal')).2.2 (h.complete hk hnone attr' hlocal')

/-- A call is under way, and a machine has a full list. Then the call has no candidate left. -/
theorem Busy.full {source : MachineID} {task : ReplicaTask} {errand : Errand}
    (h : net.Busy blockReplica cluster id source task errand)
    (hsound : net.Sound blockReplica net.Holds) {attr : Nat}
    (hlocal : (net.nodes n).localIDs[id]? = some attr)
    (hfull : blockReplica.toNat ≤ ((net.nodes n).attrs attr).machine.length) :
    ∃ holders, net.Full blockReplica cluster id holders := by
  have hlisted := ((hsound.node n).entry (Or.inl hlocal)).2.2
  have hsource := ((hsound.node source).entry (Or.inl h.entry)).2.2
  have hroom := h.room
  have hpositive := List.length_pos_iff.mpr hsource.wellFormed.nonempty
  -- the list of the machine is that of the call, which is full then
  have hsub : ∀ m ∈ ((net.nodes n).attrs attr).machine,
      m ∈ ((net.nodes source).attrs task.attr).machine := by
    intro m hm
    rcases h.listed (hlisted.may_of_mem hm) with hold | hack
    · exact hold
    · have hsingle := h.unheard hack hlocal hm
      have hcandidate := List.mem_of_head? (h.asked (by rw [hack]; rfl)).2.2
      have hone := List.length_pos_of_mem hcandidate
      omega
  have hsame := hlisted.wellFormed.toFinset_eq hfull hsource.wellFormed hsub
  have hlength : ((net.nodes source).attrs task.attr).machine.length = blockReplica.toNat := by
    apply Nat.le_antisymm hsource.wellFormed.bounded
    rw [← hsource.wellFormed.card_toFinset, ← hsame, hlisted.wellFormed.card_toFinset]
    exact hfull
  have hcandidate : task.candidate = [] := List.eq_nil_of_length_eq_zero (by omega)
  obtain rfl := h.errand_eq fun m hm => by simp [hcandidate] at hm
  have hholds (m : MachineID) :
      net.Holds id m ↔ m ∈ ((net.nodes source).attrs task.attr).machine.toFinset := by
    rw [List.mem_toFinset]
    exact ⟨fun hm => (h.listed hm).resolve_right (by simp), fun hm => hsource.may_of_mem hm⟩
  refine ⟨((net.nodes source).attrs task.attr).machine.toFinset, ?_, fun {m} => hholds m,
    fun hk => h.copies hk, fun {k sent} hk hsent => ?_, fun {k task'} hk htask => ?_,
    fun {k attr'} _ _ hnone _ => ?_⟩
  · rw [hsource.wellFormed.card_toFinset]
    exact hlength
  · rw [h.letters hk] at hsent
    exact absurd hsent (Multiset.notMem_zero _)
  · rw [h.tasks hk] at htask
    split at htask
    next heq =>
      subst heq
      rw [List.mem_singleton.mp htask]
      exact ⟨hcandidate, h.entry, rfl⟩
    next => exact absurd htask List.not_mem_nil
  · have htasks := h.tasks h.inside
    rw [hnone source h.inside, if_pos rfl] at htasks
    exact absurd htasks (by simp)

/-! ## What happens to a full block -/

theorem Full.calm (h : net.Full blockReplica cluster id holders) (hcalm : Calm id net net') :
    net'.Full blockReplica cluster id holders where
  number := h.number
  holds := (hcalm.holds_iff _).trans h.holds
  copies hn := (hcalm.nodes _).copies.trans (h.copies hn)
  letters hn hsent := by
    rw [hcalm.letters] at hsent
    exact h.letters hn hsent
  tasks {n task} hn htask := by
    rw [(hcalm.nodes n).tasks] at htask
    obtain ⟨hcandidate, hlocal, hmachine⟩ := h.tasks hn htask
    rw [(hcalm.nodes n).localIDs, (hcalm.nodes n).machine hlocal]
    exact ⟨hcandidate, hlocal, hmachine⟩
  complete {n attr} hn hnone htasks hlocal := by
    rw [(hcalm.nodes n).localIDs] at hlocal
    rw [(hcalm.nodes n).machine hlocal]
    apply h.complete hn ((hcalm.letters n).symm.trans hnone) (fun k hk => ?_) hlocal
    exact (hcalm.nodes k).tasks.symm.trans (htasks k hk)

/-- News arrive at a machine, or get lost where they are no news. -/
theorem Full.update (h : net.Full blockReplica cluster id holders) (hn : cluster n)
    {node : BlockNode} {sent : MachineID × BlockMessage}
    {rest : Multiset (MachineID × BlockMessage)} (hflight : net.inFlight n = sent ::ₘ rest)
    (hlocal : node.localIDs[id]? = (net.nodes n).localIDs[id]?)
    (htasks : node.tasksOf id = (net.nodes n).tasksOf id)
    (hcopies : node.copiesOf id = (net.nodes n).copiesOf id)
    (hmachine : ∀ attr, (net.nodes n).localIDs[id]? = some attr →
      (node.attrs attr).machine.toFinset = holders) :
    ((net.without n rest).act n node []).Full blockReplica cluster id holders := by
  obtain ⟨hothers, hsub⟩ := @letters_handled net id n _ _ hflight node
  have hholds (m : MachineID) : ((net.without n rest).act n node []).Holds id m ↔
      net.Holds id m := @holds_act_iff (net.without n rest) id n node [] hlocal m
  have hsame := @tasksOf_act (net.without n rest) _ _ _ [] htasks
  refine ⟨h.number, fun {m} => (hholds m).trans h.holds,
    fun {k} hk => (@copiesOf_act (net.without n rest) _ _ _ [] hcopies k).trans (h.copies hk),
    fun {k sent'} hk hmem => h.letters hk (hsub k sent' hmem), fun {k task} hk htask => ?_,
    fun {k attr} hk hnone htasks' hattr => ?_⟩
  · rw [hsame] at htask
    obtain ⟨hcandidate, hentry, hlist⟩ := h.tasks hk htask
    by_cases heq : k = n
    · subst heq
      rw [nodes_act_self]
      exact ⟨hcandidate, hlocal.trans hentry, hmachine task.attr hentry⟩
    · rw [nodes_act_of_ne heq]
      exact ⟨hcandidate, hentry, hlist⟩
  · by_cases heq : k = n
    · rw [heq, nodes_act_self] at hattr ⊢
      exact hmachine attr (hlocal.symm.trans hattr)
    · rw [hothers k heq] at hnone
      rw [nodes_act_of_ne heq] at hattr ⊢
      apply h.complete hk hnone (fun k' hk' => ?_) hattr
      exact (hsame k').symm.trans (htasks' k' hk')

/-- A call begins that has nobody to ask. -/
theorem Full.start (h : net.Full blockReplica cluster id holders)
    (hsound : net.Sound blockReplica net.Holds) (hreplica : 1 ≤ blockReplica) (hn : cluster n)
    {attr : Nat} (hlocal : (net.nodes n).localIDs[id]? = some attr)
    (hguard : net.Settled cluster id ∨
      blockReplica.toNat ≤ ((net.nodes n).attrs attr).machine.length)
    {pick : List MachineID → UInt64 → List MachineID} (hpick : Picks blockReplica n pick)
    {node : BlockNode} (hrun : (net.nodes n).handleDoReplica blockReplica pick
      (locationData id ((net.nodes n).attrs attr).machine) = .ok node) :
    (net.act n node []).Full blockReplica cluster id holders := by
  have hlisted := ((hsound.node n).entry (Or.inl hlocal)).2.2
  -- the list of the request is the one of all holders
  have hmachine : ((net.nodes n).attrs attr).machine.toFinset = holders := by
    rcases hguard with hsettled | hfull
    · exact h.complete hn (hsettled n hn).2.2 (fun k hk => (hsettled k hk).1) hlocal
    · apply Finset.eq_of_subset_of_card_le
      · intro m hm
        exact h.holds.mp (hlisted.may_of_mem (List.mem_toFinset.mp hm))
      · rw [h.number, hlisted.wellFormed.card_toFinset]
        exact hfull
  rcases BlockNode.starts_of_handleDoReplica hreplica (hsound.node n) hlocal hpick hrun with
    rfl | ⟨candidate, hstarts⟩
  · rw [act_nothing]
    exact h
  · have hsame : (node.attrs attr).machine.toFinset = holders := by
      rw [← hmachine]
      ext m
      rw [List.mem_toFinset, List.mem_toFinset, hstarts.machine]
    -- a full list leaves no room for candidates
    have hcandidate : candidate = [] := by
      have hroom := hstarts.room
      rw [← hstarts.wellFormed.card_toFinset, hsame, h.number] at hroom
      apply List.eq_nil_of_length_eq_zero
      omega
    have htasks : node.tasksOf id = ⟨id, attr, candidate, false⟩ :: (net.nodes n).tasksOf id := by
      rw [BlockNode.tasksOf, hstarts.replicas, List.filter_cons_of_pos (by simp),
        ← BlockNode.tasksOf]
    have hcopies : node.copiesOf id = (net.nodes n).copiesOf id := by
      rw [BlockNode.copiesOf, hstarts.copies, ← BlockNode.copiesOf]
    have hentries : node.localIDs[id]? = (net.nodes n).localIDs[id]? := by rw [hstarts.localIDs]
    refine ⟨h.number, fun {m} => (holds_act_iff [] hentries m).trans h.holds,
      fun {k} hk => (copiesOf_act [] hcopies k).trans (h.copies hk),
      fun {k sent} hk hsent => h.letters hk (letters_act_nil node k ▸ hsent),
      fun {k task} hk htask => ?_, fun {k attr'} _ _ htasks' _ => ?_⟩
    · by_cases heq : k = n
      · subst heq
        rw [nodes_act_self] at htask ⊢
        rw [htasks] at htask
        rcases List.mem_cons.mp htask with rfl | hold
        · exact ⟨hcandidate, hentries.trans hlocal, hsame⟩
        · -- an older call works on the same entry
          obtain ⟨hcandidate', hentry, -⟩ := h.tasks hk hold
          refine ⟨hcandidate', hentries.trans hentry, ?_⟩
          rw [← Option.some.inj (hlocal.symm.trans hentry)]
          exact hsame
      · rw [nodes_act_of_ne heq] at htask ⊢
        exact h.tasks hk htask
    · have hnone := htasks' n hn
      rw [nodes_act_self, htasks] at hnone
      exact absurd hnone (by simp)

/-- The call ends, and all others hear what they know already. -/
theorem Full.finish (h : net.Full blockReplica cluster id holders)
    (hsound : net.Sound blockReplica net.Holds) (hn : cluster n) {k : Nat} {task : ReplicaTask}
    (hget : (net.nodes n).replicas[k]? = some task) (hblock : task.block = id) :
    (net.act n ((net.nodes n).finishReplica k task).1
      ((net.nodes n).finishReplica k task).2).Full blockReplica cluster id holders := by
  obtain ⟨-, hentry, hlist⟩ := h.tasks hn (BlockNode.mem_tasksOf hget hblock)
  have hattr : ((net.nodes n).attrs task.attr).block = id :=
    ((hsound.node n).entry (Or.inl hentry)).2.1
  refine ⟨h.number, fun {m} => (holds_act_iff _ (by rfl) m).trans h.holds,
    fun {k'} hk => (copiesOf_act _ (by rfl) k').trans (h.copies hk),
    fun {k' sent} hk hsent => ?_, fun {k' task'} hk htask => ?_,
    fun {k' attr'} _ hnone _ hlocal => ?_⟩
  · rw [letters_finishReplica hattr, Multiset.mem_add] at hsent
    rcases hsent with hold | hnew
    · exact h.letters hk hold
    · split at hnew
      next =>
        rw [Multiset.mem_singleton.mp hnew]
        exact ⟨_, rfl, hlist⟩
      next => exact absurd hnew (Multiset.notMem_zero _)
  · by_cases heq : k' = n
    · subst heq
      rw [nodes_act_self] at htask ⊢
      have hmem := List.mem_filter.mp htask
      exact h.tasks hk (List.mem_filter.mpr ⟨List.mem_of_mem_eraseIdx hmem.1, hmem.2⟩)
    · rw [nodes_act_of_ne heq] at htask ⊢
      exact h.tasks hk htask
  · by_cases heq : k' = n
    · subst heq
      rw [nodes_act_self] at hlocal ⊢
      rw [← Option.some.inj (hentry.symm.trans hlocal)]
      exact hlist
    · rw [letters_finishReplica hattr, if_pos heq, Multiset.add_comm, Multiset.singleton_add] at hnone
      exact absurd hnone Multiset.cons_ne_zero

end Steps

end BlockNet

end Doopey
