import Doopey.Block.ComputedRuns
import Doopey.Block.FullLists

/-!
# Runs in which copies are made one call at a time

Every step leaves a block with news only, with one call of `handleDoReplica`, or with all
the copies that there may be; what is known of it is complete as soon as nothing is under
way.
-/

namespace Doopey

open Foundation BlockLocationAttr

namespace BlockNet

/-- Nothing but news, or one call, is under way for the block, or it is full. -/
def Single (blockReplica : UInt64) (cluster : MachineID → Prop) (net : BlockNet) (id : BlockID) :
    Prop :=
  net.Idle cluster id ∨
    (∃ source task errand, net.Busy blockReplica cluster id source task errand) ∨
      ∃ holders, net.Full blockReplica cluster id holders

section Steps

variable {blockReplica : UInt64} {cluster : MachineID → Prop} {net net' : BlockNet} {id : BlockID}
  {n : MachineID}

theorem Single.calm (h : net.Single blockReplica cluster id) (hcalm : Calm id net net') :
    net'.Single blockReplica cluster id := by
  rcases h with hidle | ⟨source, task, errand, hbusy⟩ | ⟨holders, hfull⟩
  · exact Or.inl (hidle.calm hcalm)
  · exact Or.inr (Or.inl ⟨source, task, errand, hbusy.calm hcalm⟩)
  · exact Or.inr (Or.inr ⟨holders, hfull.calm hcalm⟩)

/-- A call is under way where there are candidates left. -/
theorem Single.busy_of_task (h : net.Single blockReplica cluster id) (hn : cluster n) {k : Nat}
    {task : ReplicaTask} (hget : (net.nodes n).replicas[k]? = some task)
    (hblock : task.block = id) (hcandidate : task.candidate ≠ []) :
    ∃ source task errand, net.Busy blockReplica cluster id source task errand := by
  have hmem := BlockNode.mem_tasksOf hget hblock
  rcases h with hidle | hbusy | ⟨holders, hfull⟩
  · rw [hidle.tasks hn] at hmem
    exact absurd hmem List.not_mem_nil
  · exact hbusy
  · exact absurd (hfull.tasks hn hmem).1 hcandidate

theorem Single.busy_of_copy (h : net.Single blockReplica cluster id) (hn : cluster n) {k : Nat}
    {copy : CopyTask} (hget : (net.nodes n).copies[k]? = some copy) (hblock : copy.block = id) :
    ∃ source task errand, net.Busy blockReplica cluster id source task errand := by
  have hmem := BlockNode.mem_copiesOf hget hblock
  rcases h with hidle | hbusy | ⟨holders, hfull⟩
  · rw [hidle.copies hn] at hmem
    exact absurd hmem List.not_mem_nil
  · exact hbusy
  · rw [hfull.copies hn] at hmem
    exact absurd hmem List.not_mem_nil

theorem mem_letters {src : MachineID} {msg : BlockMessage}
    {rest : Multiset (MachineID × BlockMessage)} (hflight : net.inFlight n = (src, msg) ::ₘ rest)
    (hmsg : msg.Concerns id = true) : (src, msg) ∈ net.letters id n := by
  rw [letters, hflight]
  exact Multiset.mem_filter.mpr ⟨Multiset.mem_cons_self _ _, hmsg⟩

theorem Single.busy_of_request (h : net.Single blockReplica cluster id) (hn : cluster n)
    {src : MachineID} {rest : Multiset (MachineID × BlockMessage)}
    (hflight : net.inFlight n = (src, .copyBlockFromRemote id) ::ₘ rest) :
    ∃ source task errand, net.Busy blockReplica cluster id source task errand := by
  have hmem := mem_letters hflight (beq_self_eq_true id)
  rcases h with hidle | hbusy | ⟨holders, hfull⟩
  · obtain ⟨machines, heq, -⟩ := hidle.letters hn hmem
    exact absurd heq (by simp)
  · exact hbusy
  · obtain ⟨machines, heq, -⟩ := hfull.letters hn hmem
    exact absurd heq (by simp)

/-- While a call is under way, nobody is told who has the block. -/
theorem Busy.not_update {source : MachineID} {task : ReplicaTask} {errand : Errand}
    (h : net.Busy blockReplica cluster id source task errand) (hn : cluster n) {src : MachineID}
    {data : Bytes} : (src, BlockMessage.updateReplica data) ∉ net.letters id n := by
  intro hmem
  rw [h.letters hn] at hmem
  rcases (Errand.eq_of_mem_letters hmem).2 with ⟨-, hsent⟩ | ⟨-, m, -, hsent⟩
  · exact absurd (Prod.mk.inj hsent).2 (by simp)
  · exact absurd (Prod.mk.inj hsent).2 (by simp)

/-- A machine has taken over a list that it was sent, or had it already. -/
theorem Single.update (h : net.Single blockReplica cluster id) (hn : cluster n) {src : MachineID}
    {machines : List MachineID} {rest : Multiset (MachineID × BlockMessage)}
    (hflight : net.inFlight n = (src, .updateReplica (locationData id machines)) ::ₘ rest)
    {node : BlockNode} (hlocal : node.localIDs = (net.nodes n).localIDs)
    (hreplicas : node.replicas = (net.nodes n).replicas)
    (hcopies : node.copies = (net.nodes n).copies)
    (hmachine : ∀ attr, (net.nodes n).localIDs[id]? = some attr →
      (node.attrs attr).machine = machines) :
    ((net.without n rest).act n node []).Single blockReplica cluster id := by
  have hmsg : (BlockMessage.updateReplica (locationData id machines)).Concerns id = true := by
    rw [BlockMessage.concerns_updateReplica]
    exact beq_self_eq_true id
  have hmem := mem_letters hflight hmsg
  have htasks : node.tasksOf id = (net.nodes n).tasksOf id := by
    rw [BlockNode.tasksOf, hreplicas, BlockNode.tasksOf]
  have hcopies : node.copiesOf id = (net.nodes n).copiesOf id := by
    rw [BlockNode.copiesOf, hcopies, BlockNode.copiesOf]
  have hlocal : node.localIDs[id]? = (net.nodes n).localIDs[id]? := by rw [hlocal]
  rcases h with hidle | ⟨source, task, errand, hbusy⟩ | ⟨holders, hfull⟩
  · obtain ⟨machines', heq, hlisted⟩ := hidle.letters hn hmem
    obtain ⟨-, rfl⟩ := locationData_inj (BlockMessage.updateReplica.inj heq)
    apply Or.inl
    apply hidle.update hflight hlocal htasks hcopies
    intro attr hattr m hm
    rw [hmachine attr hattr]
    exact hlisted m hm
  · exact absurd hmem (hbusy.not_update hn)
  · obtain ⟨machines', heq, hlisted⟩ := hfull.letters hn hmem
    obtain ⟨-, rfl⟩ := locationData_inj (BlockMessage.updateReplica.inj heq)
    apply Or.inr
    apply Or.inr
    refine ⟨holders, hfull.update hn hflight hlocal htasks hcopies fun attr hattr => ?_⟩
    rw [hmachine attr hattr]
    exact hlisted

theorem Truthful.sound_holds (h : net.Truthful blockReplica) :
    net.Sound blockReplica net.Holds := h.sound.mono fun _ _ => h.local_of_stores

/-- Nobody is listed for a block that was never saved. -/
theorem first_ne_none_of_listed {machines : List MachineID}
    (hlisted : Listed blockReplica net.Stores id machines) : net.first id ≠ none := by
  obtain ⟨m, hm⟩ := List.exists_mem_of_ne_nil _ hlisted.wellFormed.nonempty
  obtain ⟨data, hdata, -⟩ := hlisted.may_of_mem hm
  simp [hdata]

/-- Nothing is known of a block that was never saved. -/
theorem Truthful.not_refers (h : net.Truthful blockReplica) (hfirst : net.first id = none)
    (n : MachineID) (attr : Nat) : ¬ (net.nodes n).Refers id attr := by
  intro hrefers
  exact first_ne_none_of_listed ((h.sound.node n).entry hrefers).2.2 hfirst

theorem Truthful.no_updates (h : net.Truthful blockReplica) (hfirst : net.first id = none)
    {sent : MachineID × BlockMessage} (hmem : sent ∈ net.inFlight n) (machines : List MachineID) :
    sent.2 ≠ .updateReplica (locationData id machines) := by
  intro heq
  have hcarries := h.sound.flight hmem
  rw [heq] at hcarries
  exact first_ne_none_of_listed
    (CarriesList.listed hcarries (readLocation_locationData id machines)) hfirst

/-- The block is saved for the first time. -/
theorem Single.save (h : net.Single blockReplica cluster id) (htruthful : net.Truthful blockReplica)
    (hreplica : 1 ≤ blockReplica) (hfirst : net.first id = none) {data : Bytes} {node : BlockNode}
    (henters : (net.nodes n).Enters blockReplica n id data node) :
    (net.act n node []).Idle cluster id := by
  have hnew := htruthful.not_refers hfirst
  obtain hidle : net.Idle cluster id := by
    rcases h with hidle | ⟨source, task, errand, hbusy⟩ | ⟨holders, hfull⟩
    · exact hidle
    · exact absurd (Or.inl hbusy.entry) (hnew source task.attr)
    · have hpositive : 0 < holders.card := by
        rw [hfull.number]
        exact UInt64.le_iff_toNat_le.mp hreplica
      obtain ⟨m, hm⟩ := Finset.card_pos.mp hpositive
      obtain ⟨attr, hattr⟩ := Option.ne_none_iff_exists'.mp (hfull.holds.mpr hm)
      exact absurd (Or.inl hattr) (hnew m attr)
  have hletters {k : MachineID} (hk : cluster k) : net.letters id k = 0 := by
    apply Multiset.eq_zero_of_forall_notMem
    intro sent hmem
    obtain ⟨machines, heq, -⟩ := hidle.letters hk hmem
    exact htruthful.no_updates hfirst (Multiset.mem_of_mem_filter hmem) machines heq
  have hletters' {k : MachineID} (hk : cluster k) : (net.act n node []).letters id k = 0 := by
    rw [letters_act_nil]
    exact hletters hk
  have hholds {m : MachineID} (hm : (net.act n node []).Holds id m) : m = n := by
    by_contra hne
    unfold Holds at hm
    rw [nodes_act_of_ne hne] at hm
    obtain ⟨attr, hattr⟩ := Option.ne_none_iff_exists'.mp hm
    exact hnew m attr (Or.inl hattr)
  refine ⟨fun {k} hk => ?_, fun {k} hk => ?_, fun {k sent} hk hmem => ?_, fun {k} hk _ => ?_⟩
  · by_cases heq : k = n
    · subst heq
      rw [nodes_act_self, BlockNode.tasksOf, henters.replicas]
      exact hidle.tasks hk
    · rw [nodes_act_of_ne heq]
      exact hidle.tasks hk
  · by_cases heq : k = n
    · subst heq
      rw [nodes_act_self, BlockNode.copiesOf, henters.copies]
      exact hidle.copies hk
    · rw [nodes_act_of_ne heq]
      exact hidle.copies hk
  · rw [hletters' hk] at hmem
    exact absurd hmem (Multiset.notMem_zero _)
  · intro attr hlocal m hm
    obtain rfl := hholds hm
    have hk : k = m := hholds (by unfold Holds; rw [hlocal]; simp)
    subst hk
    rw [nodes_act_self, henters.localIDs, getElem?_insert_id, if_pos rfl] at hlocal
    rw [nodes_act_self, henters.attrs, ← Option.some.inj hlocal, Function.update_self]
    rw [BlockNode.machine_attrOf hreplica]
    exact List.mem_singleton_self k

/-- A request for copies is handled. -/
theorem Single.handleDoReplica (h : net.Single blockReplica cluster id)
    (htruthful : net.Truthful blockReplica) (hreplica : 1 ≤ blockReplica) (hn : cluster n)
    {attr : Nat} (hlocal : (net.nodes n).localIDs[id]? = some attr)
    (hguard : net.Settled cluster id ∨
      blockReplica.toNat ≤ ((net.nodes n).attrs attr).machine.length)
    {pick : List MachineID → UInt64 → List MachineID} (hpick : Picks blockReplica n pick)
    {node : BlockNode} (hrun : (net.nodes n).handleDoReplica blockReplica pick
      (locationData id ((net.nodes n).attrs attr).machine) = .ok node) :
    (net.act n node []).Single blockReplica cluster id := by
  have hsound := htruthful.sound_holds
  -- a full list is the one of all holders, whatever else is under way
  have hstart : (∃ holders, net.Full blockReplica cluster id holders) →
      (net.act n node []).Single blockReplica cluster id := by
    rintro ⟨holders, hfull⟩
    exact Or.inr (Or.inr ⟨holders, hfull.start hsound hreplica hn hlocal hguard hpick hrun⟩)
  rcases h with hidle | ⟨source, task, errand, hbusy⟩ | hfull
  · rcases hguard with hsettled | hlength
    · rcases hidle.start hsettled hreplica htruthful.sound hn hlocal hpick hrun with
        hidle | ⟨task, errand, hbusy⟩
      · exact Or.inl hidle
      · exact Or.inr (Or.inl ⟨n, task, errand, hbusy⟩)
    · exact hstart (hidle.full hsound hn hlocal hlength)
  · rcases hguard with hsettled | hlength
    · exact absurd hsettled hbusy.not_settled
    · exact hstart (hbusy.full hsound hlocal hlength)
  · exact hstart hfull

/-- What `handleUpdateReplica` leaves, and what it makes of the list of a block that the
machine has. -/
theorem handleUpdateReplica_spec {may : BlockID → MachineID → Prop} {node node' : BlockNode}
    (hsound : node.Sound blockReplica may) {machines : List MachineID}
    (hrun : node.handleUpdateReplica (locationData id machines) = .ok node') :
    node'.localIDs = node.localIDs ∧ node'.replicas = node.replicas ∧
      node'.copies = node.copies ∧ ∀ attr, node.localIDs[id]? = some attr →
        (node'.attrs attr).machine = machines := by
  rw [BlockNode.handleUpdateReplica, readLocation_locationData, ok_bind] at hrun
  rw [← Except.ok.inj hrun]
  cases hlocal : node.localIDs[id]? with
  | none =>
      cases node.remoteIDs[id]? with
      | none => exact ⟨rfl, rfl, rfl, fun _ hattr => absurd hattr (by simp)⟩
      | some attr' => exact ⟨rfl, rfl, rfl, fun _ hattr => absurd hattr (by simp)⟩
  | some attr =>
      cases hremote : node.remoteIDs[id]? with
      | none =>
          refine ⟨rfl, rfl, rfl, fun attr' hattr => ?_⟩
          obtain rfl := Option.some.inj hattr
          unfold BlockNode.modify
          dsimp only
          rw [Function.update_self]
      | some other =>
          refine ⟨rfl, rfl, rfl, fun attr' hattr => ?_⟩
          obtain rfl := Option.some.inj hattr
          have hne : attr ≠ other := by
            rintro rfl
            exact hsound.apart hlocal hremote
          unfold BlockNode.modify
          dsimp only
          rw [Function.update_of_ne hne, Function.update_self]

/-- A message about copies of the block arrives. -/
theorem Single.deliver (h : net.Single blockReplica cluster id)
    (htruthful : net.Truthful blockReplica) (hreplica : 1 ≤ blockReplica) {src : MachineID}
    {msg : BlockMessage} (hn : cluster n)
    (hsequential : Sequential blockReplica cluster id net (.deliver n src msg))
    (hregards : net.Regards id (.deliver n src msg))
    {rest : Multiset (MachineID × BlockMessage)} (hflight : net.inFlight n = (src, msg) ::ₘ rest)
    {room : Nat} {pick : List MachineID → UInt64 → List MachineID} (hpick : Picks blockReplica n pick)
    {node : BlockNode} {sends : List (Target × BlockMessage)}
    (hrun : (net.nodes n).request blockReplica room pick src msg = .ok (node, sends)) :
    ((net.without n rest).act n node sends).Single blockReplica cluster id := by
  have hmem : (src, msg) ∈ net.inFlight n := by
    rw [hflight]
    exact Multiset.mem_cons_self _ _
  cases msg with
  | doReplica data =>
      obtain ⟨machines, rfl⟩ := hregards
      obtain ⟨hrecords, hguard⟩ := hsequential machines rfl
      obtain ⟨after, hafter, hrun⟩ := bind_eq_ok_iff.mp hrun
      obtain ⟨rfl, rfl⟩ := Prod.mk.inj (Except.ok.inj hrun)
      -- the machine is on the list of the request, so it has the block
      obtain ⟨id', machines', heq, hn'⟩ := htruthful.flight hmem
      obtain ⟨rfl, rfl⟩ := locationData_inj heq
      have hlisted := CarriesList.listed (htruthful.sound.flight hmem)
        (readLocation_locationData id machines)
      have hstores := htruthful.local_of_stores (hlisted.may_of_mem hn')
      obtain ⟨attr, hlocal⟩ := Option.ne_none_iff_exists'.mp hstores
      rw [← hrecords attr hlocal] at hafter hguard
      have hcalm : Calm id net (net.without n rest) := Calm.without hflight rfl
      apply (h.calm hcalm).handleDoReplica (htruthful.without hflight) hreplica hn hlocal _ hpick
        hafter
      refine hguard.imp_left fun hsettled k hk => ?_
      obtain ⟨htasks, hcopies, hletters⟩ := hsettled k hk
      exact ⟨htasks, hcopies, (hcalm.letters k).trans hletters⟩
  | updateReplica data =>
      obtain ⟨id', machines, rfl, -⟩ := htruthful.sound.flight hmem
      have heq := (BlockMessage.concerns_updateReplica id id' machines).symm.trans hregards
      obtain rfl := beq_iff_eq.mp heq
      obtain ⟨after, hafter, hrun⟩ := bind_eq_ok_iff.mp hrun
      obtain ⟨rfl, rfl⟩ := Prod.mk.inj (Except.ok.inj hrun)
      obtain ⟨hlocal, hreplicas, hcopies, hmachine⟩ :=
        handleUpdateReplica_spec (htruthful.sound.node n) hafter
      exact h.update hn hflight hlocal hreplicas hcopies hmachine
  | copyBlockFromRemote id' =>
      obtain rfl := beq_iff_eq.mp hregards
      obtain ⟨rfl, rfl⟩ := Prod.mk.inj (Except.ok.inj hrun)
      obtain ⟨source, task, errand, hbusy⟩ := h.busy_of_request hn hflight
      obtain ⟨errand, hbusy⟩ := hbusy.handleCopyBlockFromRemote hn hflight
      exact Or.inr (Or.inl ⟨source, task, errand, hbusy⟩)
  | blockACK id' => exact absurd (beq_iff_eq.mp hregards) hsequential
  | _ => exact absurd hregards (by simp [Regards, BlockMessage.Concerns])

/-- A message about copies of the block gets lost. -/
theorem Single.drop (h : net.Single blockReplica cluster id) (htruthful : net.Truthful blockReplica)
    {src : MachineID} {msg : BlockMessage} (hn : cluster n)
    (hsequential : Sequential blockReplica cluster id net (.drop n src msg)) (hregards : msg.Concerns id = true)
    {rest : Multiset (MachineID × BlockMessage)} (hflight : net.inFlight n = (src, msg) ::ₘ rest) :
    (net.without n rest).Single blockReplica cluster id := by
  have hmem : (src, msg) ∈ net.inFlight n := by
    rw [hflight]
    exact Multiset.mem_cons_self _ _
  cases msg with
  | updateReplica data =>
      obtain ⟨id', machines, rfl, -⟩ := htruthful.sound.flight hmem
      have heq := (BlockMessage.concerns_updateReplica id id' machines).symm.trans hregards
      obtain rfl := beq_iff_eq.mp heq
      rw [← act_nothing (net.without n rest) n]
      exact h.update hn hflight rfl rfl rfl (hsequential machines rfl)
  | copyBlockFromRemote id' =>
      obtain rfl := beq_iff_eq.mp hregards
      obtain ⟨source, task, errand, hbusy⟩ := h.busy_of_request hn hflight
      exact Or.inr (Or.inl ⟨source, task, .nothing, hbusy.dropRequest hn hflight⟩)
  | blockACK id' => exact absurd (beq_iff_eq.mp hregards) hsequential
  | _ => exact absurd hregards (by simp [BlockMessage.Concerns])

/-- A call ends. -/
theorem Single.finish (h : net.Single blockReplica cluster id) (htruthful : net.Truthful blockReplica)
    (hn : cluster n) {k : Nat} {task : ReplicaTask} (hget : (net.nodes n).replicas[k]? = some task)
    (hblock : task.block = id) (hcandidate : task.candidate = []) :
    (net.act n ((net.nodes n).finishReplica k task).1
      ((net.nodes n).finishReplica k task).2).Single blockReplica cluster id := by
  rcases h with hidle | ⟨source, task', errand, hbusy⟩ | ⟨holders, hfull⟩
  · have hmem := BlockNode.mem_tasksOf hget hblock
    rw [hidle.tasks hn] at hmem
    exact absurd hmem List.not_mem_nil
  · exact Or.inl (hbusy.finish htruthful.sound hn hget hblock hcandidate)
  · exact Or.inr (Or.inr ⟨holders, hfull.finish htruthful.sound_holds hn hget hblock⟩)

/-- The handling of a saved copy, whether or not its file could be opened. -/
theorem Busy.stored {source : MachineID} {task : ReplicaTask} {errand : Errand}
    (h : net.Busy blockReplica cluster id source task errand)
    (htruthful : net.Truthful blockReplica) (hreplica : 1 ≤ blockReplica) (hn : cluster n)
    {k : Nat} {copy : CopyTask} (hget : (net.nodes n).copies[k]? = some copy)
    (hblock : copy.block = id) {data : Bytes} (hdata : copy.data = some data) {opens : Bool}
    {newID : BlockID} {node : BlockNode}
    (hsave : { net.nodes n with copies := (net.nodes n).copies.eraseIdx k }.saveBlock blockReplica n
      opens data copy.block = (newID, node)) :
    ∃ errand, (net.act n node (if newID = 0 then []
      else [(.machine copy.src, .blockACK copy.block)])).Busy blockReplica cluster id source task
        errand := by
  have hzero : copy.block ≠ 0 := htruthful.block_ne_zero hget hdata
  cases opens with
  | false =>
      rw [BlockNode.saveBlock, if_neg hzero] at hsave
      obtain ⟨rfl, rfl⟩ := Prod.mk.inj hsave
      rw [if_pos rfl]
      exact ⟨.nothing, h.giveUp hn hget hblock rfl rfl rfl⟩
  | true =>
      have hid : newID = copy.block := by
        rw [BlockNode.saveBlock, if_neg hzero] at hsave
        exact (Prod.mk.inj hsave).1.symm
      have henters := BlockNode.enters_saveBlock hsave
      rw [hid, hblock] at henters
      rw [hid, if_neg hzero]
      exact ⟨.ack n, h.store hreplica htruthful.sound_holds hn hget hblock henters⟩

/-- With nothing under way, every list is that of all holders. -/
theorem Single.mem_iff (h : net.Single blockReplica cluster id)
    (hsound : net.Sound blockReplica net.Holds) (hsettled : net.Settled cluster id)
    (hn : cluster n) {attr : Nat} (hlocal : (net.nodes n).localIDs[id]? = some attr)
    (m : MachineID) : m ∈ ((net.nodes n).attrs attr).machine ↔ net.Holds id m := by
  rcases h with hidle | ⟨source, task, errand, hbusy⟩ | ⟨holders, hfull⟩
  · have hentry := (hsound.node n).entry (Or.inl hlocal)
    exact ⟨fun hm => hentry.2.2.may_of_mem hm, hidle.complete hn (hsettled n hn).2.2 attr hlocal m⟩
  · exact absurd hsettled hbusy.not_settled
  · rw [hfull.holds, ← List.mem_toFinset, hfull.complete hn (hsettled n hn).2.2
      (fun k hk => (hsettled k hk).1) hlocal]

/-- The event keeps the blocks and is one of the cluster, and no two calls for the block
come into each other's way. -/
def Alternates (blockReplica : UInt64) (cluster : MachineID → Prop) (id : BlockID) (net : BlockNet)
    (event : BlockEvent) : Prop :=
  net.Lasting event ∧ cluster (machine event) ∧ Sequential blockReplica cluster id net event

/-- What holds of the call that an event is about. -/
theorem of_exists_getElem? {α : Type} {list : List α} {k : Nat} {P : α → Prop} {a : α}
    (h : ∃ b, list[k]? = some b ∧ P b) (hget : list[k]? = some a) : P a := by
  obtain ⟨b, hb, hP⟩ := h
  obtain rfl := Option.some.inj (hget.symm.trans hb)
  exact hP

theorem Single.step (h : net.Single blockReplica cluster id) (htruthful : net.Truthful blockReplica)
    (hreplica : 1 ≤ blockReplica) {event : BlockEvent}
    (halternates : Alternates blockReplica cluster id net event)
    (hstep : BlockStep blockReplica net event net') : net'.Single blockReplica cluster id := by
  obtain ⟨hlasting, hn, hsequential⟩ := halternates
  by_cases hregards : net.Regards id event
  swap
  · exact h.calm (calm_of_step htruthful hlasting hregards hstep)
  cases hstep with
  | save n data opens newID node hn' hdata hsave =>
      obtain ⟨rfl, hid⟩ := hregards
      have hfirst : net.first id = none := by
        rw [← hid]
        exact hlasting
      have hnew : newID = id := by
        rw [← hid]
        exact (Prod.mk.inj hsave).1.symm
      have henters := BlockNode.enters_saveBlock hsave
      rw [hnew] at henters
      have hidle := h.save htruthful hreplica hfirst henters
      exact Or.inl ⟨hidle.tasks, hidle.copies, hidle.letters, hidle.complete⟩
  | checkAll n id' attr pick node hlocal hpick hrun =>
      obtain rfl : id' = id := hregards
      rw [((htruthful.sound.node n).entry (Or.inl hlocal)).2.1] at hrun
      have hrecords : net.Records id' n ((net.nodes n).attrs attr).machine := by
        intro attr' hattr
        rw [Option.some.inj (hlocal.symm.trans hattr)]
      exact h.handleDoReplica htruthful hreplica hn hlocal (hsequential rfl _ hrecords) hpick hrun
  | deliver n src msg rest room pick node sends hflight hpick hrun =>
      exact h.deliver htruthful hreplica hn hsequential hregards hflight hpick hrun
  | drop n src msg rest hflight =>
      exact h.drop htruthful hn hsequential hregards hflight
  | askCopy n k task m rest hget hcandidate hasked =>
      have hblock := of_exists_getElem? hregards hget
      obtain ⟨source, task', errand, hbusy⟩ := h.busy_of_task hn hget hblock
        (by simp [hcandidate])
      exact Or.inr (Or.inl ⟨n, hbusy.askCopy hn hget hblock hcandidate hasked⟩)
  | skipCopy n k task m rest hget hcandidate =>
      have hblock := of_exists_getElem? hregards hget
      obtain ⟨source, task', errand, hbusy⟩ := h.busy_of_task hn hget hblock
        (by simp [hcandidate])
      exact Or.inr (Or.inl
        ⟨n, hbusy.skipCopy hn hget hblock hcandidate (hsequential task hget hblock)⟩)
  | takeCopy n k task m rest flight hget hcandidate hasked hflight =>
      have hblock := of_exists_getElem? hregards hget
      obtain ⟨source, task', errand, hbusy⟩ := h.busy_of_task hn hget hblock
        (by simp [hcandidate])
      exact Or.inr (Or.inl ⟨n, hbusy.takeCopy hn hget hblock hcandidate hflight⟩)
  | finish n k task hget hcandidate =>
      have hblock := of_exists_getElem? hregards hget
      exact h.finish htruthful hn hget hblock hcandidate
  | load n k task content hget hdata hfile =>
      have hblock := of_exists_getElem? hregards hget
      obtain ⟨source, task', errand, hbusy⟩ := h.busy_of_copy hn hget hblock
      obtain ⟨errand, hbusy⟩ := hbusy.load hn hget hblock (BlockManager.loadFile content)
      exact Or.inr (Or.inl ⟨source, task', errand, hbusy⟩)
  | loadFails n k task hget hdata =>
      have hblock := of_exists_getElem? hregards hget
      obtain ⟨source, task', errand, hbusy⟩ := h.busy_of_copy hn hget hblock
      exact Or.inr (Or.inl ⟨source, task', .nothing, hbusy.giveUp hn hget hblock rfl rfl rfl⟩)
  | store n k opens task data newID node hget hdata hsave =>
      have hblock := of_exists_getElem? hregards hget
      obtain ⟨source, task', errand, hbusy⟩ := h.busy_of_copy hn hget hblock
      obtain ⟨errand, hbusy⟩ := hbusy.stored htruthful hreplica hn hget hblock hdata hsave
      exact Or.inr (Or.inl ⟨source, task', errand, hbusy⟩)
  | askRemote n id' => exact absurd hregards not_false
  | check n id' attr alive hlocal hremote halive => exact absurd hregards not_false
  | forget n id' => exact absurd hregards not_false
  | delete n id' => exact absurd hregards not_false

/-- A step changes nothing on other machines but what they have yet to handle. -/
theorem nodes_of_step {event : BlockEvent} (hstep : BlockStep blockReplica net event net')
    (hne : n ≠ machine event) : net'.nodes n = net.nodes n := by
  cases hstep with
  | drop => rfl
  | _ => exact Function.update_of_ne hne ..

theorem invariant_single (hreplica : 1 ≤ blockReplica) :
    ((blockSystem blockReplica).restrict (Alternates blockReplica cluster id)).Invariant fun net =>
      net.Truthful blockReplica ∧ net.Single blockReplica cluster id ∧
        ∀ n, ¬ cluster n → net.nodes n = .empty where
  init hinit := by
    rw [hinit]
    refine ⟨truthful_empty, Or.inl ⟨fun _ => rfl, fun _ => rfl, fun {n sent} _ hmem => ?_,
      fun {n} _ _ attr hlocal => ?_⟩, fun _ _ => rfl⟩
    · exact absurd (Multiset.mem_of_mem_filter hmem) (Multiset.notMem_zero _)
    · exact absurd hlocal (by simp [empty, BlockNode.empty])
  step h hstep := by
    obtain ⟨htruthful, hsingle, hempty⟩ := h
    refine ⟨htruthful.step hreplica hstep.1.1 hstep.2,
      hsingle.step htruthful hreplica hstep.1 hstep.2, fun n hn => ?_⟩
    have hne : n ≠ machine _ := fun heq => hn (by rw [heq]; exact hstep.1.2.1)
    rw [nodes_of_step hstep.2 hne]
    exact hempty n hn

end Steps

/-- No message is in flight, and no handler is running. -/
def AtRest (cluster : MachineID → Prop) (net : BlockNet) : Prop :=
  ∀ n, cluster n → (net.nodes n).replicas = [] ∧ (net.nodes n).copies = [] ∧ net.inFlight n = 0

/-- No more than `blockReplica` machines have the block, and each of them lists exactly these. -/
def Agreed (blockReplica : UInt64) (net : BlockNet) (id : BlockID) : Prop :=
  ∃ holders : Finset MachineID, holders.card ≤ blockReplica.toNat ∧
    (∀ n, n ∈ holders ↔ net.Holds id n) ∧
    ∀ n attr, (net.nodes n).localIDs[id]? = some attr →
      ((net.nodes n).attrs attr).machine.toFinset = holders

section Runs

variable {blockReplica : UInt64} {cluster : MachineID → Prop} {id : BlockID}

theorem AtRest.settled {net : BlockNet} (h : net.AtRest cluster) : net.Settled cluster id := by
  intro n hn
  obtain ⟨hreplicas, hcopies, hflight⟩ := h n hn
  refine ⟨?_, ?_, ?_⟩
  · rw [BlockNode.tasksOf, hreplicas]
    rfl
  · rw [BlockNode.copiesOf, hcopies]
    rfl
  · rw [letters, hflight]
    rfl

/-- As long as `handleDoReplica` works only on the list that the machine has, with nothing else
under way for the block unless the list is full, and no acknowledgement or update of it is
lost, all machines agree about the block whenever the cluster is at rest. -/
theorem agreed_of_run (hreplica : 1 ≤ blockReplica) {events : List BlockEvent} {net : BlockNet}
    (hrun : ((blockSystem blockReplica).restrict (Alternates blockReplica cluster id)).Run events net)
    (hrest : net.AtRest cluster) : net.Agreed blockReplica id := by
  obtain ⟨htruthful, hsingle, hempty⟩ := (invariant_single hreplica).run hrun
  have hsettled : net.Settled cluster id := hrest.settled
  have hlisted (n : MachineID) (attr : Nat) (hlocal : (net.nodes n).localIDs[id]? = some attr) :
      ∀ m, m ∈ ((net.nodes n).attrs attr).machine ↔ net.Holds id m := by
    have hn : cluster n := by
      by_contra hout
      rw [hempty n hout] at hlocal
      exact absurd hlocal (by simp [BlockNode.empty])
    exact hsingle.mem_iff htruthful.sound_holds hsettled hn hlocal
  by_cases hholds : ∃ n, net.Holds id n
  · obtain ⟨n, hn⟩ := hholds
    obtain ⟨attr, hlocal⟩ := Option.ne_none_iff_exists'.mp hn
    refine ⟨((net.nodes n).attrs attr).machine.toFinset, ?_, fun m => ?_, fun m attr' hm => ?_⟩
    · have hentry := (htruthful.sound.node n).entry (Or.inl hlocal)
      exact (List.toFinset_card_le _).trans hentry.2.2.wellFormed.bounded
    · rw [List.mem_toFinset]
      exact hlisted n attr hlocal m
    · ext other
      rw [List.mem_toFinset, List.mem_toFinset, hlisted m attr' hm, hlisted n attr hlocal]
  · have hnobody (n : MachineID) : ¬ net.Holds id n := fun hn => hholds ⟨n, hn⟩
    refine ⟨∅, Nat.zero_le _, fun n => ?_, fun n attr hlocal => ?_⟩
    · exact iff_of_false (Finset.notMem_empty n) (hnobody n)
    · refine absurd ?_ (hnobody n)
      rw [Holds, hlocal]
      exact Option.some_ne_none attr

end Runs

/-- What `AtRest` asks of one machine, computed. -/
def restsAt (net : BlockNet) (n : MachineID) : Bool :=
  (net.nodes n).replicas.isEmpty && (net.nodes n).copies.isEmpty && (net.inFlight n).card == 0

theorem atRest_of_all {net : BlockNet} {machines : List MachineID}
    (hall : machines.all net.restsAt = true) : net.AtRest (· ∈ machines) := by
  intro n hn
  have hrests := List.all_eq_true.mp hall n hn
  rw [restsAt, Bool.and_eq_true, Bool.and_eq_true, beq_iff_eq, Multiset.card_eq_zero,
    List.isEmpty_iff, List.isEmpty_iff] at hrests
  exact ⟨hrests.1.1, hrests.1.2, hrests.2⟩

/-- What follows when machine 1 asks machine 2 for its first copy. -/
def firstCopy (id : BlockID) : List BlockEvent :=
  [.askCopy 1 0, .deliver 2 1 (.copyBlockFromRemote id), .load 2 0, .store 2 0 true,
    .takeCopy 1 0, .finish 1 0, .deliver 2 1 (.updateReplica (locationData id [1, 2]))]

theorem agreed_of_run_example :
    ∃ net, ((blockSystem 2).restrict (Alternates 2 (· ∈ [1, 2]) (buildBlockID 1 1))).Run
        (.save 1 allocateMem true :: .checkAll 1 (buildBlockID 1 1) ::
          firstCopy (buildBlockID 1 1)) net ∧
      net.Holds (buildBlockID 1 1) 1 ∧ net.Holds (buildBlockID 1 1) 2 ∧
      net.Agreed 2 (buildBlockID 1 1) := by
  have hcomputed : ((oneBlock.next 2 [1, 2] (.checkAll 1 (buildBlockID 1 1))).bind fun net =>
      (firstCopy (buildBlockID 1 1)).foldlM (next 2 [1, 2]) net).map (fun net =>
        [1, 2].all net.restsAt &&
          [1, 2].all fun n => (net.nodes n).localIDs[buildBlockID 1 1]?.isSome) = some true := by
    decide +kernel
  obtain ⟨net, hfold, hnet⟩ := Option.map_eq_some_iff.mp hcomputed
  obtain ⟨asked, hasked, hfold⟩ := Option.bind_eq_some_iff.mp hfold
  obtain ⟨hrests, hholds⟩ := Bool.and_eq_true_iff.mp hnet
  have hholds (n : MachineID) (hn : n ∈ [1, 2]) : net.Holds (buildBlockID 1 1) n :=
    Option.isSome_iff_ne_none.mp (List.all_eq_true.mp hholds n hn)
  have hsettled : oneBlock.Settled (· ∈ [1, 2]) (buildBlockID 1 1) :=
    (atRest_of_all (by decide +kernel)).settled
  have hcopy : ((blockSystem 2).restrict (Alternates 2 (· ∈ [1, 2]) (buildBlockID 1 1))).Steps asked
      (firstCopy (buildBlockID 1 1)) net := by
    apply steps_of_next _ _ hfold
    · simp [firstCopy, AnswersAmong]
    · simp [firstCopy, Alternates, Lasting, machine, Sequential]
  have hrun : ((blockSystem 2).restrict (Alternates 2 (· ∈ [1, 2]) (buildBlockID 1 1))).Run
      (.save 1 allocateMem true :: .checkAll 1 (buildBlockID 1 1) ::
        firstCopy (buildBlockID 1 1)) net := by
    refine ⟨.empty, rfl, .cons ⟨⟨rfl, by decide, trivial⟩, ?_⟩ (.cons ⟨⟨trivial, by decide, ?_⟩,
      step_of_next trivial hasked⟩ hcopy)⟩
    · exact BlockStep.save 1 _ true _ _ (by decide) List.length_replicate rfl
    · exact fun _ _ _ => Or.inl hsettled
  exact ⟨net, hrun, hholds 1 (by decide), hholds 2 (by decide),
    agreed_of_run (by decide) hrun (atRest_of_all hrests)⟩

/-- Machine 4 learns that machine 1 has the block, finds too few machines, and asks machine 1
for more copies. Machine 1 has just got another one by itself when it handles the request. -/
def outdatedRequest (id : BlockID) : List BlockEvent :=
  [.askRemote 4 id, .deliver 1 4 (.requestBlockLocation 4 id),
    .deliver 2 4 (.requestBlockLocation 4 id), .deliver 3 4 (.requestBlockLocation 4 id),
    .deliver 4 1 (.requestBlockLocationACK (locationData id [1])),
    .deliver 4 2 (.requestBlockLocationACK []), .deliver 4 3 (.requestBlockLocationACK []),
    .check 4 id (· == 1), .checkAll 1 id] ++ firstCopy id ++
    [.deliver 3 1 (.updateReplica (locationData id [1, 2])),
      .deliver 4 1 (.updateReplica (locationData id [1, 2]))]

/-- Machine 1 takes over the list of the request, and asks machine 3. -/
def secondCopy (id : BlockID) : List BlockEvent :=
  [.deliver 1 4 (.doReplica (locationData id [1])), .askCopy 1 0,
    .deliver 3 1 (.copyBlockFromRemote id), .load 3 0, .store 3 0 true, .takeCopy 1 0, .finish 1 0,
    .deliver 2 1 (.updateReplica (locationData id [1, 3])),
    .deliver 3 1 (.updateReplica (locationData id [1, 3])),
    .deliver 4 1 (.updateReplica (locationData id [1, 3]))]

/-- Three machines have the block at the end, where no more than two should. -/
theorem exists_overshoot :
    ∃ net, ((blockSystem 2).restrict Lasting).Run (.save 1 allocateMem true ::
        (outdatedRequest (buildBlockID 1 1) ++ secondCopy (buildBlockID 1 1))) net ∧
      (∀ event ∈ outdatedRequest (buildBlockID 1 1) ++ secondCopy (buildBlockID 1 1),
        machine event ∈ [1, 2, 3, 4]) ∧
      net.AtRest (· ∈ [1, 2, 3, 4]) ∧ (∀ n ∈ [1, 2, 3], net.Holds (buildBlockID 1 1) n) ∧
      ¬ net.Agreed 2 (buildBlockID 1 1) := by
  have hcomputed : (((outdatedRequest (buildBlockID 1 1)).foldlM (next 2 [1, 2]) oneBlock).bind
      fun net => (secondCopy (buildBlockID 1 1)).foldlM (next 2 [3]) net).map (fun net =>
        [1, 2, 3, 4].all net.restsAt &&
          [1, 2, 3].all fun n => (net.nodes n).localIDs[buildBlockID 1 1]?.isSome) = some true := by
    decide +kernel
  obtain ⟨net, hfold, hnet⟩ := Option.map_eq_some_iff.mp hcomputed
  obtain ⟨between, hfirst, hsecond⟩ := Option.bind_eq_some_iff.mp hfold
  obtain ⟨hrests, hholds⟩ := Bool.and_eq_true_iff.mp hnet
  have hholds (n : MachineID) (hn : n ∈ [1, 2, 3]) : net.Holds (buildBlockID 1 1) n :=
    Option.isSome_iff_ne_none.mp (List.all_eq_true.mp hholds n hn)
  have hsteps : ((blockSystem 2).restrict Lasting).Steps oneBlock
      (outdatedRequest (buildBlockID 1 1) ++ secondCopy (buildBlockID 1 1)) net := by
    apply System.Steps.append (steps_of_next _ _ hfirst) (steps_of_next _ _ hsecond)
    · simp [outdatedRequest, firstCopy, AnswersAmong]
    · simp [outdatedRequest, firstCopy, Lasting]
    · simp [secondCopy, AnswersAmong]
    · simp [secondCopy, Lasting]
  refine ⟨net, ⟨.empty, rfl, .cons ⟨rfl, ?_⟩ hsteps⟩, by decide, atRest_of_all hrests, hholds, ?_⟩
  · exact BlockStep.save 1 _ true _ _ (by decide) List.length_replicate rfl
  · rintro ⟨holders, hcard, hmem, -⟩
    have hsub : ({1, 2, 3} : Finset MachineID) ⊆ holders := by
      intro n hn
      apply (hmem n).mpr (hholds n _)
      simpa using hn
    have hthree : ({1, 2, 3} : Finset MachineID).card = 3 := by decide
    have hle := (Finset.card_le_card hsub).trans hcard
    rw [hthree] at hle
    exact absurd hle (by decide)

end BlockNet

end Doopey
