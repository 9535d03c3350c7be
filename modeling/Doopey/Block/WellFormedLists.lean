import Doopey.Block.BlockLists
import Doopey.Block.ComputedRuns

/-!
# Location lists stay well formed

Every list of every machine and in every message has an entry, is strictly
increasing and is no longer than `blockReplica`, in every run in which a handler
is not disturbed by an alive check of the entry that it is working on.
-/

namespace Doopey

open Foundation

/-- All machines and all messages have lists as they should be. -/
structure BlockNet.Sound (blockReplica : UInt64) (may : BlockID → MachineID → Prop)
    (net : BlockNet) : Prop where
  node (n : MachineID) : (net.nodes n).Sound blockReplica may
  flight {n : MachineID} {sent : MachineID × BlockMessage} : sent ∈ net.inFlight n →
    sent.2.Sound blockReplica may

/-- What arrives is among the messages of the machine that sends. -/
theorem mem_arriving {src n : MachineID} {sends : List (Target × BlockMessage)}
    {sent : MachineID × BlockMessage} :
    sent ∈ arriving src sends n ↔
      ∃ send ∈ sends, send.1.Reaches src n ∧ sent = (src, send.2) := by
  unfold arriving
  rw [Multiset.mem_coe, List.mem_map]
  constructor
  · rintro ⟨send, hsend, heq⟩
    obtain ⟨hmem, hreaches⟩ := List.mem_filter.mp hsend
    exact ⟨send, hmem, of_decide_eq_true hreaches, heq.symm⟩
  · rintro ⟨send, hmem, hreaches, heq⟩
    exact ⟨send, List.mem_filter.mpr ⟨hmem, decide_eq_true hreaches⟩, heq.symm⟩

theorem BlockMessage.Sound.mono {blockReplica : UInt64} {may may' : BlockID → MachineID → Prop}
    {msg : BlockMessage} (h : msg.Sound blockReplica may) (hmay : ∀ id m, may id m → may' id m) :
    msg.Sound blockReplica may' := by
  have hcarries {data : Bytes} (hdata : CarriesList blockReplica may data) :
      CarriesList blockReplica may' data := by
    obtain ⟨id, machines, heq, hlisted⟩ := hdata
    exact ⟨id, machines, heq, hlisted.mono (hmay id)⟩
  cases msg with
  | requestBlockLocationACK data => exact Or.imp_right hcarries h
  | doReplica data => exact hcarries h
  | updateReplica data => exact hcarries h
  | _ => exact trivial

namespace BlockNet

/-- No alive check disturbs a call of `handleDoReplica` that works on its entry. -/
def Undisturbed (net : BlockNet) : BlockEvent → Prop
  | .check n id _ => ∀ task ∈ (net.nodes n).replicas, (net.nodes n).remoteIDs[id]? ≠ some task.attr
  | _ => True

/-- The event brings no machine into a list that may not be there, and disturbs
no handler. -/
def Admits (blockReplica : UInt64) (may : BlockID → MachineID → Prop) (net : BlockNet) :
    BlockEvent → Prop
  | .save n data opens => opens = true → ∀ id node,
      (net.nodes n).saveBlock blockReplica n opens data 0 = (id, node) → may id n
  | .takeCopy n k => ∀ task m rest, (net.nodes n).replicas[k]? = some task →
      task.candidate = m :: rest → (m, .blockACK task.block) ∈ net.inFlight n → may task.block m
  | .store n k opens => opens = true → ∀ task data id node,
      (net.nodes n).copies[k]? = some task → task.data = some data →
      { net.nodes n with copies := (net.nodes n).copies.eraseIdx k }.saveBlock
        blockReplica n opens data task.block = (id, node) → may id n
  | event => net.Undisturbed event

section Steps

variable {blockReplica : UInt64} {may : BlockID → MachineID → Prop} {net : BlockNet}

theorem sound_empty : empty.Sound blockReplica may where
  node _ := BlockNode.sound_empty
  flight hmem := absurd hmem (Multiset.notMem_zero _)

theorem Sound.mono {may' : BlockID → MachineID → Prop} (h : net.Sound blockReplica may)
    (hmay : ∀ id m, may id m → may' id m) : net.Sound blockReplica may' :=
  ⟨fun n => (h.node n).mono hmay, fun hmem => (h.flight hmem).mono hmay⟩

theorem Sound.act (h : net.Sound blockReplica may) {n : MachineID} {node : BlockNode}
    {sends : List (Target × BlockMessage)} (hnode : node.Sound blockReplica may)
    (hsends : ∀ send ∈ sends, send.2.Sound blockReplica may) :
    (net.act n node sends).Sound blockReplica may where
  node := Function.forall_update_iff _ _ |>.mpr ⟨hnode, fun m _ => h.node m⟩
  flight hmem := by
    rcases Multiset.mem_add.mp hmem with hold | hnew
    · exact h.flight hold
    · obtain ⟨send, hsend, -, rfl⟩ := mem_arriving.mp hnew
      exact hsends send hsend

theorem mem_inFlight_of_without {n m : MachineID} {lost : MachineID × BlockMessage}
    {rest : Multiset (MachineID × BlockMessage)} (hflight : net.inFlight n = lost ::ₘ rest)
    {sent : MachineID × BlockMessage} (hmem : sent ∈ (net.without n rest).inFlight m) :
    sent ∈ net.inFlight m := by
  unfold without at hmem
  dsimp only at hmem
  rw [Function.update_apply] at hmem
  split at hmem
  next heq =>
    rw [heq, hflight]
    exact Multiset.mem_cons_of_mem hmem
  next => exact hmem

theorem Sound.without (h : net.Sound blockReplica may) {n : MachineID}
    {lost : MachineID × BlockMessage} {rest : Multiset (MachineID × BlockMessage)}
    (hflight : net.inFlight n = lost ::ₘ rest) : (net.without n rest).Sound blockReplica may :=
  ⟨h.node, fun hmem => h.flight (mem_inFlight_of_without hflight hmem)⟩

/-- Every step keeps the lists as they should be. -/
theorem Sound.step (h : net.Sound blockReplica may) (hreplica : 1 ≤ blockReplica)
    {event : BlockEvent} {net' : BlockNet} (hadmits : net.Admits blockReplica may event)
    (hstep : BlockStep blockReplica net event net') : net'.Sound blockReplica may := by
  have hsilent : ∀ send ∈ ([] : List (Target × BlockMessage)), send.2.Sound blockReplica may :=
    fun _ hsend => absurd hsend List.not_mem_nil
  have hcopies {n : MachineID} (copies : List CopyTask) :
      { net.nodes n with copies := copies }.Sound blockReplica may :=
    (h.node n).of_refers rfl rfl (fun _ _ hget => hget) (fun _ _ hget => hget)
      fun task htask => ⟨task, htask, rfl, rfl⟩
  cases hstep with
  | save n data opens id node hn hdata hsave =>
      have hnode := (h.node n).saveBlock hreplica hsave fun hopens =>
        hadmits hopens id node hsave
      exact ⟨(h.act hnode hsilent).node, (h.act hnode hsilent).flight⟩
  | askRemote n id =>
      apply h.act (h.node n)
      intro send hsend
      rw [List.mem_singleton.mp hsend]
      exact trivial
  | check n id attr alive hlocal hremote halive =>
      have hsound := (h.node n).checkReplica hremote alive fun task htask heq =>
        hadmits task htask (by rw [heq]; exact hremote)
      exact h.act hsound.1 hsound.2
  | forget n id => exact h.act ((h.node n).removeRemoteID id) hsilent
  | checkAll n id attr pick node hlocal hpick hrun =>
      obtain ⟨-, hblock, hlisted⟩ := (h.node n).entry (Or.inl hlocal)
      rw [hblock] at hrun
      exact h.act ((h.node n).handleDoReplica hreplica ⟨_, _, rfl, hlisted⟩ hrun) hsilent
  | delete n id room node sends hrun =>
      have hsound := (h.node n).afterDelete n id
      rw [BlockNode.eq_of_deleteBlock hrun] at hsound
      exact h.act hsound.1 hsound.2
  | deliver n src msg rest room pick node sends hflight hpick hrun =>
      have hmsg : msg.Sound blockReplica may := by
        have hmem : (src, msg) ∈ net.inFlight n := by
          rw [hflight]
          exact Multiset.mem_cons_self _ _
        exact h.flight hmem
      have hsound := (h.node n).request hreplica hmsg hrun
      exact (h.without hflight).act hsound.1 hsound.2
  | drop n src msg rest hflight => exact h.without hflight
  | askCopy n k task m rest htask hcandidate hasked =>
      have hnode := @BlockNode.Sound.set _ _ _ (h.node n) k task { task with asked := true }
        htask rfl rfl
      apply h.act hnode
      intro send hsend
      rw [List.mem_singleton.mp hsend]
      exact trivial
  | skipCopy n k task m rest htask hcandidate =>
      have hnode := @BlockNode.Sound.set _ _ _ (h.node n) k task
        { task with candidate := rest, asked := false } htask rfl rfl
      exact h.act hnode hsilent
  | takeCopy n k task m rest flight htask hcandidate hasked hflight =>
      have hmay : may task.block m := by
        apply hadmits task m rest htask hcandidate
        rw [hflight]
        exact Multiset.mem_cons_self _ _
      exact (h.without hflight).act ((h.node n).addCandidate hreplica htask hmay rest) hsilent
  | finish n k task htask hcandidate =>
      have hsound := (h.node n).finishReplica htask
      exact h.act hsound.1 hsound.2
  | load n k task content htask hdata hfile => exact h.act (hcopies _) hsilent
  | loadFails n k task htask hdata => exact h.act ((hcopies _).removeRemoteID _) hsilent
  | store n k opens task data id node htask hdata hsave =>
      have hnode := (hcopies _).saveBlock hreplica hsave fun hopens =>
        hadmits hopens task data id node htask hdata hsave
      apply h.act hnode
      intro send hsend
      split at hsend
      next => exact hsilent send hsend
      next =>
        rw [List.mem_singleton.mp hsend]
        exact trivial

theorem invariant_sound (hreplica : 1 ≤ blockReplica) :
    ((blockSystem blockReplica).restrict Undisturbed).Invariant
      (Sound blockReplica fun _ _ => True) where
  init hinit := by
    rw [hinit]
    exact sound_empty
  step hsound hstep := by
    refine hsound.step hreplica ?_ hstep.2
    unfold Admits
    split
    next => exact fun _ _ _ _ => trivial
    next => exact fun _ _ _ _ _ _ => trivial
    next => exact fun _ _ _ _ _ _ _ _ => trivial
    next => exact hstep.1

end Steps

/-- The payloads from which `handleDoReplica` may rebuild a list on a machine:
that of a message, and that which `checkAllReplica` puts together. -/
inductive Rebuilds (net : BlockNet) (n : MachineID) : Bytes → Prop
  | message {src : MachineID} {data : Bytes} (hflight : (src, .doReplica data) ∈ net.inFlight n) :
      Rebuilds net n data
  | checkAll {id : BlockID} {attr : Nat} (hlocal : (net.nodes n).localIDs[id]? = some attr) :
      Rebuilds net n
        (locationData ((net.nodes n).attrs attr).block ((net.nodes n).attrs attr).machine)

/-- The lists of all machines and in all messages are well formed in every run in
which no alive check takes machines out of a list that `handleDoReplica` is
working on, and the number of copies that are missing never wraps around. -/
theorem wellFormed_of_run {blockReplica : UInt64} (hreplica : 1 ≤ blockReplica)
    {events : List BlockEvent} {net : BlockNet}
    (hrun : ((blockSystem blockReplica).restrict Undisturbed).Run events net) :
    (∀ n id attr, (net.nodes n).Refers id attr →
      WellFormed blockReplica ((net.nodes n).attrs attr).machine) ∧
    (∀ n src msg data, (src, msg) ∈ net.inFlight n → msg.listData = some data →
      ∃ id machines, readLocation data = .ok (id, machines) ∧ WellFormed blockReplica machines) ∧
    (∀ n data, net.Rebuilds n data → ∃ id machines, readLocation data = .ok (id, machines) ∧
      ∀ attr : BlockLocationAttr,
        let rebuilt := { attr with machine := [] }.addMachines blockReplica machines
        (blockReplica - .ofNat rebuilt.machine.length).toNat + rebuilt.machine.length =
          blockReplica.toNat) := by
  have hsound := (invariant_sound hreplica).run hrun
  have hread {data : Bytes} (hcarries : CarriesList blockReplica (fun _ _ => True) data) :
      ∃ id machines, readLocation data = .ok (id, machines) ∧
        Listed blockReplica (fun _ _ => True) id machines := by
    obtain ⟨id, machines, rfl, hlisted⟩ := hcarries
    exact ⟨id, machines, readLocation_locationData id machines, hlisted⟩
  refine ⟨?_, ?_, ?_⟩
  · intro n id attr hrefers
    exact ((hsound.node n).entry hrefers).2.2.wellFormed
  · intro n src msg data hflight hlist
    obtain ⟨id, machines, hmachines, hlisted⟩ := hread ((hsound.flight hflight).carriesList hlist)
    exact ⟨id, machines, hmachines, hlisted.wellFormed⟩
  · intro n data hrebuilds
    have hcarries : CarriesList blockReplica (fun _ _ => True) data := by
      cases hrebuilds with
      | message hflight => exact hsound.flight hflight
      | checkAll hlocal =>
          obtain ⟨-, hblock, hlisted⟩ := (hsound.node n).entry (Or.inl hlocal)
          exact ⟨_, _, rfl, by rw [hblock]; exact hlisted⟩
    obtain ⟨id, machines, hmachines, hlisted⟩ := hread hcarries
    refine ⟨id, machines, hmachines, fun attr => ?_⟩
    have hrebuilt := (hlisted.rebuilt hreplica attr).wellFormed
    dsimp only
    rw [hrebuilt.toNat_sub]
    exact Nat.sub_add_cancel hrebuilt.bounded

/-- A cluster in which machine 1 has saved a block of zeros. -/
def oneBlock : BlockNet :=
  let saved := empty.nodes 1 |>.saveBlock 2 1 true allocateMem 0
  (empty.act 1 saved.2 []).remember saved.1 allocateMem

theorem step_oneBlock : BlockStep 2 .empty (.save 1 allocateMem true) oneBlock :=
  BlockStep.save 1 _ true _ _ (by decide) List.length_replicate rfl

/-- Machine 1 makes a copy on machine 2, and its message about it is in flight. -/
def copyTold (id : BlockID) : List BlockEvent :=
  [.checkAll 1 id, .askCopy 1 0, .deliver 2 1 (.copyBlockFromRemote id), .load 2 0,
    .store 2 0 true, .takeCopy 1 0, .finish 1 0]

theorem exists_copyTold : ∃ net, (copyTold (buildBlockID 1 1)).foldlM (next 2 [1, 2]) oneBlock =
      some net ∧
    (net.nodes 1).localIDs[buildBlockID 1 1]? = some 0 ∧ ((net.nodes 1).attrs 0).machine = [1, 2] ∧
    (1, .updateReplica (locationData (buildBlockID 1 1) [1, 2])) ∈ net.inFlight 2 := by
  have hcomputed : ((copyTold (buildBlockID 1 1)).foldlM (next 2 [1, 2]) oneBlock).map (fun net =>
      decide ((net.nodes 1).localIDs[buildBlockID 1 1]? = some 0 ∧
        ((net.nodes 1).attrs 0).machine = [1, 2] ∧
        (1, .updateReplica (locationData (buildBlockID 1 1) [1, 2])) ∈ net.inFlight 2)) =
          some true := by
    decide +kernel
  obtain ⟨net, hfold, hnet⟩ := Option.map_eq_some_iff.mp hcomputed
  exact ⟨net, hfold, of_decide_eq_true hnet⟩

theorem answersAmong_copyTold (id : BlockID) : ∀ event ∈ copyTold id, AnswersAmong [1, 2] event := by
  simp [copyTold, AnswersAmong]

theorem wellFormed_of_run_example :
    ∃ net, ((blockSystem 2).restrict Undisturbed).Run
        (.save 1 allocateMem true :: copyTold (buildBlockID 1 1)) net ∧
      ((net.nodes 1).attrs 0).machine = [1, 2] ∧ WellFormed 2 ((net.nodes 1).attrs 0).machine ∧
      ∃ id machines, readLocation (locationData (buildBlockID 1 1) [1, 2]) = .ok (id, machines) ∧
        WellFormed 2 machines := by
  obtain ⟨net, hfold, hlocal, hmachine, hflight⟩ := exists_copyTold
  have hrun : ((blockSystem 2).restrict Undisturbed).Run
      (.save 1 allocateMem true :: copyTold (buildBlockID 1 1)) net := by
    refine ⟨empty, rfl, .cons ⟨trivial, step_oneBlock⟩
      (steps_of_next (answersAmong_copyTold _) ?_ hfold)⟩
    simp [copyTold, Undisturbed]
  obtain ⟨hlists, hmessages, -⟩ := wellFormed_of_run (by decide) hrun
  exact ⟨net, hrun, hmachine, hlists 1 _ 0 (Or.inl hlocal), hmessages 2 1 _ _ hflight rfl⟩

end BlockNet

end Doopey
