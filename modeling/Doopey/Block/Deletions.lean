import Doopey.Block.ComputedRuns
import Doopey.Block.TruthfulLists

/-!
# Deletions

A machine that handles the deletion of a block forgets it. It has the block again
just when it saves a copy afterwards, one that it began to make before, or for
which a machine asked that had not handled the deletion yet.
-/

namespace Doopey

open Foundation

namespace BlockNode

/-- A machine has nothing of a block. -/
def Absent (node : BlockNode) (id : BlockID) : Prop :=
  node.localIDs[id]? = none ∧ node.files id = none

/-- Nothing has changed for a block. -/
def Same (id : BlockID) (node node' : BlockNode) : Prop :=
  node'.localIDs[id]? = node.localIDs[id]? ∧ node'.files id = node.files id

/-- The ID that `saveBlock` gives to a block with the ID `id`. -/
def savedID (node : BlockNode) (me : MachineID) (id : BlockID) : BlockID :=
  if id = 0 then (node.newLocalID me).1 else id

section Node

variable {blockReplica : UInt64} {node node' : BlockNode} {id : BlockID}

theorem Same.absent (h : Same id node node') (habsent : node.Absent id) : node'.Absent id :=
  ⟨h.1.trans habsent.1, h.2.trans habsent.2⟩

theorem Quiet.same {first : BlockID → Option Bytes} (h : Quiet first node node') :
    Same id node node' := by
  unfold Same
  rw [h.localIDs, h.files]
  exact ⟨rfl, rfl⟩

/-- A machine has nothing of a block that it has deleted. -/
theorem absent_afterDeleteBlock (node : BlockNode) (id : BlockID) :
    (node.afterDeleteBlock id).Absent id := by
  refine ⟨?_, ?_⟩
  · exact (getElem?_erase_id _ _ _).trans (if_pos rfl)
  · exact Function.update_self _ _ _

theorem same_afterDeleteBlock (node : BlockNode) {id' : BlockID} (hne : id' ≠ id) :
    Same id node (node.afterDeleteBlock id') := by
  refine ⟨?_, ?_⟩
  · exact (getElem?_erase_id _ _ _).trans (if_neg hne.symm)
  · exact Function.update_of_ne hne.symm _ _

theorem absent_afterDoDelete (hask : node.askBlockDetail id ≠ none) :
    (node.afterDoDelete id).1.Absent id := by
  unfold BlockNode.afterDoDelete
  split
  next hnone => exact absurd hnone hask
  next => exact absent_afterDeleteBlock _ id

theorem same_afterDoDelete {id' : BlockID} (h : id' = id → node.askBlockDetail id = none) :
    Same id node (node.afterDoDelete id').1 := by
  unfold BlockNode.afterDoDelete
  split
  next => exact ⟨rfl, rfl⟩
  next attr hask =>
    have hne : id' ≠ id := by
      rintro rfl
      exact absurd (hask.symm.trans (h rfl)) (by simp)
    exact same_afterDeleteBlock (node.modify attr _) hne

theorem same_handleDoReplica {pick : List MachineID → UInt64 → List MachineID} {data : Bytes}
    (hrun : node.handleDoReplica blockReplica pick data = .ok node') : Same id node node' := by
  unfold BlockNode.handleDoReplica at hrun
  obtain ⟨⟨id', machines⟩, -, hrun⟩ := bind_eq_ok_iff.mp hrun
  dsimp only at hrun
  split at hrun
  next =>
    rw [← Except.ok.inj hrun]
    exact ⟨rfl, rfl⟩
  next =>
    split at hrun
    next =>
      rw [← Except.ok.inj hrun]
      exact ⟨rfl, rfl⟩
    next =>
      rw [← Except.ok.inj hrun]
      exact ⟨rfl, rfl⟩

/-- Saving another block changes nothing for a block. -/
theorem same_saveBlock {me : MachineID} {opens : Bool} {data : Bytes} {id' newID : BlockID}
    (hne : opens = true → node.savedID me id' ≠ id)
    (hsave : node.saveBlock blockReplica me opens data id' = (newID, node')) :
    Same id node node' := by
  rcases @saveBlock_spec _ (fun _ => none) _ _ _ _ _ _ _ hsave with
    ⟨-, -, hquiet⟩ | ⟨rfl, hid, -⟩
  · exact hquiet.same
  · have hnew : id ≠ newID := (hid.trans_ne (hne rfl)).symm
    have henters := enters_saveBlock hsave
    refine ⟨?_, ?_⟩
    · rw [henters.localIDs, getElem?_insert_id, if_neg hnew]
    · rw [henters.files, Function.update_of_ne hnew]

theorem listed_saveBlock {me : MachineID} {data : Bytes} {id' newID : BlockID}
    (hid : node.savedID me id' = id)
    (hsave : node.saveBlock blockReplica me true data id' = (newID, node')) :
    node'.localIDs[id]? ≠ none := by
  rcases @saveBlock_spec _ (fun _ => none) _ _ _ _ _ _ _ hsave with
    ⟨hopens, -, -⟩ | ⟨-, hnew, hsaves⟩
  · exact absurd hopens (by simp)
  · exact hsaves.listed (Or.inl (hid.symm.trans hnew.symm))

end Node

end BlockNode

namespace BlockNet

/-- The machine handles a deletion of the block. -/
def deletes (net : BlockNet) (id : BlockID) (n : MachineID) : BlockEvent → Bool
  | .deliver m _ (.deleteBlock id') => m == n && id' == id
  | .deliver m _ (.doDelete id') => m == n && id' == id && ((net.nodes m).askBlockDetail id).isSome
  | .delete m id' => m == n && id' == id &&
      match (net.nodes m).askBlockDetail id with
      | none => false
      | some attr => ((net.nodes m).attrs attr).machine.head? == some m
  | _ => false

/-- The machine saves the block. -/
def saves (net : BlockNet) (id : BlockID) (n : MachineID) : BlockEvent → Bool
  | .save m _ opens => m == n && opens && (net.nodes m).savedID m 0 == id
  | .store m k opens => m == n && opens && match (net.nodes m).copies[k]? with
      | none => false
      | some task => (net.nodes m).savedID m task.block == id
  | _ => false

section Steps

variable {blockReplica : UInt64} {net net' : BlockNet} {id : BlockID} {n : MachineID}

/-- What an event can mean for a block on a machine. -/
structure Effect (net : BlockNet) (id : BlockID) (n : MachineID) (event : BlockEvent)
    (node : BlockNode) : Prop where
  absent : net.deletes id n event = true → node.Absent id
  listed : net.saves id n event = true → node.localIDs[id]? ≠ none
  same : net.deletes id n event = false → net.saves id n event = false →
    BlockNode.Same id (net.nodes n) node

/-- An event of another kind. -/
theorem Effect.of_same {event : BlockEvent} {node : BlockNode}
    (hdeletes : net.deletes id n event = false) (hsaves : net.saves id n event = false)
    (hsame : BlockNode.Same id (net.nodes n) node) : net.Effect id n event node where
  absent h := absurd (hdeletes.symm.trans h) (by simp)
  listed h := absurd (hsaves.symm.trans h) (by simp)
  same _ _ := hsame

theorem Effect.afterDelete (id' : BlockID) :
    net.Effect id n (.delete n id') ((net.nodes n).afterDelete n id').1 := by
  have hcases : net.deletes id n (.delete n id') = true ↔ id' = id ∧ ∃ attr,
      (net.nodes n).askBlockDetail id = some attr ∧
        ((net.nodes n).attrs attr).machine.head? = some n := by
    unfold deletes
    cases hask : (net.nodes n).askBlockDetail id with
    | none => simp [hask]
    | some attr => simp [hask]
  refine ⟨fun hdeletes => ?_, fun hsaves => absurd hsaves (by simp [saves]), fun hnot _ => ?_⟩
  · obtain ⟨rfl, attr, hask, hhead⟩ := hcases.mp hdeletes
    rw [BlockNode.afterDelete, hask]
    dsimp only
    obtain ⟨rest, hmachine⟩ := List.head?_eq_some_iff.mp hhead
    rw [hmachine]
    dsimp only
    rw [if_pos rfl]
    apply BlockNode.absent_afterDoDelete
    rw [hask]
    exact Option.some_ne_none attr
  · unfold BlockNode.afterDelete
    split
    next => exact ⟨rfl, rfl⟩
    next attr hask =>
      split
      next => exact ⟨rfl, rfl⟩
      next first rest hmachine =>
        split
        next heq =>
          apply BlockNode.same_afterDoDelete
          rintro rfl
          -- the machine is the first one on the list, and the event deletes the block
          have hdeletes := hcases.mpr ⟨rfl, attr, hask, by rw [hmachine, heq]; rfl⟩
          exact absurd (hnot.symm.trans hdeletes) (by simp)
        next => exact ⟨rfl, rfl⟩

theorem Effect.request {room : Nat}
    {pick : List MachineID → UInt64 → List MachineID} {src : MachineID}
    {msg : BlockMessage} {node : BlockNode} {sends : List (Target × BlockMessage)}
    (hrun : (net.nodes n).request blockReplica room pick src msg = .ok (node, sends)) :
    net.Effect id n (.deliver n src msg) node := by
  have hquiet {run : Except Fault BlockNode}
      (hsame : ∀ node, run = .ok node → BlockNode.Same id (net.nodes n) node)
      (hrun : (do let node ← run; .ok (node, [])) = Except.ok (node, sends)) :
      BlockNode.Same id (net.nodes n) node := by
    obtain ⟨middle, hrun, heq⟩ := bind_eq_ok_iff.mp hrun
    rw [← (Prod.mk.inj (Except.ok.inj heq)).1]
    exact hsame middle hrun
  cases msg with
  | requestBlockLocationACK data =>
      apply Effect.of_same rfl rfl (hquiet _ hrun)
      intro node hrun
      exact (@BlockNode.Quiet.handleRequestBlockLocationACK _ (fun _ => none) _ _ _ hrun).same
  | doReplica data =>
      apply Effect.of_same rfl rfl (hquiet _ hrun)
      intro node hrun
      exact BlockNode.same_handleDoReplica hrun
  | updateReplica data =>
      apply Effect.of_same rfl rfl (hquiet _ hrun)
      intro node hrun
      exact (@BlockNode.Quiet.handleUpdateReplica (fun _ => none) _ _ _ hrun).same
  | doDelete id' =>
      rw [← (Prod.mk.inj (BlockNode.eq_of_handleDoDelete hrun).2).1]
      refine ⟨fun hdeletes => ?_, fun hsaves => absurd hsaves (by simp [saves]), fun hnot _ => ?_⟩
      · simp only [deletes, beq_self_eq_true, Bool.true_and, Bool.and_eq_true, beq_iff_eq,
          Option.isSome_iff_ne_none] at hdeletes
        obtain ⟨rfl, hask⟩ := hdeletes
        exact BlockNode.absent_afterDoDelete hask
      · apply BlockNode.same_afterDoDelete
        rintro rfl
        simpa [deletes] using hnot
  | deleteBlock id' =>
      rw [← (BlockNode.eq_of_request_deleteBlock hrun).2.1]
      refine ⟨fun hdeletes => ?_, fun hsaves => absurd hsaves (by simp [saves]), fun hnot _ => ?_⟩
      · simp only [deletes, beq_self_eq_true, Bool.true_and, beq_iff_eq] at hdeletes
        rw [hdeletes]
        exact BlockNode.absent_afterDeleteBlock _ id
      · apply BlockNode.same_afterDeleteBlock
        rintro rfl
        simp [deletes] at hnot
  | _ =>
      apply Effect.of_same rfl rfl
      rw [← (Prod.mk.inj (Except.ok.inj hrun)).1]
      exact ⟨rfl, rfl⟩

/-- The machine that an event is about. -/
def machine : BlockEvent → MachineID
  | .save n _ _ | .askRemote n _ | .check n _ _ | .forget n _ | .checkAll n _ | .delete n _
  | .deliver n _ _ | .drop n _ _ | .askCopy n _ | .skipCopy n _ | .takeCopy n _ | .finish n _
  | .load n _ | .loadFails n _ | .store n _ _ => n

/-- Other machines save nothing. -/
theorem saves_of_ne {event : BlockEvent} (hne : n ≠ machine event) : net.saves id n event = false := by
  cases event with
  | save m data opens =>
      have hne' : (m == n) = false := beq_false_of_ne (Ne.symm hne)
      simp [saves, hne']
  | store m k opens =>
      have hne' : (m == n) = false := beq_false_of_ne (Ne.symm hne)
      simp [saves, hne']
  | _ => rfl

/-- Other machines are not concerned. -/
theorem Effect.update {event : BlockEvent} {node : BlockNode}
    (hself : net.Effect id (machine event) event node) (n : MachineID) :
    net.Effect id n event (Function.update net.nodes (machine event) node n) := by
  by_cases heq : n = machine event
  · subst heq
    rw [Function.update_self]
    exact hself
  · rw [Function.update_of_ne heq]
    apply Effect.of_same _ (saves_of_ne heq) ⟨rfl, rfl⟩
    cases event with
    | deliver m src msg =>
        have hne : (m == n) = false := beq_false_of_ne (Ne.symm heq)
        cases msg <;> simp [deletes, hne]
    | delete m id' =>
        have hne : (m == n) = false := beq_false_of_ne (Ne.symm heq)
        simp [deletes, hne]
    | _ => rfl

/-- What an event means for a block: it is deleted, it is saved, or nothing changes. -/
theorem effect_of_step {event : BlockEvent} (hstep : BlockStep blockReplica net event net')
    (n : MachineID) : net.Effect id n event (net'.nodes n) := by
  have hquiet (event : BlockEvent) {node : BlockNode}
      (hdeletes : net.deletes id (machine event) event = false)
      (hsaves : net.saves id (machine event) event = false)
      (hsame : BlockNode.Same id (net.nodes (machine event)) node) :
      net.Effect id n event (Function.update net.nodes (machine event) node n) :=
    Effect.update (.of_same hdeletes hsaves hsame) n
  cases hstep with
  | save m data opens newID node hm hdata hsave =>
      apply Effect.update
      refine ⟨fun h => absurd h (by simp [deletes]), fun hsaves => ?_, fun _ hnot => ?_⟩
      · simp only [saves, machine, beq_self_eq_true, Bool.true_and, Bool.and_eq_true,
          beq_iff_eq] at hsaves
        obtain ⟨rfl, hid⟩ := hsaves
        exact BlockNode.listed_saveBlock hid hsave
      · apply BlockNode.same_saveBlock _ hsave
        rintro rfl hid
        simp [saves, machine, hid] at hnot
  | askRemote m id' => exact hquiet (.askRemote m id') rfl rfl ⟨rfl, rfl⟩
  | check m id' attr alive hlocal hremote halive =>
      exact hquiet (.check m id' alive) rfl rfl
        (@BlockNode.Quiet.checkReplica _ (fun _ => none) _ _ _).same
  | forget m id' => exact hquiet (.forget m id') rfl rfl ⟨rfl, rfl⟩
  | checkAll m id' attr pick node hlocal hpick hrun =>
      exact hquiet (.checkAll m id') rfl rfl (BlockNode.same_handleDoReplica hrun)
  | delete m id' room node sends hrun =>
      have heffect := @Effect.afterDelete net id m id'
      rw [BlockNode.eq_of_deleteBlock hrun] at heffect
      exact Effect.update heffect n
  | deliver m src msg rest room pick node sends hflight hpick hrun =>
      exact Effect.update (.request hrun) n
  | drop m src msg rest hflight => exact .of_same rfl rfl ⟨rfl, rfl⟩
  | askCopy m k task m' rest htask hcandidate hasked =>
      exact hquiet (.askCopy m k) rfl rfl ⟨rfl, rfl⟩
  | skipCopy m k task m' rest htask hcandidate =>
      exact hquiet (.skipCopy m k) rfl rfl ⟨rfl, rfl⟩
  | takeCopy m k task m' rest flight htask hcandidate hasked hflight =>
      exact hquiet (.takeCopy m k) rfl rfl ⟨rfl, rfl⟩
  | finish m k task htask hcandidate => exact hquiet (.finish m k) rfl rfl ⟨rfl, rfl⟩
  | load m k task content htask hdata hfile => exact hquiet (.load m k) rfl rfl ⟨rfl, rfl⟩
  | loadFails m k task htask hdata => exact hquiet (.loadFails m k) rfl rfl ⟨rfl, rfl⟩
  | store m k opens task data newID node htask hdata hsave =>
      have hid : { net.nodes m with copies := (net.nodes m).copies.eraseIdx k }.savedID m
          task.block = (net.nodes m).savedID m task.block := rfl
      apply Effect.update
      refine ⟨fun h => absurd h (by simp [deletes]), fun hsaves => ?_, fun _ hnot => ?_⟩
      · simp only [saves, machine, htask, beq_self_eq_true, Bool.true_and, Bool.and_eq_true,
          beq_iff_eq] at hsaves
        obtain ⟨rfl, hsaved⟩ := hsaves
        exact BlockNode.listed_saveBlock (hid.trans hsaved) hsave
      · have hsame : BlockNode.Same id
            { net.nodes m with copies := (net.nodes m).copies.eraseIdx k } node := by
          apply BlockNode.same_saveBlock _ hsave
          rintro rfl hsaved
          simp [saves, machine, htask, hid.symm.trans hsaved] at hnot
        exact hsame

end Steps

end BlockNet

/-! ## Deletions and what comes after them -/

/-- A cluster, the machines that have handled a deletion of the block, and those of them
that have saved it since. -/
structure Deletion where
  net : BlockNet
  handled : MachineID → Bool
  late : MachineID → Bool

/-- A cluster in which a block may be deleted. -/
def deletionSystem (blockReplica : UInt64) (id : BlockID) : System Deletion BlockEvent where
  init state := state = ⟨.empty, fun _ => false, fun _ => false⟩
  step state event state' := BlockStep blockReplica state.net event state'.net ∧
    (∀ n, state'.handled n = (state.handled n || state.net.deletes id n event)) ∧
    ∀ n, state'.late n = (!state.net.deletes id n event &&
      (state.late n || (state.handled n && state.net.saves id n event)))

namespace Deletion

variable {blockReplica : UInt64} {id : BlockID} {state state' : Deletion}

/-- No machine saves the block after it has handled its deletion. -/
def Timely (id : BlockID) (state : Deletion) (event : BlockEvent) : Prop :=
  ∀ n, state.handled n = true → state.net.saves id n event = false

/-- A machine that has handled the deletion has the block just when it has saved it since. -/
def Traced (id : BlockID) (state : Deletion) : Prop :=
  ∀ n, state.handled n = true →
    (state.late n = false → (state.net.nodes n).Absent id) ∧
    (state.late n = true → (state.net.nodes n).localIDs[id]? ≠ none)

theorem invariant_traced : (deletionSystem blockReplica id).Invariant (Traced id) where
  init hinit n hn := by
    rw [hinit] at hn
    exact absurd hn (by simp)
  step {state state' event} h hstep n hn := by
    obtain ⟨hstep, hhandled, hlate⟩ := hstep
    have heffect := @BlockNet.effect_of_step _ _ _ id _ hstep n
    rw [hlate]
    rw [hhandled, Bool.or_eq_true] at hn
    cases hdeletes : state.net.deletes id n event with
    | true => exact ⟨fun _ => heffect.absent hdeletes, fun hnot => absurd hnot (by simp)⟩
    | false =>
        -- the deletion was handled before this step
        have hold : state.handled n = true := by simpa [hdeletes] using hn
        rw [hold, Bool.not_false, Bool.true_and, Bool.true_and, Bool.or_eq_false_iff,
          Bool.or_eq_true]
        cases hsaves : state.net.saves id n event with
        | true => exact ⟨fun hnot => absurd hnot.2 (by simp), fun _ => heffect.listed hsaves⟩
        | false =>
            have hsame := heffect.same hdeletes hsaves
            refine ⟨fun hnot => hsame.absent ((h n hold).1 hnot.1), fun hlate => ?_⟩
            rw [hsame.1]
            exact (h n hold).2 (hlate.resolve_right (by simp))

/-- Exactly the copies that are saved after the deletion was handled bring a block back. -/
theorem absent_iff_of_run {events : List BlockEvent}
    (hrun : (deletionSystem blockReplica id).Run events state) {n : MachineID}
    (hn : state.handled n = true) :
    (state.net.nodes n).Absent id ↔ state.late n = false := by
  have htraced := invariant_traced.run hrun n hn
  refine ⟨fun habsent => ?_, htraced.1⟩
  by_contra hlate
  exact htraced.2 (Bool.eq_true_of_not_eq_false hlate) habsent.1

theorem invariant_timely :
    ((deletionSystem blockReplica id).restrict (Timely id)).Invariant
      fun state => ∀ n, state.late n = false where
  init hinit n := by rw [hinit]
  step {state state' event} h hstep n := by
    obtain ⟨htimely, -, -, hlate⟩ := hstep
    rw [hlate, h n, Bool.false_or]
    cases hn : state.handled n with
    | false => simp
    | true => simp [htimely n hn]

/-- When no machine saves the block after it has handled the deletion, none that has
handled it has the block, in its list or on its disk. -/
theorem gone_of_run {events : List BlockEvent}
    (hrun : ((deletionSystem blockReplica id).restrict (Timely id)).Run events state) :
    ∀ n, state.handled n = true →
      (state.net.nodes n).localIDs[id]? = none ∧ (state.net.nodes n).files id = none := by
  intro n hn
  have htraced := (invariant_traced.restrict (Timely id)).run hrun n hn
  exact htraced.1 (invariant_timely.run hrun n)

/-! ## Runs with a deletion -/

/-- The state after an event that leads to another cluster. -/
def follow (id : BlockID) (state : Deletion) (event : BlockEvent) (net : BlockNet) : Deletion where
  net := net
  handled n := state.handled n || state.net.deletes id n event
  late n := !state.net.deletes id n event &&
    (state.late n || (state.handled n && state.net.saves id n event))

/-- Machine 1 has saved a block. -/
def oneBlock : Deletion := ⟨.oneBlock, fun _ => false, fun _ => false⟩

theorem step_oneBlock (id : BlockID) :
    (deletionSystem 2 id).step ⟨.empty, fun _ => false, fun _ => false⟩
      (.save 1 allocateMem true) oneBlock := by
  have hsave : BlockStep 2 .empty (.save 1 allocateMem true) .oneBlock :=
    BlockStep.save 1 _ true _ _ (by decide) List.length_replicate rfl
  exact ⟨hsave, fun _ => rfl, fun _ => by simp [oneBlock]⟩

/-- A run that goes on with computed steps after machine 1 has saved a block. -/
theorem run_of_foldlM {machines : List MachineID} {events : List BlockEvent}
    (halive : ∀ event ∈ events, BlockNet.AnswersAmong machines event)
    (hfold : events.foldlM (fun state event =>
      (state.net.next 2 machines event).map (state.follow id event)) oneBlock = some state) :
    (deletionSystem 2 id).Run (.save 1 allocateMem true :: events) state := by
  refine ⟨_, rfl, .cons (step_oneBlock id)
    (System.steps_of_foldlM (fun event hevent before after hnext => ?_) hfold)⟩
  obtain ⟨net, hnet, rfl⟩ := Option.map_eq_some_iff.mp hnext
  exact ⟨BlockNet.step_of_next (halive event hevent) hnet, fun _ => rfl, fun _ => rfl⟩

/-- Machine 2 has loaded its copy when it handles the deletion, and saves it then. -/
def lateCopy (id : BlockID) : List BlockEvent :=
  [.checkAll 1 id, .askCopy 1 0, .deliver 2 1 (.copyBlockFromRemote id), .load 2 0,
    .delete 1 id, .deliver 2 1 (.deleteBlock id), .store 2 0 true,
    .takeCopy 1 0, .finish 1 0, .deliver 2 1 (.updateReplica (locationData id [1, 2]))]

/-- A block comes back although both machines have handled its deletion. -/
theorem exists_run_returns :
    ∃ state, (deletionSystem 2 (buildBlockID 1 1)).Run
      (.save 1 allocateMem true :: lateCopy (buildBlockID 1 1)) state ∧
      (∀ event ∈ lateCopy (buildBlockID 1 1), BlockNet.machine event ∈ [1, 2]) ∧
      (∀ n ∈ [1, 2], state.handled n = true ∧ (state.net.nodes n).replicas.isEmpty ∧
        (state.net.nodes n).copies.isEmpty ∧ (state.net.inFlight n).card = 0) ∧
      (state.net.nodes 2).localIDs[buildBlockID 1 1]? ≠ none ∧
      (state.net.nodes 2).files (buildBlockID 1 1) ≠ none := by
  have hfold : ((lateCopy (buildBlockID 1 1)).foldlM (fun (state : Deletion) event =>
      (state.net.next 2 [1, 2] event).map (state.follow (buildBlockID 1 1) event))
        oneBlock).map (fun state =>
          ([1, 2].all fun n => state.handled n && (state.net.nodes n).replicas.isEmpty &&
            (state.net.nodes n).copies.isEmpty && (state.net.inFlight n).card == 0) &&
          (state.net.nodes 2).localIDs[buildBlockID 1 1]?.isSome &&
          ((state.net.nodes 2).files (buildBlockID 1 1)).isSome) = some true := by
    decide +kernel
  obtain ⟨state, hfold, hstate⟩ := Option.map_eq_some_iff.mp hfold
  simp only [Bool.and_eq_true, List.all_eq_true, beq_iff_eq, Option.isSome_iff_ne_none] at hstate
  obtain ⟨⟨hquiet, hlisted⟩, hfile⟩ := hstate
  refine ⟨state, run_of_foldlM (fun event hevent => ?_) hfold, by decide, fun n hn => ?_,
    hlisted, hfile⟩
  · simp only [lateCopy, List.mem_cons, List.not_mem_nil, or_false] at hevent
    rcases hevent with rfl | rfl | rfl | rfl | rfl | rfl | rfl | rfl | rfl | rfl <;> exact trivial
  · obtain ⟨⟨⟨hhandled, hreplicas⟩, hcopies⟩, hflight⟩ := hquiet n hn
    exact ⟨hhandled, hreplicas, hcopies, hflight⟩

/-- Machine 2 has its copy before machine 1 deletes the block. -/
def timelyCopy (id : BlockID) : List BlockEvent :=
  BlockNet.copyTold id ++ [.deliver 2 1 (.updateReplica (locationData id [1, 2])), .delete 1 id,
    .deliver 2 1 (.deleteBlock id)]

/-- A run of `Timely` steps that is computed after machine 1 has saved a block. -/
theorem timely_of_foldlM {machines : List MachineID} {events : List BlockEvent}
    (halive : ∀ event ∈ events, BlockNet.AnswersAmong machines event)
    (hmachines : ∀ event ∈ events, BlockNet.machine event ∈ machines)
    (hfold : events.foldlM (fun state event =>
      if machines.all fun n => !(state.handled n && state.net.saves id n event) then
        (state.net.next 2 machines event).map (state.follow id event)
      else none) oneBlock = some state) :
    ((deletionSystem 2 id).restrict (Timely id)).Run (.save 1 allocateMem true :: events) state := by
  refine ⟨_, rfl, .cons ⟨fun _ hn => absurd hn (by simp), step_oneBlock id⟩
    (System.steps_of_foldlM (fun event hevent before after hnext => ?_) hfold)⟩
  split at hnext
  next hall =>
    obtain ⟨net, hnet, rfl⟩ := Option.map_eq_some_iff.mp hnext
    refine ⟨fun n hn => ?_, BlockNet.step_of_next (halive event hevent) hnet, fun _ => rfl,
      fun _ => rfl⟩
    by_cases hmem : n ∈ machines
    · have hcase := List.all_eq_true.mp hall n hmem
      rw [hn, Bool.true_and, Bool.not_eq_true'] at hcase
      exact hcase
    · exact BlockNet.saves_of_ne fun heq => hmem (heq ▸ hmachines event hevent)
  next => exact absurd hnext (by simp)

theorem gone_of_run_example :
    ∃ state, ((deletionSystem 2 (buildBlockID 1 1)).restrict (Timely (buildBlockID 1 1))).Run
        (.save 1 allocateMem true :: timelyCopy (buildBlockID 1 1)) state ∧
      ∀ n ∈ [1, 2], state.handled n = true ∧
        (state.net.nodes n).localIDs[buildBlockID 1 1]? = none ∧
        (state.net.nodes n).files (buildBlockID 1 1) = none := by
  have hcomputed : ((timelyCopy (buildBlockID 1 1)).foldlM (fun (state : Deletion) event =>
      if [1, 2].all fun n =>
          !(state.handled n && state.net.saves (buildBlockID 1 1) n event) then
        (state.net.next 2 [1, 2] event).map (state.follow (buildBlockID 1 1) event)
      else none) oneBlock).map (fun state => [1, 2].all fun n => state.handled n) = some true := by
    decide +kernel
  obtain ⟨state, hfold, hhandled⟩ := Option.map_eq_some_iff.mp hcomputed
  have hrun := timely_of_foldlM (by simp [timelyCopy, BlockNet.copyTold, BlockNet.AnswersAmong])
    (by decide) hfold
  refine ⟨state, hrun, fun n hn => ?_⟩
  have hn := List.all_eq_true.mp hhandled n hn
  exact ⟨hn, gone_of_run hrun n hn⟩

end Deletion

end Doopey
