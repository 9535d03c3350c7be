import Mathlib.Data.List.Dedup
import Mathlib.Data.Multiset.Basic
import Doopey.Block.BlockNet

/-!
# Runs whose states are computed

The steps of a cluster as a function of the event, for a choice of the machines
that `pickMachineBesideList` finds, and with room for the bytes that a deletion copies.
Saving a new block is left out: it is one step, and its data is long.
-/

namespace Doopey

open Foundation

deriving instance DecidableEq for BlockMessage

/-- The first machines that are not on the list. -/
def pickAmong (blockReplica : UInt64) (me : MachineID) (machines : List MachineID)
    (list : List MachineID) (num : UInt64) : List MachineID :=
  if blockReplica < num then []
  else ((machines.filter fun m => !list.contains m && m != me).dedup).take num.toNat

theorem picks_pickAmong (blockReplica : UInt64) (me : MachineID) (machines : List MachineID) :
    Picks blockReplica me (pickAmong blockReplica me machines) := by
  intro list num
  unfold pickAmong
  split
  next hlt =>
    exact ⟨List.nodup_nil, fun m hm => absurd hm List.not_mem_nil, Nat.zero_le _, fun _ => rfl⟩
  next hnot =>
    refine ⟨(List.nodup_dedup _).sublist (List.take_sublist _ _), fun m hm => ?_,
      List.length_take_le _ _, fun hlt => absurd hlt hnot⟩
    have hmem := List.mem_filter.mp (List.mem_dedup.mp (List.mem_of_mem_take hm))
    rw [Bool.and_eq_true, Bool.not_eq_true', bne_iff_ne] at hmem
    refine ⟨fun hlist => ?_, hmem.2.2⟩
    rw [List.contains_iff_mem.mpr hlist] at hmem
    exact absurd hmem.2.1 (by simp)

namespace BlockNet

variable (blockReplica : UInt64) (machines : List MachineID)

/-- Every machine that answers an alive check is one of these. -/
def AnswersAmong (machines : List MachineID) : BlockEvent → Prop
  | .check _ _ alive => ∀ m, alive m = true → m ∈ machines
  | _ => True

/-- The next state, if the event is one of those that are computed and it can happen. -/
def next (net : BlockNet) : BlockEvent → Option BlockNet
  | .askRemote n id => some (net.act n (net.nodes n) [(.others, .requestBlockLocation n id)])
  | .check n id alive =>
      match (net.nodes n).localIDs[id]?, (net.nodes n).remoteIDs[id]? with
      | none, some attr =>
          if machines.all fun m => !alive m || (m != n && (net.nodes m).localIDs[id]?.isSome) then
            some (net.act n ((net.nodes n).checkReplica blockReplica attr alive).1
              ((net.nodes n).checkReplica blockReplica attr alive).2)
          else none
      | _, _ => none
  | .checkAll n id =>
      match (net.nodes n).localIDs[id]? with
      | none => none
      | some attr =>
          match (net.nodes n).handleDoReplica blockReplica (pickAmong blockReplica n machines)
            (locationData ((net.nodes n).attrs attr).block ((net.nodes n).attrs attr).machine) with
          | .ok node => some (net.act n node [])
          | .error _ => none
  | .delete n id =>
      some (net.act n ((net.nodes n).afterDelete n id).1 ((net.nodes n).afterDelete n id).2)
  | .deliver n src msg =>
      if (src, msg) ∈ net.inFlight n then
        match (net.nodes n).request blockReplica BlockManager.sizeofBlock
          (pickAmong blockReplica n machines) src msg with
        | .ok (node, sends) => some ((net.without n ((net.inFlight n).erase (src, msg))).act n node sends)
        | .error _ => none
      else none
  | .askCopy n k =>
      match (net.nodes n).replicas[k]? with
      | some task =>
          match task.candidate with
          | m :: _ =>
              if task.asked then none
              else some (net.act n { net.nodes n with
                  replicas := (net.nodes n).replicas.set k { task with asked := true } }
                [(.machine m, .copyBlockFromRemote task.block)])
          | [] => none
      | none => none
  | .takeCopy n k =>
      match (net.nodes n).replicas[k]? with
      | some task =>
          match task.candidate with
          | m :: rest =>
              if task.asked ∧ (m, .blockACK task.block) ∈ net.inFlight n then
                some ((net.without n ((net.inFlight n).erase (m, .blockACK task.block))).act n
                  ((net.nodes n).addCandidate blockReplica k task m rest) [])
              else none
          | [] => none
      | none => none
  | .finish n k =>
      match (net.nodes n).replicas[k]? with
      | some task =>
          match task.candidate with
          | [] => some (net.act n ((net.nodes n).finishReplica k task).1
              ((net.nodes n).finishReplica k task).2)
          | _ :: _ => none
      | none => none
  | .load n k =>
      match (net.nodes n).copies[k]? with
      | some task =>
          match task.data, (net.nodes task.src).files task.block with
          | none, some content => some (net.act n { net.nodes n with
              copies := (net.nodes n).copies.set k
                { task with data := some (BlockManager.loadFile content) } } [])
          | _, _ => none
      | none => none
  | .store n k opens =>
      match (net.nodes n).copies[k]? with
      | some task =>
          match task.data with
          | some data =>
              let saved : BlockID × BlockNode :=
                { net.nodes n with copies := (net.nodes n).copies.eraseIdx k }.saveBlock
                  blockReplica n opens data task.block
              some (net.act n saved.2
                (if saved.1 = 0 then [] else [(.machine task.src, .blockACK task.block)]))
          | none => none
      | none => none
  | _ => none

variable {blockReplica machines} {net net' : BlockNet}

theorem step_of_next {event : BlockEvent} (halive : AnswersAmong machines event)
    (hnext : net.next blockReplica machines event = some net') :
    BlockStep blockReplica net event net' := by
  have hcons {n : MachineID} {sent : MachineID × BlockMessage} (hmem : sent ∈ net.inFlight n) :
      net.inFlight n = sent ::ₘ (net.inFlight n).erase sent := (Multiset.cons_erase hmem).symm
  cases event with
  | askRemote n id =>
      obtain rfl := Option.some.inj hnext
      exact .askRemote n id
  | check n id alive =>
      dsimp only [next] at hnext
      split at hnext
      next attr hlocal hremote =>
        split at hnext
        next hall =>
          obtain rfl := Option.some.inj hnext
          refine .check n id attr alive hlocal hremote fun m hm => ?_
          have hmachine := List.all_eq_true.mp hall m (halive m hm)
          rw [hm, Bool.not_true, Bool.false_or, Bool.and_eq_true, bne_iff_ne,
            Option.isSome_iff_ne_none] at hmachine
          exact hmachine
        next => exact absurd hnext (by simp)
      next => exact absurd hnext (by simp)
  | checkAll n id =>
      dsimp only [next] at hnext
      split at hnext
      next => exact absurd hnext (by simp)
      next attr hlocal =>
        split at hnext
        next node hrun =>
          obtain rfl := Option.some.inj hnext
          exact .checkAll n id attr _ node hlocal (picks_pickAmong _ _ _) hrun
        next => exact absurd hnext (by simp)
  | delete n id =>
      obtain rfl := Option.some.inj hnext
      exact .delete n id _ _ _ (BlockNode.deleteBlock_eq (Nat.le_refl _) n _ id)
  | deliver n src msg =>
      dsimp only [next] at hnext
      split at hnext
      next hmem =>
        split at hnext
        next node sends hrun =>
          obtain rfl := Option.some.inj hnext
          exact .deliver n src msg _ _ _ node sends (hcons hmem) (picks_pickAmong _ _ _) hrun
        next => exact absurd hnext (by simp)
      next => exact absurd hnext (by simp)
  | askCopy n k =>
      dsimp only [next] at hnext
      split at hnext
      next task htask =>
        split at hnext
        next m rest hcandidate =>
          split at hnext
          next => exact absurd hnext (by simp)
          next hasked =>
            obtain rfl := Option.some.inj hnext
            exact .askCopy n k task m rest htask hcandidate (Bool.eq_false_iff.mpr hasked)
        next => exact absurd hnext (by simp)
      next => exact absurd hnext (by simp)
  | takeCopy n k =>
      dsimp only [next] at hnext
      split at hnext
      next task htask =>
        split at hnext
        next m rest hcandidate =>
          split at hnext
          next hcase =>
            obtain rfl := Option.some.inj hnext
            exact .takeCopy n k task m rest _ htask hcandidate hcase.1 (hcons hcase.2)
          next => exact absurd hnext (by simp)
        next => exact absurd hnext (by simp)
      next => exact absurd hnext (by simp)
  | finish n k =>
      dsimp only [next] at hnext
      split at hnext
      next task htask =>
        split at hnext
        next hcandidate =>
          obtain rfl := Option.some.inj hnext
          exact .finish n k task htask hcandidate
        next => exact absurd hnext (by simp)
      next => exact absurd hnext (by simp)
  | load n k =>
      dsimp only [next] at hnext
      split at hnext
      next task htask =>
        split at hnext
        next content hdata hfile =>
          obtain rfl := Option.some.inj hnext
          exact .load n k task content htask hdata hfile
        next => exact absurd hnext (by simp)
      next => exact absurd hnext (by simp)
  | store n k opens =>
      dsimp only [next] at hnext
      split at hnext
      next task htask =>
        split at hnext
        next data hdata =>
          obtain rfl := Option.some.inj hnext
          exact .store n k opens task data _ _ htask hdata rfl
        next => exact absurd hnext (by simp)
      next => exact absurd hnext (by simp)
  | _ => exact absurd hnext (by simp [next])

/-- Computed steps that all meet a condition. -/
theorem steps_of_next {guard : BlockNet → BlockEvent → Prop} {machines : List MachineID}
    {events : List BlockEvent}
    (halive : ∀ event ∈ events, AnswersAmong machines event)
    (hguard : ∀ event ∈ events, ∀ net, guard net event)
    (hfold : events.foldlM (next blockReplica machines) net = some net') :
    ((blockSystem blockReplica).restrict guard).Steps net events net' :=
  System.steps_of_foldlM (fun event hevent before _ hnext =>
    ⟨hguard event hevent before, step_of_next (halive event hevent) hnext⟩) hfold

end BlockNet

end Doopey
