import Doopey.Foundation.Runs
import Doopey.Block.BlockNode

/-!
# Asking the other machines for a block

`askRemoteBlock` sends its requests and waits for a lock that it holds itself. An
answer releases the lock, and so does the alarm. All calls share one lock, and an
answer does not tell for which call it comes: the answers that are late wake the
next call, which then finds nothing.
-/

namespace Doopey

open Foundation

/-- How far a call of `askRemoteBlock` is. -/
inductive AskStage
  | idle
  /-- The requests are sent. -/
  | asked (id : BlockID)
  /-- The lock is taken once. -/
  | waiting (id : BlockID)
  /-- The lock is taken once more. -/
  | woken (id : BlockID)
  | unlocked (id : BlockID)
  /-- The alarm is off. -/
  | ending (id : BlockID)

/-- The block that the call is about. -/
def AskStage.block : AskStage → Option BlockID
  | idle => none
  | asked id | waiting id | woken id | unlocked id | ending id => some id

/-- The end of a call: what it returned, and whether its alarm went off. -/
structure AskResult where
  block : BlockID
  found : Option Nat
  timedOut : Bool

/-- A machine that asks, with the lock `_remote_ask_lock`, the alarm, and the
number of handlers of answers that have yet to release the lock. -/
structure AskNode where
  node : BlockNode
  lock : Bool
  stage : AskStage
  alarm : Bool
  timedOut : Bool
  acking : Nat
  results : List AskResult

/-- What can happen on a machine that asks. -/
inductive AskEvent
  /-- The steps of `askRemoteBlock`. -/
  | ask (id : BlockID)
  | lock
  | lockAgain
  | unlock
  | stopAlarm
  | find
  /-- `BlockResolver::timeout` -/
  | timeout
  /-- `handleRequestBlockLocationACK` enters the machines, and releases the lock. -/
  | ack (data : Bytes)
  | ackUnlock

/-- The steps of a machine that asks. -/
inductive AskStep (blockReplica : UInt64) (state : AskNode) : AskEvent → AskNode → Prop
  | ask (id : BlockID) (hstage : state.stage = .idle) :
      AskStep blockReplica state (.ask id)
        { state with stage := .asked id, alarm := true, timedOut := false }
  | lock (id : BlockID) (hstage : state.stage = .asked id) (hlock : state.lock = false) :
      AskStep blockReplica state .lock { state with stage := .waiting id, lock := true }
  | lockAgain (id : BlockID) (hstage : state.stage = .waiting id) (hlock : state.lock = false) :
      AskStep blockReplica state .lockAgain { state with stage := .woken id, lock := true }
  | unlock (id : BlockID) (hstage : state.stage = .woken id) :
      AskStep blockReplica state .unlock { state with stage := .unlocked id, lock := false }
  | stopAlarm (id : BlockID) (hstage : state.stage = .unlocked id) :
      AskStep blockReplica state .stopAlarm { state with stage := .ending id, alarm := false }
  | find (id : BlockID) (hstage : state.stage = .ending id) :
      AskStep blockReplica state .find
        { state with
          stage := .idle
          results := ⟨id, state.node.remoteIDs[id]?, state.timedOut⟩ :: state.results }
  | timeout (halarm : state.alarm = true) :
      AskStep blockReplica state .timeout
        { state with lock := false, alarm := false, timedOut := true }
  | ack (data : Bytes) (node : BlockNode)
      (hrun : state.node.handleRequestBlockLocationACK blockReplica data = .ok node) :
      AskStep blockReplica state (.ack data)
        { state with
          node := node
          acking := if data = [] then state.acking else state.acking + 1 }
  | ackUnlock (acking : Nat) (hacking : state.acking = acking + 1) :
      AskStep blockReplica state .ackUnlock { state with lock := false, acking := acking }

/-- A machine on which no call is running yet. -/
def askSystem (blockReplica : UInt64) : System AskNode AskEvent where
  init state := ∃ node, state = ⟨node, false, .idle, false, false, 0, []⟩
  step := AskStep blockReplica

/-- An answer does not evict what is known about the block. -/
def BlockNode.Spares (node : BlockNode) (data : Bytes) (id : BlockID) : Prop :=
  ∀ other machines, readLocation data = .ok (other, machines) →
    node.remoteIDs[other]? = none → remoteSizeMax ≤ node.remoteIDs.size →
      node.remoteIDs[id]? ≠ none → node.cleanCache.remoteIDs[id]? ≠ none

namespace AskNode

/-- As long as the alarm of a call has not gone off, its wait is ended only when
the block has been entered, and the block is not evicted again. -/
def Minds (state : AskNode) : AskEvent → Prop
  | .ackUnlock => ∀ id, state.stage = .waiting id → state.timedOut = false →
      state.node.remoteIDs[id]? ≠ none
  | .ack data => ∀ id, state.stage.block = some id → state.timedOut = false →
      state.node.Spares data id
  | _ => True

/-- What the call waits for has happened. -/
def Answered (state : AskNode) (id : BlockID) : Prop :=
  state.timedOut = true ∨ state.node.remoteIDs[id]? ≠ none

/-- A call that no longer waits is answered. -/
structure Patient (state : AskNode) : Prop where
  waiting {id : BlockID} : state.stage = .waiting id → state.lock = false → state.Answered id
  woken {id : BlockID} : state.stage = .woken id → state.Answered id
  unlocked {id : BlockID} : state.stage = .unlocked id → state.Answered id
  ending {id : BlockID} : state.stage = .ending id → state.Answered id
  results {result : AskResult} : result ∈ state.results → result.found = none →
    result.timedOut = true

end AskNode

/-- What is known about a block stays known when an answer spares it. -/
theorem BlockNode.Spares.remoteIDs_ne {blockReplica : UInt64} {node node' : BlockNode}
    {data : Bytes} {id : BlockID} (h : node.Spares data id)
    (hrun : node.handleRequestBlockLocationACK blockReplica data = .ok node')
    (hknown : node.remoteIDs[id]? ≠ none) : node'.remoteIDs[id]? ≠ none := by
  unfold handleRequestBlockLocationACK at hrun
  split at hrun
  next =>
    rw [← Except.ok.inj hrun]
    exact hknown
  next =>
    obtain ⟨⟨other, machines⟩, hread, hrun⟩ := bind_eq_ok_iff.mp hrun
    dsimp only at hrun
    split at hrun
    next => exact absurd hrun (by simp)
    next m rest =>
      split at hrun
      next =>
        rw [← Except.ok.inj hrun]
        exact hknown
      next hnone =>
        have hcleaned : (if remoteSizeMax ≤ node.remoteIDs.size then node.cleanCache
            else node).remoteIDs[id]? ≠ none := by
          split
          next hfull => exact h other _ hread hnone hfull hknown
          next => exact hknown
        rw [← Except.ok.inj hrun]
        change (Std.TreeMap.insert _ other _)[id]? ≠ none
        rw [Std.TreeMap.getElem?_insert]
        split
        next => exact Option.some_ne_none _
        next => exact hcleaned

namespace AskNode

variable {blockReplica : UInt64} {state after : AskNode}

theorem Answered.of_not_timedOut {id : BlockID}
    (h : state.timedOut = false → state.node.remoteIDs[id]? ≠ none) : state.Answered id := by
  unfold Answered
  cases htimedOut : state.timedOut with
  | true => exact Or.inl rfl
  | false => exact Or.inr (h htimedOut)

theorem Answered.ack {id : BlockID} (h : state.Answered id) {data : Bytes} {node : BlockNode}
    (hrun : state.node.handleRequestBlockLocationACK blockReplica data = .ok node)
    (hspares : state.timedOut = false → state.node.Spares data id) :
    state.timedOut = true ∨ node.remoteIDs[id]? ≠ none := by
  cases htimedOut : state.timedOut with
  | true => exact Or.inl rfl
  | false =>
      apply Or.inr
      apply (hspares htimedOut).remoteIDs_ne hrun
      exact h.resolve_left (by simp [htimedOut])

theorem Patient.step (h : state.Patient) {event : AskEvent} (hminds : state.Minds event)
    (hstep : AskStep blockReplica state event after) : after.Patient := by
  cases hstep with
  | ask id hstage => exact ⟨nofun, nofun, nofun, nofun, h.results⟩
  | lock id hstage hlock => exact ⟨nofun, nofun, nofun, nofun, h.results⟩
  | lockAgain id hstage hlock =>
      refine ⟨nofun, fun heq => ?_, nofun, nofun, h.results⟩
      rw [← AskStage.woken.inj heq]
      exact h.waiting hstage hlock
  | unlock id hstage =>
      refine ⟨nofun, nofun, fun heq => ?_, nofun, h.results⟩
      rw [← AskStage.unlocked.inj heq]
      exact h.woken hstage
  | stopAlarm id hstage =>
      refine ⟨nofun, nofun, nofun, fun heq => ?_, h.results⟩
      rw [← AskStage.ending.inj heq]
      exact h.unlocked hstage
  | find id hstage =>
      refine ⟨nofun, nofun, nofun, nofun, fun {result} hmem hfound => ?_⟩
      rcases List.mem_cons.mp hmem with rfl | hold
      · exact (h.ending hstage).resolve_right (not_not_intro hfound)
      · exact h.results hold hfound
  | timeout halarm =>
      exact ⟨fun _ _ => Or.inl rfl, fun _ => Or.inl rfl, fun _ => Or.inl rfl, fun _ => Or.inl rfl,
        h.results⟩
  | ack data node hrun =>
      have hspares (id : BlockID) (hblock : state.stage.block = some id) (hold : state.Answered id) :=
        hold.ack hrun (hminds id hblock)
      refine ⟨fun {id} hstage hlock => ?_, fun {id} hstage => ?_, fun {id} hstage => ?_,
        fun {id} hstage => ?_, h.results⟩
      · exact hspares id (congrArg AskStage.block hstage) (h.waiting hstage hlock)
      · exact hspares id (congrArg AskStage.block hstage) (h.woken hstage)
      · exact hspares id (congrArg AskStage.block hstage) (h.unlocked hstage)
      · exact hspares id (congrArg AskStage.block hstage) (h.ending hstage)
  | ackUnlock acking hacking =>
      exact ⟨fun {id} hstage _ => .of_not_timedOut (hminds id hstage), h.woken, h.unlocked, h.ending,
        h.results⟩

theorem invariant_patient : ((askSystem blockReplica).restrict Minds).Invariant Patient where
  init hinit := by
    obtain ⟨node, rfl⟩ := hinit
    exact ⟨nofun, nofun, nofun, nofun, fun hmem => absurd hmem List.not_mem_nil⟩
  step h hstep := h.step hstep.1 hstep.2

/-- Where no answer for another block ends a wait or evicts what was answered, a call
finds nothing only if its alarm went off. -/
theorem timedOut_of_run {events : List AskEvent}
    (hrun : ((askSystem blockReplica).restrict Minds).Run events state) :
    ∀ result ∈ state.results, result.found = none → result.timedOut = true :=
  fun _ hmem hfound => (invariant_patient.run hrun).results hmem hfound

/-- No machine answers, and the alarm ends the call. -/
theorem timedOut_of_run_example :
    ∃ state, ((askSystem 2).restrict Minds).Run
        [.ask 1, .lock, .timeout, .lockAgain, .unlock, .stopAlarm, .find] state ∧
      ∃ result ∈ state.results, result.found = none ∧ result.timedOut = true := by
  have hrun : ((askSystem 2).restrict Minds).Run
      [.ask 1, .lock, .timeout, .lockAgain, .unlock, .stopAlarm, .find]
      ⟨.empty, false, .idle, false, true, 0, [⟨1, none, true⟩]⟩ := by
    refine ⟨⟨.empty, false, .idle, false, false, 0, []⟩, ⟨.empty, rfl⟩, ?_⟩
    apply System.Steps.cons
    · exact ⟨trivial, AskStep.ask 1 rfl⟩
    apply System.Steps.cons
    · exact ⟨trivial, AskStep.lock 1 rfl rfl⟩
    apply System.Steps.cons
    · exact ⟨trivial, AskStep.timeout rfl⟩
    apply System.Steps.cons
    · exact ⟨trivial, AskStep.lockAgain 1 rfl rfl⟩
    apply System.Steps.cons
    · exact ⟨trivial, AskStep.unlock 1 rfl⟩
    apply System.Steps.cons
    · exact ⟨trivial, AskStep.stopAlarm 1 rfl⟩
    apply System.Steps.cons
    · exact ⟨trivial, AskStep.find 1 rfl⟩
    exact .nil _
  exact ⟨_, hrun, _, List.mem_cons_self, rfl,
    timedOut_of_run hrun ⟨1, none, true⟩ List.mem_cons_self rfl⟩

/-! ## Late answers -/

/-- A call that is woken by the first answer that comes, whatever block it is for. -/
theorem steps_query {node node' : BlockNode} (timedOut : Bool) (results : List AskResult)
    (id : BlockID) {data : Bytes} (hdata : data ≠ [])
    (hrun : node.handleRequestBlockLocationACK blockReplica data = .ok node') :
    (askSystem blockReplica).Steps ⟨node, false, .idle, false, timedOut, 0, results⟩
      [.ask id, .lock, .ack data, .ackUnlock, .lockAgain, .unlock, .stopAlarm, .find]
      ⟨node', false, .idle, false, false, 0, ⟨id, node'.remoteIDs[id]?, false⟩ :: results⟩ := by
  have hack := @AskStep.ack blockReplica ⟨node, true, .waiting id, true, false, 0, results⟩ data
    node' hrun
  rw [if_neg hdata] at hack
  apply System.Steps.cons
  · exact AskStep.ask id rfl
  apply System.Steps.cons
  · exact AskStep.lock id rfl rfl
  -- the answer comes between the two locks
  apply System.Steps.cons
  · exact hack
  apply System.Steps.cons
  · exact AskStep.ackUnlock 0 rfl
  apply System.Steps.cons
  · exact AskStep.lockAgain id rfl rfl
  apply System.Steps.cons
  · exact AskStep.unlock id rfl
  apply System.Steps.cons
  · exact AskStep.stopAlarm id rfl
  apply System.Steps.cons
  · exact AskStep.find id rfl
  exact .nil _

/-- An answer of one machine for a block. -/
theorem exists_ack (node : BlockNode) (hfew : node.remoteIDs.size < remoteSizeMax) (id : BlockID)
    (m : MachineID) :
    ∃ node', node.handleRequestBlockLocationACK blockReplica (locationData id [m]) = .ok node' ∧
      (∀ other, other ≠ id → node'.remoteIDs[other]? = node.remoteIDs[other]?) ∧
      node'.remoteIDs.size ≤ node.remoteIDs.size + 1 := by
  have hne : locationData id [m] ≠ [] := by
    apply List.append_ne_nil_of_left_ne_nil
    exact List.ne_nil_of_length_pos (by rw [length_bytesOf]; decide)
  unfold BlockNode.handleRequestBlockLocationACK
  rw [if_neg hne, readLocation_locationData, ok_bind]
  dsimp only
  cases hknown : node.remoteIDs[id]? with
  | some attr => exact ⟨_, rfl, fun _ _ => rfl, Nat.le_succ _⟩
  | none =>
      rw [if_neg (Nat.not_le.mpr hfew)]
      refine ⟨_, rfl, fun other hother => ?_, Std.TreeMap.size_insert_le⟩
      change (node.remoteIDs.insert id _)[other]? = _
      rw [Std.TreeMap.getElem?_insert, if_neg]
      exact fun heq => hother (Std.LawfulEqCmp.eq_of_compare heq).symm

/-- Two machines answer a call for block 1. The second answer wakes a call for
block 2, which finds nothing although its alarm has not gone off. -/
theorem exists_run_not_found :
    ∃ events state, (askSystem 2).Run events state ∧
      ∃ result ∈ state.results, result.block = 2 ∧ result.found = none ∧ result.timedOut = false := by
  have hdata (m : MachineID) : locationData 1 [m] ≠ [] := by
    apply List.append_ne_nil_of_left_ne_nil
    exact List.ne_nil_of_length_pos (by rw [length_bytesOf]; decide)
  obtain ⟨node, hfirst, hsame, hsize⟩ := @exists_ack 2 .empty (by decide) 1 2
  obtain ⟨node', hsecond, hsame', -⟩ := @exists_ack 2 node (Nat.lt_of_le_of_lt hsize (by decide)) 1 3
  have hnone : node'.remoteIDs[(2 : BlockID)]? = none := by
    rw [hsame' 2 (by decide), hsame 2 (by decide)]
    rfl
  have hsteps := steps_query false [] 1 (hdata 2) hfirst
  have hsteps' := steps_query false [⟨1, node.remoteIDs[(1 : BlockID)]?, false⟩] 2 (hdata 3) hsecond
  exact ⟨_, _, ⟨_, ⟨.empty, rfl⟩, hsteps.append hsteps'⟩, _, List.mem_cons_self, rfl, hnone, rfl⟩

end AskNode

end Doopey
