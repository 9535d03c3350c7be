import Doopey.Common.TaskPool
import Doopey.Foundation.Components

/-!
# The loop of the dispatcher

`mainLoop` accepts one connection after the other, and gives each to the first of its
`TaskThread`s that is free; if there is none, the connection is turned away. The workers
take their statements while the loop takes its own.

Once nothing is left to do, the connections that arrived are those that were turned away
and those that the workers were called for, each once, exactly if every step of a worker
and of the loop was in time.
-/

namespace Doopey

open Foundation

/-- Where `mainLoop` is. -/
inductive LoopStage (n : Nat) (α : Type*)
  | accepts
  /-- At the head of the `for` loop. -/
  | scans (conn : α) (i : Nat)
  /-- Behind `isFree`, in front of the check in `runTask`. -/
  | tries (conn : α) (i : Fin n)
  /-- In `runTask`, behind the check. -/
  | hands (i : Fin n)
deriving DecidableEq

/-- The `n` workers of a dispatcher, and its loop. `arrived` are the connections that it has
accepted, `turnedAway` those that it has found no worker for. -/
structure WorkerPool (n : Nat) (φ α : Type*) where
  threadPool : Fin n → TaskThread φ α
  loop : LoopStage n α
  arrived : List α
  turnedAway : List α

/-- What happens in a dispatcher. -/
inductive PoolEvent (n : Nat) (α : Type*)
  /-- `accept` returns a connection. -/
  | accept (conn : α)
  /-- The loop takes its next statement. -/
  | loop
  /-- A worker takes its next statement. -/
  | work (i : Fin n)

namespace WorkerPool

variable {n : Nat} {φ α : Type*}

/-- The arguments of `dispatch`: the dispatcher, the connection and `NULL`. -/
def arguments (this conn : α) : Argument → Option α
  | .obj => some this
  | .input => some conn
  | .output => none

/-- `isFree` of the next worker, or the end of the `for` loop. -/
def look (state : WorkerPool n φ α) (conn : α) (i : Nat) : WorkerPool n φ α :=
  if hi : i < n then
    { state with loop := if (state.threadPool ⟨i, hi⟩).free then .tries conn ⟨i, hi⟩
        else .scans conn (i + 1) }
  else { state with loop := .accepts, turnedAway := state.turnedAway ++ [conn] }

/-- The check in `runTask`. -/
def tryTask (this : α) (state : WorkerPool n φ α) (conn : α) (i : Fin n) : WorkerPool n φ α :=
  let thread := state.threadPool i
  { state with
    threadPool := Function.update state.threadPool i (thread.runTask (arguments this conn))
    loop := if thread.accepts then .hands i else .scans conn (i + 1) }

/-- The loop goes on once `runTask` returns. -/
def afterCall (i : Fin n) : CallerStage φ α → LoopStage n α
  | .idle => .accepts
  | _ => .hands i

/-- One step of the dispatcher `this`. -/
inductive Step (this : α) (state : WorkerPool n φ α) :
    PoolEvent n α → WorkerPool n φ α → Prop
  | accept (conn : α) (hloop : state.loop = .accepts) :
      Step this state (.accept conn)
        { state with loop := .scans conn 0, arrived := state.arrived ++ [conn] }
  | look {conn : α} {i : Nat} (hloop : state.loop = .scans conn i) :
      Step this state .loop (state.look conn i)
  | tryTask {conn : α} {i : Fin n} (hloop : state.loop = .tries conn i) :
      Step this state .loop (state.tryTask this conn i)
  | call {i : Fin n} {thread : TaskThread φ α} (hloop : state.loop = .hands i)
      (hcall : (state.threadPool i).call = some thread) :
      Step this state .loop { state with
        threadPool := Function.update state.threadPool i thread
        loop := afterCall i thread.caller }
  | work {i : Fin n} {thread : TaskThread φ α} (hwork : (state.threadPool i).work = some thread) :
      Step this state (.work i) { state with
        threadPool := Function.update state.threadPool i thread }

/-- The step that an event leads to, if it can happen. -/
def next (this : α) (state : WorkerPool n φ α) : PoolEvent n α → Option (WorkerPool n φ α)
  | .accept conn => match state.loop with
      | .accepts => some
          { state with loop := .scans conn 0, arrived := state.arrived ++ [conn] }
      | _ => none
  | .loop => match state.loop with
      | .accepts => none
      | .scans conn i => some (state.look conn i)
      | .tries conn i => some (state.tryTask this conn i)
      | .hands i => (state.threadPool i).call.map fun thread =>
          { state with
            threadPool := Function.update state.threadPool i thread
            loop := afterCall i thread.caller }
  | .work i => (state.threadPool i).work.map fun thread =>
      { state with threadPool := Function.update state.threadPool i thread }

theorem step_of_next {this : α} {state after : WorkerPool n φ α} {event : PoolEvent n α}
    (hnext : state.next this event = some after) : Step this state event after := by
  unfold next at hnext
  cases event with
  | accept conn =>
      dsimp only at hnext
      split at hnext
      next haccepts =>
        obtain rfl := Option.some.inj hnext
        exact .accept conn haccepts
      next => exact nomatch hnext
  | loop =>
      dsimp only at hnext
      split at hnext
      next => exact nomatch hnext
      next hscans =>
        obtain rfl := Option.some.inj hnext
        exact .look hscans
      next htries =>
        obtain rfl := Option.some.inj hnext
        exact .tryTask htries
      next hhands =>
        obtain ⟨thread, hcall, rfl⟩ := Option.map_eq_some_iff.mp hnext
        exact .call hhands hcall
  | work i =>
      obtain ⟨thread, hwork, rfl⟩ := Option.map_eq_some_iff.mp hnext
      exact .work hwork

/-- The step of the worker or of `runTask` is in time. -/
def InTime (state : WorkerPool n φ α) : PoolEvent n α → Prop
  | .accept _ => True
  | .loop => ∀ i, state.loop = .hands i → (state.threadPool i).InTime .call
  | .work i => (state.threadPool i).InTime .work

/-- The loop waits for a connection, and the workers have nothing left to do. -/
def Quiet (state : WorkerPool n φ α) : Prop :=
  state.loop = .accepts ∧ ∀ i, (state.threadPool i).work = none

/-- The call for a connection. -/
def callOf (dispatch : φ) (this conn : α) : Call φ α := ⟨some dispatch, arguments this conn⟩

end WorkerPool

/-- The dispatcher `this`, whose workers run `dispatch`. -/
def poolSystem (n : Nat) {φ α : Type*} (dispatch : φ) (this : α) :
    System (WorkerPool n φ α) (PoolEvent n α) where
  init state := ∃ args : Fin n → Argument → Option α,
    state = ⟨fun i => .create (some dispatch) (args i), .accepts, [], []⟩
  step := WorkerPool.Step this

namespace WorkerPool

variable {n : Nat} {φ α : Type*} {dispatch : φ} {this : α}

/-- The workers that are not handed a task have their caller elsewhere. -/
def CallersIdle (state : WorkerPool n φ α) : Prop :=
  ∀ i, state.loop ≠ .hands i → (state.threadPool i).caller = .idle

theorem invariant_callersIdle : (poolSystem n dispatch this).Invariant CallersIdle where
  init h := by
    obtain ⟨args, rfl⟩ := h
    exact fun _ _ => rfl
  step {before after label} h hstep := by
    intro j hloop
    cases hstep with
    | accept conn haccepts => exact h j (by simp [haccepts])
    | @look conn i hscans =>
        have hidle := h j (by simp [hscans])
        unfold look
        split
        · exact hidle
        · exact hidle
    | @tryTask conn i htries =>
        have hidle (j : Fin n) : (before.threadPool j).caller = .idle := h j (by simp [htries])
        simp only [tryTask, TaskThread.runTask, Function.update_apply] at hloop ⊢
        by_cases haccepts : (before.threadPool i).accepts = true
        · rw [if_pos haccepts] at hloop
          rw [if_neg fun heq => hloop (by rw [heq])]
          exact hidle j
        · rw [if_neg haccepts]
          split
          · exact hidle i
          · exact hidle j
    | @call i thread hhands hcall =>
        simp only [Function.update_apply] at hloop ⊢
        split
        next heq =>
          subst heq
          cases hcaller : thread.caller <;> simp [afterCall, hcaller] at hloop
          rfl
        next hne => exact h j (by simpa [hhands] using fun heq : i = j => hne heq.symm)
    | @work i thread hwork =>
        have hidle := h j hloop
        simp only [Function.update_apply]
        split
        next heq =>
          subst heq
          exact (TaskThread.work_frame hwork).2.1.trans hidle
        next => exact hidle

/-- A dispatcher is composed of its workers. -/
def composed : (poolSystem n dispatch this).Composed InTime (taskSystem φ α) TaskThread.InTime
    threadPool where
  inv := CallersIdle
  invariant := invariant_callersIdle
  init h i := by
    obtain ⟨args, rfl⟩ := h
    exact ⟨some dispatch, args i, rfl⟩
  step {before after label} h hstep := by
    cases hstep with
    | accept => exact Or.inl ⟨rfl, trivial⟩
    | @look conn i hscans =>
        refine Or.inl ⟨?_, by simp [InTime, hscans]⟩
        unfold look
        split <;> rfl
    | @tryTask conn i htries =>
        refine Or.inr ⟨i, .runTask (arguments this conn), ?_, fun j hj => ?_, ?_⟩
        · simp only [tryTask, Function.update_self]
          exact .runTask _ (h i (by simp [htries]))
        · exact Function.update_of_ne hj _ _
        · simp [InTime, htries, TaskThread.InTime, TaskThread.Wakes]
    | @call i thread hhands hcall =>
        refine Or.inr ⟨i, .call, ?_, fun j hj => ?_, ?_⟩
        · simp only [Function.update_self]
          exact .call hcall
        · exact Function.update_of_ne hj _ _
        · simp [InTime, hhands]
    | @work i thread hwork =>
        refine Or.inr ⟨i, .work, ?_, fun j hj => ?_, Iff.rfl⟩
        · simp only [Function.update_self]
          exact .work hwork
        · exact Function.update_of_ne hj _ _

/-! ## What becomes of a connection -/

/-- The connection that the loop is looking for a worker for. -/
def inLoop (state : WorkerPool n φ α) : List α :=
  match state.loop with
  | .scans conn _ | .tries conn _ => [conn]
  | _ => []

/-- The connections that have arrived are turned away, in the loop or accepted by a worker. -/
structure Counted (dispatch : φ) (this : α) (state : WorkerPool n φ α) : Prop where
  idle : state.CallersIdle
  tasks (i : Fin n) : (state.threadPool i).task = some dispatch
  calls : (state.arrived.map (callOf dispatch this) : Multiset (Call φ α)) =
    (state.turnedAway ++ state.inLoop).map (callOf dispatch this) +
      ∑ i, ((state.threadPool i).accepted : Multiset (Call φ α))

theorem invariant_counted : (poolSystem n dispatch this).Invariant (Counted dispatch this) where
  init h := by
    obtain ⟨args, rfl⟩ := h
    exact ⟨fun _ _ => rfl, fun _ => rfl, by simp [inLoop, TaskThread.create]⟩
  step {before after label} h hstep := by
    have hidle := invariant_callersIdle.step h.idle hstep
    have hcalls := h.calls
    cases hstep with
    | accept conn haccepts =>
        refine ⟨hidle, h.tasks, ?_⟩
        simp only [inLoop, haccepts, List.append_nil, List.map_append, ← Multiset.coe_add] at hcalls ⊢
        rw [hcalls, add_right_comm]
    | @look conn i hscans =>
        unfold look at hidle ⊢
        split
        next hi =>
          rw [dif_pos hi] at hidle
          refine ⟨hidle, h.tasks, ?_⟩
          rw [hcalls]
          cases hfree : (before.threadPool ⟨i, hi⟩).free <;> simp [inLoop, hscans]
        next hi =>
          rw [dif_neg hi] at hidle
          refine ⟨hidle, h.tasks, ?_⟩
          rw [hcalls]
          simp [inLoop, hscans]
    | @tryTask conn i htries =>
        have htasks (j : Fin n) : ((before.tryTask this conn i).threadPool j).task = some dispatch := by
          simp only [tryTask, Function.update_apply, TaskThread.runTask]
          split
          · split
            · exact h.tasks i
            · exact h.tasks i
          · exact h.tasks j
        refine ⟨hidle, htasks, ?_⟩
        simp only [inLoop, htries] at hcalls
        by_cases haccepts : (before.threadPool i).accepts = true
        · have haccepted : ((before.threadPool i).runTask (arguments this conn)).accepted =
              (before.threadPool i).accepted ++ [callOf dispatch this conn] := by
            rw [TaskThread.runTask, if_pos haccepts, h.tasks i]
            rfl
          simp only [tryTask, inLoop, haccepts, if_true, List.append_nil]
          rw [TaskThread.sum_accepted_update _ _ _ haccepted, hcalls, List.map_append, ← Multiset.coe_add,
            add_right_comm, add_assoc]
          rfl
        · have haccepted : ((before.threadPool i).runTask (arguments this conn)).accepted =
              (before.threadPool i).accepted := by
            rw [TaskThread.runTask, if_neg haccepts]
          simp only [tryTask, inLoop, haccepts]
          rw [TaskThread.sum_accepted_update_of_eq _ _ _ haccepted, hcalls]
          rfl
    | @call i thread hhands hcall =>
        obtain ⟨htask, haccepted, -⟩ := TaskThread.call_frame hcall
        refine ⟨hidle, fun j => ?_, ?_⟩
        · simp only [Function.update_apply]
          split
          · exact htask.trans (h.tasks i)
          · exact h.tasks j
        · simp only [inLoop, hhands] at hcalls
          dsimp only
          rw [TaskThread.sum_accepted_update_of_eq _ _ _ haccepted, hcalls]
          cases thread.caller <;> rfl
    | @work i thread hwork =>
        obtain ⟨htask, -, haccepted, -⟩ := TaskThread.work_frame hwork
        refine ⟨hidle, fun j => ?_, ?_⟩
        · simp only [Function.update_apply]
          split
          · exact htask.trans (h.tasks i)
          · exact h.tasks j
        · dsimp only
          rw [TaskThread.sum_accepted_update_of_eq _ _ _ haccepted, hcalls]
          rfl

/-- Every call that is accepted is one for a connection. -/
theorem Counted.exists_conn {state : WorkerPool n φ α} (h : state.Counted dispatch this)
    {call : Call φ α} (hcall : call ∈ ∑ i, ((state.threadPool i).accepted : Multiset (Call φ α))) :
    ∃ conn, call = callOf dispatch this conn := by
  have harrived : call ∈ (state.arrived.map (callOf dispatch this) : Multiset (Call φ α)) := by
    rw [h.calls]
    exact Multiset.mem_add.mpr (Or.inr hcall)
  obtain ⟨conn, -, rfl⟩ := List.mem_map.mp (Multiset.mem_coe.mp harrived)
  exact ⟨conn, rfl⟩

/-- Once nothing is left to do, each connection that has arrived was turned away or a worker
was called for it, once and with its own arguments, exactly if every step was in time. -/
theorem served_iff {events : List (PoolEvent n α)} {state : WorkerPool n φ α}
    (hrun : (poolSystem n dispatch this).Run events state) (hquiet : state.Quiet) :
    (state.arrived.map (callOf dispatch this) : Multiset (Call φ α)) =
        state.turnedAway.map (callOf dispatch this) +
          ∑ i, ((state.threadPool i).started : Multiset (Call φ α)) ↔
      ((poolSystem n dispatch this).restrict InTime).Run events state := by
  have hcounted := invariant_counted.run hrun
  have hcalls := hcounted.calls
  simp only [inLoop, hquiet.1, List.append_nil] at hcalls
  constructor
  · intro hserved
    rw [hcalls] at hserved
    have hown := ((composed.invariant_forall TaskThread.invariant_own).run hrun).2
    have heq := TaskThread.started_eq_of_sum hown (add_left_cancel hserved).symm
      fun call hcall other hother arg hnone => by
        obtain ⟨conn, rfl⟩ := hcounted.exists_conn hcall
        obtain ⟨conn', rfl⟩ := hcounted.exists_conn hother
        cases arg
        · exact nomatch hnone
        · exact nomatch hnone
        · rfl
    obtain ⟨start, hinit, hsteps⟩ := hrun
    rcases composed.restrict_or TaskThread.Orderly TaskThread.Broken TaskThread.invariant_orderly
      (fun _ _ _ h hlate hstep => h.broken hlate hstep) (fun _ _ _ h hstep => h.step hstep)
      hsteps hinit with hsteps | ⟨i, hbroken⟩
    · exact ⟨start, hinit, hsteps⟩
    · exact absurd (heq i) hbroken.started_ne
  · intro hrestricted
    have horderly := ((composed.invariant_restrict TaskThread.invariant_orderly).run hrestricted).2
    have heq (i : Fin n) : (state.threadPool i).started = (state.threadPool i).accepted :=
      (horderly i).started_eq ⟨hcounted.idle i (by simp [hquiet.1]), hquiet.2 i⟩
    rw [hcalls]
    simp only [heq]

/-- The only worker is still busy when the second connection comes. -/
def busyServer : List (PoolEvent 1 Nat) :=
  List.replicate 3 (.work 0) ++ [.accept 7] ++ List.replicate 7 .loop ++
    [.accept 8, .loop, .loop] ++ List.replicate 8 (.work 0)

/-- The state that it ends in. -/
def servedState : Option (WorkerPool 1 Nat Nat) :=
  busyServer.foldlM (next 1) ⟨fun _ => .create (some 0) fun _ => none, .accepts, [], []⟩

theorem served_iff_example :
    ∃ state : WorkerPool 1 Nat Nat, state.arrived = [7, 8] ∧ state.turnedAway = [8] ∧
      ((state.arrived.map (callOf 0 1) : Multiset (Call Nat Nat)) =
          (state.turnedAway.map (callOf 0 1) : Multiset (Call Nat Nat)) +
            ∑ i, ((state.threadPool i).started : Multiset (Call Nat Nat)) ↔
        ((poolSystem 1 0 1).restrict InTime).Run busyServer state) := by
  have hserved : servedState.any (fun state => state.arrived = [7, 8] ∧ state.turnedAway = [8] ∧
      state.loop = .accepts ∧ (state.threadPool 0).work.isNone) = true := by decide +kernel
  obtain ⟨state, hfold, hstate⟩ := (Option.any_eq_true _ _).mp hserved
  obtain ⟨harrived, hturned, hloop, hwork⟩ := of_decide_eq_true hstate
  have hsteps : (poolSystem 1 0 1).Steps _ busyServer state :=
    System.steps_of_foldlM (fun _ _ _ _ => step_of_next) hfold
  refine ⟨state, harrived, hturned, served_iff ⟨_, ⟨_, rfl⟩, hsteps⟩ ⟨hloop, fun i => ?_⟩⟩
  obtain rfl : i = 0 := Subsingleton.elim _ _
  exact Option.isNone_iff_eq_none.mp hwork

end WorkerPool

end Doopey
