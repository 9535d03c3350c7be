import Mathlib.Tactic.Abel
import Doopey.Common.TaskPool
import Doopey.Foundation.Components

/-!
# The workers of a download

`getFile` hands the blocks of a file one after the other to the first of its `TaskThread`s
that is free, and waits while there is none. It takes no notice of what `runTask` returns.

Once nothing is left to do, `receiveBlock` has been called for every block of the file,
once, exactly if no `runTask` refused its block and every step was in time.
-/

namespace Doopey

open Foundation

/-- Where the loop over the blocks is; the blocks that are left are pointers to the
`BlockInfo` and to the place of the result. -/
inductive FetchStage (n : Nat) (α : Type*)
  /-- At the head of the inner loop. -/
  | looks (tasks : List (α × α)) (j : Nat)
  /-- Behind `isFree`, in front of the check in `runTask`. -/
  | tries (task : α × α) (tasks : List (α × α)) (j : Fin n)
  /-- In `runTask`, behind the check. -/
  | hands (tasks : List (α × α)) (j : Fin n)
deriving DecidableEq

/-- The workers of a download, and the loop that hands the blocks over. `dropped` are the
blocks that `runTask` refused. -/
structure FetchPool (n : Nat) (φ α : Type*) where
  threadPool : Fin n → TaskThread φ α
  loop : FetchStage n α
  dropped : List (α × α)

/-- What happens in a download. -/
inductive FetchEvent (n : Nat)
  /-- The loop takes its next statement. -/
  | loop
  /-- A worker takes its next statement. -/
  | work (j : Fin n)

namespace FetchPool

variable {n : Nat} {φ α : Type*}

/-- The arguments of `receiveBlock`. -/
def arguments (filename : α) (task : α × α) : Argument → Option α
  | .obj => some task.1
  | .input => some filename
  | .output => some task.2

/-- `isFree` of the next worker. Behind the last one the loop goes on with the second. -/
def look (state : FetchPool n φ α) (task : α × α) (tasks : List (α × α)) (j : Nat) :
    FetchPool n φ α :=
  { state with loop :=
      if hj : j < n then
        if (state.threadPool ⟨j, hj⟩).free then .tries task tasks ⟨j, hj⟩
        else .looks (task :: tasks) (if j = n - 1 then 1 else j + 1)
      else .looks (task :: tasks) 0 }

/-- The check in `runTask`. -/
def tryTask (filename : α) (state : FetchPool n φ α) (task : α × α) (tasks : List (α × α))
    (j : Fin n) : FetchPool n φ α :=
  let thread := state.threadPool j
  { threadPool := Function.update state.threadPool j (thread.runTask (arguments filename task))
    loop := if thread.accepts then .hands tasks j else .looks tasks 0
    dropped := if thread.accepts then state.dropped else state.dropped ++ [task] }

/-- The loop goes on once `runTask` returns. -/
def afterCall (tasks : List (α × α)) (j : Fin n) : CallerStage φ α → FetchStage n α
  | .idle => .looks tasks 0
  | _ => .hands tasks j

/-- The step that an event leads to, if it can happen. -/
def next (filename : α) (state : FetchPool n φ α) : FetchEvent n → Option (FetchPool n φ α)
  | .loop => match state.loop with
      | .looks [] _ => none
      | .looks (task :: tasks) j => some (state.look task tasks j)
      | .tries task tasks j => some (state.tryTask filename task tasks j)
      | .hands tasks j => (state.threadPool j).call.map fun thread =>
          { state with
            threadPool := Function.update state.threadPool j thread
            loop := afterCall tasks j thread.caller }
  | .work j => (state.threadPool j).work.map fun thread =>
      { state with threadPool := Function.update state.threadPool j thread }

/-- The worker that `isFree` was asked of accepts the block. -/
def Accepts (state : FetchPool n φ α) : FetchEvent n → Prop
  | .loop => ∀ task tasks j, state.loop = .tries task tasks j → (state.threadPool j).accepts = true
  | .work _ => True

/-- The step of the worker or of `runTask` is in time. -/
def InTime (state : FetchPool n φ α) : FetchEvent n → Prop
  | .loop => ∀ tasks j, state.loop = .hands tasks j → (state.threadPool j).InTime .call
  | .work j => (state.threadPool j).InTime .work

/-- No block is left, and the workers have nothing left to do. -/
def Quiet (state : FetchPool n φ α) : Prop :=
  (∃ j, state.loop = .looks [] j) ∧ ∀ j, (state.threadPool j).work = none

/-- The call for a block. -/
def callOf (receiveBlock : φ) (filename : α) (task : α × α) : Call φ α :=
  ⟨some receiveBlock, arguments filename task⟩

end FetchPool

/-- A download of `tasks` to the file `filename`, whose workers run `receiveBlock`. -/
def fetchSystem (n : Nat) {φ α : Type*} (receiveBlock : φ) (filename : α) (tasks : List (α × α)) :
    System (FetchPool n φ α) (FetchEvent n) where
  init state := ∃ args : Fin n → Argument → Option α,
    state = ⟨fun j => .create (some receiveBlock) (args j), .looks tasks 0, []⟩
  step before event after := before.next filename event = some after

namespace FetchPool

variable {n : Nat} {φ α : Type*} {receiveBlock : φ} {filename : α} {tasks : List (α × α)}

/-- What an event can lead to. -/
theorem next_cases {before after : FetchPool n φ α} {event : FetchEvent n}
    (h : before.next filename event = some after) :
    (∃ task rest j, event = .loop ∧ before.loop = .looks (task :: rest) j ∧
        after = before.look task rest j) ∨
      (∃ task rest j, event = .loop ∧ before.loop = .tries task rest j ∧
        after = before.tryTask filename task rest j) ∨
      (∃ rest j thread, event = .loop ∧ before.loop = .hands rest j ∧
        (before.threadPool j).call = some thread ∧ after = { before with
          threadPool := Function.update before.threadPool j thread
          loop := afterCall rest j thread.caller }) ∨
      ∃ j thread, event = .work j ∧ (before.threadPool j).work = some thread ∧
        after = { before with threadPool := Function.update before.threadPool j thread } := by
  cases event with
  | loop =>
      simp only [next] at h
      split at h
      next => exact nomatch h
      next task rest j hlooks =>
        exact Or.inl ⟨task, rest, j, rfl, hlooks, (Option.some.inj h).symm⟩
      next task rest j htries =>
        exact Or.inr (Or.inl ⟨task, rest, j, rfl, htries, (Option.some.inj h).symm⟩)
      next rest j hhands =>
        obtain ⟨thread, hcall, rfl⟩ := Option.map_eq_some_iff.mp h
        exact Or.inr (Or.inr (Or.inl ⟨rest, j, thread, rfl, hhands, hcall, rfl⟩))
  | work j =>
      obtain ⟨thread, hwork, rfl⟩ := Option.map_eq_some_iff.mp h
      exact Or.inr (Or.inr (Or.inr ⟨j, thread, rfl, hwork, rfl⟩))

/-- The workers that are not handed a block have their caller elsewhere. -/
def CallersIdle (state : FetchPool n φ α) : Prop :=
  ∀ j, (∀ rest, state.loop ≠ .hands rest j) → (state.threadPool j).caller = .idle

theorem invariant_callersIdle :
    (fetchSystem n receiveBlock filename tasks).Invariant CallersIdle where
  init h := by
    obtain ⟨args, rfl⟩ := h
    exact fun _ _ => rfl
  step {before after label} h hstep := by
    intro k hloop
    obtain ⟨task, rest, j, -, hlooks, rfl⟩ | ⟨task, rest, j, -, htries, rfl⟩ |
      ⟨rest, j, thread, -, hhands, hcall, rfl⟩ | ⟨j, thread, -, hwork, rfl⟩ := next_cases hstep
    · exact h k (by simp [hlooks])
    · have hidle (k : Fin n) : (before.threadPool k).caller = .idle := h k (by simp [htries])
      simp only [tryTask, TaskThread.runTask, Function.update_apply] at hloop ⊢
      by_cases haccepts : (before.threadPool j).accepts = true
      · rw [if_neg fun heq => hloop rest (by rw [if_pos haccepts, heq])]
        exact hidle k
      · rw [if_neg haccepts]
        split
        · exact hidle j
        · exact hidle k
    · simp only [Function.update_apply] at hloop ⊢
      split
      next heq =>
        subst heq
        cases hcaller : thread.caller <;> simp [afterCall, hcaller] at hloop
        rfl
      next hne =>
        exact h k fun _ heq => hne (FetchStage.hands.inj (hhands.symm.trans heq)).2.symm
    · have hidle := h k hloop
      simp only [Function.update_apply]
      split
      next heq =>
        subst heq
        exact (TaskThread.work_frame hwork).2.1.trans hidle
      next => exact hidle

/-- A download is composed of its workers. -/
def composed : (fetchSystem n receiveBlock filename tasks).Composed InTime (taskSystem φ α)
    TaskThread.InTime threadPool where
  inv := CallersIdle
  invariant := invariant_callersIdle
  init h j := by
    obtain ⟨args, rfl⟩ := h
    exact ⟨some receiveBlock, args j, rfl⟩
  step {before after label} h hstep := by
    obtain ⟨task, rest, j, rfl, hlooks, rfl⟩ | ⟨task, rest, j, rfl, htries, rfl⟩ |
      ⟨rest, j, thread, rfl, hhands, hcall, rfl⟩ | ⟨j, thread, rfl, hwork, rfl⟩ := next_cases hstep
    · exact Or.inl ⟨rfl, by simp [InTime, hlooks]⟩
    · refine Or.inr ⟨j, .runTask (arguments filename task), ?_, fun k hk => ?_, ?_⟩
      · simp only [tryTask, Function.update_self]
        exact .runTask _ (h j (by simp [htries]))
      · exact Function.update_of_ne hk _ _
      · simp [InTime, htries, TaskThread.InTime, TaskThread.Wakes]
    · refine Or.inr ⟨j, .call, ?_, fun k hk => ?_, ?_⟩
      · simp only [Function.update_self]
        exact .call hcall
      · exact Function.update_of_ne hk _ _
      · simp [InTime, hhands]
    · refine Or.inr ⟨j, .work, ?_, fun k hk => ?_, Iff.rfl⟩
      · simp only [Function.update_self]
        exact .work hwork
      · exact Function.update_of_ne hk _ _

/-! ## What becomes of a block -/

/-- The blocks that are still to be handed over. -/
def left (state : FetchPool n φ α) : List (α × α) :=
  match state.loop with
  | .looks tasks _ | .hands tasks _ => tasks
  | .tries task tasks _ => task :: tasks

/-- The blocks of the file are dropped, accepted by a worker or still to be handed over. -/
structure Counted (receiveBlock : φ) (filename : α) (tasks : List (α × α))
    (state : FetchPool n φ α) : Prop where
  idle : state.CallersIdle
  receives (j : Fin n) : (state.threadPool j).task = some receiveBlock
  calls : (tasks.map (callOf receiveBlock filename) : Multiset (Call φ α)) =
    (state.left.map (callOf receiveBlock filename) : Multiset (Call φ α)) +
      (state.dropped.map (callOf receiveBlock filename) : Multiset (Call φ α)) +
      ∑ j, ((state.threadPool j).accepted : Multiset (Call φ α))

theorem invariant_counted : (fetchSystem n receiveBlock filename tasks).Invariant
    (Counted receiveBlock filename tasks) where
  init h := by
    obtain ⟨args, rfl⟩ := h
    exact ⟨fun _ _ => rfl, fun _ => rfl, by simp [left, TaskThread.create]⟩
  step {before after label} h hstep := by
    have hidle := invariant_callersIdle.step h.idle hstep
    have hcalls := h.calls
    obtain ⟨task, rest, j, -, hlooks, rfl⟩ | ⟨task, rest, j, -, htries, rfl⟩ |
      ⟨rest, j, thread, -, hhands, hcall, rfl⟩ | ⟨j, thread, -, hwork, rfl⟩ := next_cases hstep
    · refine ⟨hidle, h.receives, ?_⟩
      have hleft : (before.look task rest j).left = before.left := by
        by_cases hj : j < n
        · cases hfree : (before.threadPool ⟨j, hj⟩).free <;> simp [left, hlooks, look, hj, hfree]
        · simp [left, hlooks, look, hj]
      rw [hleft, hcalls]
      rfl
    · have hreceives (k : Fin n) :
          ((before.tryTask filename task rest j).threadPool k).task = some receiveBlock := by
        simp only [tryTask, Function.update_apply, TaskThread.runTask]
        split
        · split
          · exact h.receives j
          · exact h.receives j
        · exact h.receives k
      refine ⟨hidle, hreceives, ?_⟩
      simp only [left, htries, List.map_cons, ← Multiset.cons_coe, ← Multiset.singleton_add] at hcalls
      by_cases haccepts : (before.threadPool j).accepts = true
      · have haccepted : ((before.threadPool j).runTask (arguments filename task)).accepted =
            (before.threadPool j).accepted ++ [callOf receiveBlock filename task] := by
          rw [TaskThread.runTask, if_pos haccepts, h.receives j]
          rfl
        simp only [tryTask, left, haccepts, if_true]
        rw [TaskThread.sum_accepted_update _ _ _ haccepted, hcalls, Multiset.coe_singleton]
        abel
      · have haccepted : ((before.threadPool j).runTask (arguments filename task)).accepted =
            (before.threadPool j).accepted := by
          rw [TaskThread.runTask, if_neg haccepts]
        simp only [tryTask, left, haccepts, Bool.false_eq_true, if_false, List.map_append,
          List.map_singleton, ← Multiset.coe_add]
        rw [TaskThread.sum_accepted_update_of_eq _ _ _ haccepted, hcalls, Multiset.coe_singleton]
        abel
    · obtain ⟨htask, haccepted, -⟩ := TaskThread.call_frame hcall
      refine ⟨hidle, fun k => ?_, ?_⟩
      · simp only [Function.update_apply]
        split
        · exact htask.trans (h.receives j)
        · exact h.receives k
      · simp only [left, hhands] at hcalls
        dsimp only
        rw [TaskThread.sum_accepted_update_of_eq _ _ _ haccepted, hcalls]
        cases thread.caller <;> rfl
    · obtain ⟨htask, -, haccepted, -⟩ := TaskThread.work_frame hwork
      refine ⟨hidle, fun k => ?_, ?_⟩
      · simp only [Function.update_apply]
        split
        · exact htask.trans (h.receives j)
        · exact h.receives k
      · dsimp only
        rw [TaskThread.sum_accepted_update_of_eq _ _ _ haccepted, hcalls]
        rfl

/-- Every call that is accepted is one for a block. -/
theorem Counted.exists_task {state : FetchPool n φ α}
    (h : state.Counted receiveBlock filename tasks) {call : Call φ α}
    (hcall : call ∈ ∑ j, ((state.threadPool j).accepted : Multiset (Call φ α))) :
    ∃ task, call = callOf receiveBlock filename task := by
  have htasks : call ∈ (tasks.map (callOf receiveBlock filename) : Multiset (Call φ α)) := by
    rw [h.calls]
    exact Multiset.mem_add.mpr (Or.inr hcall)
  obtain ⟨task, -, rfl⟩ := List.mem_map.mp (Multiset.mem_coe.mp htasks)
  exact ⟨task, rfl⟩

/-- A block is dropped exactly by a step in which `runTask` refuses it. -/
theorem dropped_step {before after : FetchPool n φ α} {event : FetchEvent n}
    (hnext : before.next filename event = some after) :
    before.Accepts event ∧ after.dropped = before.dropped ∨
      ¬ before.Accepts event ∧ after.dropped ≠ [] := by
  obtain ⟨task, rest, j, rfl, hlooks, rfl⟩ | ⟨task, rest, j, rfl, htries, rfl⟩ |
    ⟨rest, j, thread, rfl, hhands, hcall, rfl⟩ | ⟨j, thread, rfl, hwork, rfl⟩ := next_cases hnext
  · exact Or.inl ⟨by simp [Accepts, hlooks], rfl⟩
  · by_cases haccepts : (before.threadPool j).accepts = true
    · exact Or.inl ⟨by simp [Accepts, htries, haccepts], by simp [tryTask, haccepts]⟩
    · exact Or.inr ⟨by simp [Accepts, htries, haccepts], by simp [tryTask, haccepts]⟩
  · exact Or.inl ⟨by simp [Accepts, hhands], rfl⟩
  · exact Or.inl ⟨trivial, rfl⟩

/-- Blocks that are dropped stay so. -/
theorem dropped_ne_nil {before after : FetchPool n φ α} {event : FetchEvent n}
    (h : before.dropped ≠ []) (hnext : before.next filename event = some after) :
    after.dropped ≠ [] := by
  rcases dropped_step hnext with ⟨-, hsame⟩ | ⟨-, hdropped⟩
  · rw [hsame]
    exact h
  · exact hdropped

/-- No block is dropped while `runTask` accepts them all. -/
theorem invariant_dropped : ((fetchSystem n receiveBlock filename tasks).restrict Accepts).Invariant
    fun state => state.dropped = [] where
  init h := by
    obtain ⟨args, rfl⟩ := h
    rfl
  step {before after event} h hstep := by
    rcases dropped_step hstep.2 with ⟨-, hsame⟩ | ⟨hrefuses, -⟩
    · exact hsame.trans h
    · exact absurd hstep.1 hrefuses

/-- A run in which a block is refused ends with dropped blocks. -/
theorem steps_accepts_or {before after : FetchPool n φ α} {events : List (FetchEvent n)}
    (hsteps : (fetchSystem n receiveBlock filename tasks).Steps before events after)
    (hinit : (fetchSystem n receiveBlock filename tasks).init before) :
    ((fetchSystem n receiveBlock filename tasks).restrict Accepts).Steps before events after ∨
      after.dropped ≠ [] := by
  have hstart : before.dropped = [] := by
    obtain ⟨args, rfl⟩ := hinit
    rfl
  have hor := hsteps.restrict_or Accepts (fun state => state.dropped = [])
    (fun state => state.dropped ≠ [])
    (fun _ _ _ h haccepts hnext => invariant_dropped.step h ⟨haccepts, hnext⟩) ?_
    (fun _ _ _ h hnext => dropped_ne_nil h hnext) hstart
  · exact hor.imp_left And.left
  · intro before event after _ hrefuses hnext
    rcases dropped_step hnext with ⟨haccepts, -⟩ | ⟨-, hdropped⟩
    · exact absurd haccepts hrefuses
    · exact hdropped

/-- Once nothing is left to do, `receiveBlock` has been called once for each block of the file
exactly if no block was refused and every step was in time. -/
theorem received_iff {events : List (FetchEvent n)} {state : FetchPool n φ α}
    (hrun : (fetchSystem n receiveBlock filename tasks).Run events state)
    (hquiet : state.Quiet) :
    (tasks.map (callOf receiveBlock filename) : Multiset (Call φ α)) =
        ∑ j, ((state.threadPool j).started : Multiset (Call φ α)) ↔
      (((fetchSystem n receiveBlock filename tasks).restrict Accepts).restrict InTime).Run
        events state := by
  have hcounted := invariant_counted.run hrun
  obtain ⟨⟨j, hloop⟩, hworkers⟩ := hquiet
  have hcalls := hcounted.calls
  simp only [left, hloop, List.map_nil, Multiset.coe_nil, zero_add] at hcalls
  constructor
  · intro hreceived
    have hown := ((composed.invariant_forall TaskThread.invariant_own).run hrun).2
    have hdropped : state.dropped = [] := by
      have hcard := congrArg Multiset.card (hcalls.symm.trans hreceived)
      have hle := TaskThread.card_started_le hown
      rw [Multiset.card_add, Multiset.coe_card, List.length_map] at hcard
      exact List.length_eq_zero_iff.mp (by omega)
    rw [hdropped, List.map_nil, Multiset.coe_nil, zero_add] at hcalls
    have heq := TaskThread.started_eq_of_sum hown (hreceived.symm.trans hcalls)
      fun call hcall other hother arg hnone => by
        obtain ⟨task, rfl⟩ := hcounted.exists_task hcall
        cases arg <;> exact nomatch hnone
    obtain ⟨start, hinit, hsteps⟩ := hrun
    have hsteps := (steps_accepts_or hsteps hinit).resolve_right fun hne => hne hdropped
    rcases (composed.restrict Accepts).restrict_or TaskThread.Orderly TaskThread.Broken
      TaskThread.invariant_orderly (fun _ _ _ h hlate hstep => h.broken hlate hstep)
      (fun _ _ _ h hstep => h.step hstep) hsteps hinit with hsteps | ⟨i, hbroken⟩
    · exact ⟨start, hinit, hsteps⟩
    · exact absurd (heq i) hbroken.started_ne
  · intro hrestricted
    have horderly := (((composed.restrict Accepts).invariant_restrict
      TaskThread.invariant_orderly).run hrestricted).2
    have heq (i : Fin n) : (state.threadPool i).started = (state.threadPool i).accepted :=
      (horderly i).started_eq ⟨hcounted.idle i (by simp [hloop]), hworkers i⟩
    have hdropped := (invariant_dropped.restrict InTime).run hrestricted
    rw [hdropped, List.map_nil, Multiset.coe_nil, zero_add] at hcalls
    rw [hcalls]
    simp only [heq]

/-- Two workers share three blocks. -/
def threeBlocks : List (FetchEvent 2) :=
  List.replicate 3 (.work 0) ++ List.replicate 3 (.work 1) ++ List.replicate 15 .loop ++
    List.replicate 8 (.work 0) ++ List.replicate 7 .loop ++ List.replicate 8 (.work 0) ++
    List.replicate 8 (.work 1)

/-- The state that it ends in. -/
def fetchedState : Option (FetchPool 2 Nat Nat) :=
  threeBlocks.foldlM (next 9)
    ⟨fun _ => .create (some 0) fun _ => none, .looks [(1, 4), (2, 5), (3, 6)] 0, []⟩

theorem received_iff_example :
    ∃ state : FetchPool 2 Nat Nat,
      ([(1, 4), (2, 5), (3, 6)].map (callOf 0 9) : Multiset (Call Nat Nat)) =
          ∑ j, ((state.threadPool j).started : Multiset (Call Nat Nat)) ↔
        (((fetchSystem 2 0 9 [(1, 4), (2, 5), (3, 6)]).restrict Accepts).restrict InTime).Run
          threeBlocks state := by
  have hfetched : fetchedState.any (fun state => state.loop = .looks [] 0 ∧
      (state.threadPool 0).work.isNone ∧ (state.threadPool 1).work.isNone) = true := by
    decide +kernel
  obtain ⟨state, hfold, hstate⟩ := (Option.any_eq_true _ _).mp hfetched
  obtain ⟨hloop, hfirst, hsecond⟩ := of_decide_eq_true hstate
  have hsteps : (fetchSystem 2 0 9 [(1, 4), (2, 5), (3, 6)]).Steps _ threeBlocks state :=
    System.steps_of_foldlM (fun _ _ _ _ hnext => hnext) hfold
  refine ⟨state, received_iff ⟨_, ⟨_, rfl⟩, hsteps⟩ ⟨⟨0, hloop⟩, fun j => ?_⟩⟩
  apply Option.isNone_iff_eq_none.mp
  rcases Fin.exists_fin_two.mp ⟨j, rfl⟩ with rfl | rfl
  · exact hfirst
  · exact hsecond

end FetchPool

end Doopey
