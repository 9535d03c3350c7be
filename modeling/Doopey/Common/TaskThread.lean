import Mathlib.Logic.Function.Basic
import Doopey.Foundation.Runs

/-!
# A worker thread and its tasks

A `TaskThread` waits on a mutex that it has locked itself, and `runTask` unlocks it after
it has stored the arguments of the task. The worker and its caller take their statements in
any order. Nothing but the mutex keeps them apart: the worker sets `_free` before it clears
the arguments, and `_run` before it takes the mutex for the first time.

At most one call is accepted that has not been made, and what the mutex and `_free` say
about it depends on the statements that the two have come to.
-/

namespace Doopey

open Foundation

/-- The arguments of a task, in the order in which they are stored and cleared. -/
inductive Argument
  | obj
  | input
  | output
deriving DecidableEq, Repr

/-- The argument after this one. -/
def Argument.next : Argument → Option Argument
  | obj => some input
  | input => some output
  | output => none

/-- A call of the function `_task`; `none` is `NULL`. -/
structure Call (φ α : Type*) where
  task : Option φ
  args : Argument → Option α

/-- The arguments of the call `made` are those of `call`, or `NULL`. -/
structure Call.Keeps {φ α : Type*} (made call : Call φ α) : Prop where
  task : made.task = call.task
  args (arg : Argument) : made.args arg = call.args arg ∨ made.args arg = none

/-- What the worker is about to do, in `threadFunc` and `mainLoop`. -/
inductive WorkerStage
  /-- `_run = true` -/
  | starts
  /-- To take the mutex for the first time. -/
  | locks
  /-- To look at `_run` at the head of the loop. -/
  | loops
  /-- To take the mutex in the loop. -/
  | waits
  /-- To look at `_run` behind it. -/
  | checks
  /-- To call the task. -/
  | calls
  /-- The task is running; next comes `_free = true`. -/
  | works
  | clears (arg : Argument)
  | ended
deriving DecidableEq, Repr

/-- What the caller is about to do, in `runTask`. -/
inductive CallerStage (φ α : Type*)
  | idle
  /-- `_free = false` -/
  | marks (call : Call φ α)
  | stores (call : Call φ α) (arg : Argument)
  | unlocks

/-- A `TaskThread`, with the statements that its worker and its caller have come to.
`accepted` are the calls that `runTask` returns `true` for, `started` those that the
worker makes. -/
structure TaskThread (φ α : Type*) where
  task : Option φ
  run : Bool
  free : Bool
  args : Argument → Option α
  /-- Whether `_task_lock` is taken. -/
  locked : Bool
  worker : WorkerStage
  caller : CallerStage φ α
  accepted : List (Call φ α)
  started : List (Call φ α)

/-- What happens to a `TaskThread`. -/
inductive TaskEvent (φ α : Type*)
  /-- The worker takes its next statement. -/
  | work
  /-- `setTask` -/
  | setTask (task : Option φ)
  /-- The check in `runTask`. -/
  | runTask (args : Argument → Option α)
  /-- The caller takes its next statement in `runTask`. -/
  | call

namespace TaskThread

variable {φ α : Type*}

/-- The constructor. It leaves the arguments as they are in memory. -/
def create (task : Option φ) (args : Argument → Option α) : TaskThread φ α :=
  ⟨task, false, true, args, false, .starts, .idle, [], []⟩

/-- The next statement of the worker, if it is not blocked. -/
def work (state : TaskThread φ α) : Option (TaskThread φ α) :=
  match state.worker with
  | .starts => some { state with run := true, worker := .locks }
  | .locks => if state.locked then none else some { state with locked := true, worker := .loops }
  | .loops => some { state with worker := if state.run then .waits else .ended }
  | .waits => if state.locked then none else some { state with locked := true, worker := .checks }
  | .checks => some { state with worker := if state.run then .calls else .ended }
  | .calls => some { state with
      started := state.started ++ [⟨state.task, state.args⟩]
      worker := .works }
  | .works => some { state with free := true, worker := .clears .obj }
  | .clears arg => some { state with
      args := Function.update state.args arg none
      worker := arg.next.elim .loops .clears }
  | .ended => none

/-- `setTask` -/
def setTask (state : TaskThread φ α) (task : Option φ) : TaskThread φ α :=
  if state.free then { state with task := task } else state

/-- The check in `runTask`; otherwise it returns `false`. -/
def accepts (state : TaskThread φ α) : Bool :=
  state.free && state.run && state.task.isSome

/-- The beginning of `runTask`. -/
def runTask (state : TaskThread φ α) (args : Argument → Option α) : TaskThread φ α :=
  if state.accepts then
    let call := ⟨state.task, args⟩
    { state with caller := .marks call, accepted := state.accepted ++ [call] }
  else state

/-- The next statement of `runTask` behind the check. -/
def call (state : TaskThread φ α) : Option (TaskThread φ α) :=
  match state.caller with
  | .idle => none
  | .marks call => some { state with free := false, caller := .stores call .obj }
  | .stores call arg => some { state with
      args := Function.update state.args arg (call.args arg)
      caller := arg.next.elim .unlocks (.stores call) }
  -- a mutex that is not taken stays so
  | .unlocks => some { state with locked := false, caller := .idle }

/-- One step. There is one caller. -/
inductive Step (state : TaskThread φ α) : TaskEvent φ α → TaskThread φ α → Prop
  | work {after : TaskThread φ α} (hwork : state.work = some after) : Step state .work after
  | setTask (task : Option φ) (hidle : state.caller = .idle) :
      Step state (.setTask task) (state.setTask task)
  | runTask (args : Argument → Option α) (hidle : state.caller = .idle) :
      Step state (.runTask args) (state.runTask args)
  | call {after : TaskThread φ α} (hcall : state.call = some after) : Step state .call after

/-- The step that an event leads to, if it can happen. -/
def next (state : TaskThread φ α) : TaskEvent φ α → Option (TaskThread φ α)
  | .work => state.work
  | .setTask task => match state.caller with
      | .idle => some (state.setTask task)
      | _ => none
  | .runTask args => match state.caller with
      | .idle => some (state.runTask args)
      | _ => none
  | .call => state.call

theorem step_of_next {state after : TaskThread φ α} {event : TaskEvent φ α}
    (hnext : state.next event = some after) : Step state event after := by
  cases event with
  | work => exact .work hnext
  | setTask task =>
      simp only [next] at hnext
      split at hnext
      next hidle =>
        obtain rfl := Option.some.inj hnext
        exact .setTask task hidle
      next => cases hnext
  | runTask args =>
      simp only [next] at hnext
      split at hnext
      next hidle =>
        obtain rfl := Option.some.inj hnext
        exact .runTask args hidle
      next => cases hnext
  | call => exact .call hnext

end TaskThread

/-- A `TaskThread` and its caller. -/
def taskSystem (φ α : Type*) : System (TaskThread φ α) (TaskEvent φ α) where
  init state := ∃ task args, state = TaskThread.create task args
  step := TaskThread.Step

namespace TaskThread

variable {φ α : Type*}

/-- The call that is accepted and not yet made. -/
def pending (state : TaskThread φ α) : Option (Call φ α) :=
  state.accepted[state.started.length]?

/-- Neither the worker nor the caller has anything left to do. -/
def Quiet (state : TaskThread φ α) : Prop := state.caller = .idle ∧ state.work = none

/-- Where the caller is, as to the pending call. -/
def Hands (state : TaskThread φ α) : Prop :=
  match state.caller with
  | .idle => state.free = state.pending.isNone
  | .marks call => state.free = true ∧ state.pending = some call
  | .stores call _ => state.free = false ∧ state.pending = some call
  | .unlocks => state.free = false ∧ state.pending.isSome = true

/-- Where the worker is, as to the mutex and the pending call. -/
def Works (state : TaskThread φ α) : Prop :=
  match state.worker with
  | .starts => state.run = false ∧ state.locked = false ∧ state.accepted = [] ∧ state.caller = .idle
  | .locks => state.run = true ∧ state.locked = false ∧ state.started = []
  | .loops | .waits | .clears _ => state.run = true ∧
      (state.locked = false → state.caller = .idle ∧ state.pending.isSome = true)
  | .checks | .calls => state.run = true ∧ state.locked = true ∧ state.caller = .idle ∧
      state.pending.isSome = true
  | .works => state.run = true ∧ state.locked = true ∧ state.caller = .idle ∧
      state.pending = none ∧ state.free = false
  | .ended => False

/-- What holds in every run. -/
structure Sound (state : TaskThread φ α) : Prop where
  works : state.Works
  hands : state.worker ≠ .works → state.Hands
  started : state.started.length ≤ state.accepted.length
  accepted : state.accepted.length ≤ state.started.length + 1
  task {call : Call φ α} : state.pending = some call → state.task = call.task

theorem sound_create (task : Option φ) (args : Argument → Option α) :
    (create task args).Sound where
  works := by simp [create, Works]
  hands := by simp [create, Hands, pending]
  started := Nat.le_refl _
  accepted := Nat.le_succ _
  task h := by simp [create, pending] at h

/-- While the caller is in `runTask`, no task is running. -/
theorem Sound.hands_of_ne_idle {state : TaskThread φ α} (h : state.Sound)
    (hcaller : state.caller ≠ .idle) : state.Hands := by
  apply h.hands
  intro hworker
  have hidle := h.works
  simp only [Works, hworker] at hidle
  exact hcaller hidle.2.2.1

/-- No call is pending for a free worker whose caller is not in `runTask`. -/
theorem Sound.pending_of_free {state : TaskThread φ α} (h : state.Sound)
    (hidle : state.caller = .idle) (hfree : state.free = true) : state.pending = none := by
  have hworker : state.worker ≠ .works := by
    intro hworks
    have hbusy := h.works
    simp only [Works, hworks] at hbusy
    simp [hbusy.2.2.2.2] at hfree
  have hhands := h.hands hworker
  simp only [Hands, hidle, hfree] at hhands
  exact Option.isNone_iff_eq_none.mp hhands.symm

theorem Sound.work {before after : TaskThread φ α} (h : before.Sound)
    (hwork : before.work = some after) : after.Sound := by
  obtain ⟨hworks, hhands, hstarted, haccepted, htask⟩ := h
  unfold TaskThread.work at hwork
  unfold Works at hworks
  cases hworker : before.worker <;> simp only [hworker] at hwork hworks hhands
  case starts =>
    obtain rfl := Option.some.inj hwork
    refine ⟨⟨rfl, hworks.2.1, ?_⟩, fun _ => hhands (by simp), hstarted, haccepted, htask⟩
    simpa [hworks.2.2.1] using hstarted
  case locks =>
    split at hwork
    next => cases hwork
    next =>
      obtain rfl := Option.some.inj hwork
      exact ⟨⟨hworks.1, nofun⟩, fun _ => hhands (by simp), hstarted, haccepted, htask⟩
  case loops =>
    rw [if_pos hworks.1] at hwork
    obtain rfl := Option.some.inj hwork
    exact ⟨hworks, fun _ => hhands (by simp), hstarted, haccepted, htask⟩
  case waits =>
    split at hwork
    next => cases hwork
    next hlocked =>
      obtain rfl := Option.some.inj hwork
      have hpending := hworks.2 (by simpa using hlocked)
      exact ⟨⟨hworks.1, rfl, hpending⟩, fun _ => hhands (by simp), hstarted, haccepted, htask⟩
  case checks =>
    rw [if_pos hworks.1] at hwork
    obtain rfl := Option.some.inj hwork
    exact ⟨hworks, fun _ => hhands (by simp), hstarted, haccepted, htask⟩
  case calls =>
    obtain rfl := Option.some.inj hwork
    obtain ⟨hrun, hlocked, hidle, hpending⟩ := hworks
    have hless : before.started.length < before.accepted.length := by
      simpa [pending] using hpending
    have hnone : before.accepted[before.started.length + 1]? = none :=
      List.getElem?_eq_none haccepted
    have hfree : before.free = false := by
      have hhands := hhands (by simp)
      simp only [Hands, hidle] at hhands
      rw [hhands, ← Option.not_isSome, hpending]
      rfl
    constructor
    · exact ⟨hrun, hlocked, hidle, by simpa [pending] using haccepted, hfree⟩
    · exact fun hworks => absurd rfl hworks
    · simpa using Nat.succ_le_of_lt hless
    · simp only [List.length_append, List.length_singleton]
      omega
    · intro call hcall
      simp [pending, hnone] at hcall
  case works =>
    obtain rfl := Option.some.inj hwork
    obtain ⟨hrun, hlocked, hidle, hnone, hfree⟩ := hworks
    refine ⟨⟨hrun, fun hunlocked => ?_⟩, fun _ => ?_, hstarted, haccepted, htask⟩
    · exact absurd (hlocked.symm.trans hunlocked) (by simp)
    · simp only [Hands, hidle]
      exact (Option.isNone_iff_eq_none.mpr hnone).symm
  case clears arg =>
    obtain rfl := Option.some.inj hwork
    refine ⟨?_, fun _ => hhands (by simp), hstarted, haccepted, htask⟩
    cases arg <;> exact hworks

theorem Sound.setTask {before : TaskThread φ α} (h : before.Sound) (hidle : before.caller = .idle)
    (task : Option φ) : (before.setTask task).Sound := by
  unfold TaskThread.setTask
  split
  next hfree =>
    have hnone := h.pending_of_free hidle hfree
    refine ⟨h.works, h.hands, h.started, h.accepted, fun {call} hcall => ?_⟩
    exact absurd (hnone.symm.trans hcall) (by simp)
  next => exact h

theorem Sound.runTask {before : TaskThread φ α} (h : before.Sound) (hidle : before.caller = .idle)
    (args : Argument → Option α) : (before.runTask args).Sound := by
  unfold TaskThread.runTask
  split
  next haccepts =>
    simp only [accepts, Bool.and_eq_true] at haccepts
    obtain ⟨⟨hfree, hrun⟩, -⟩ := haccepts
    have hnone := h.pending_of_free hidle hfree
    have hlength : before.accepted.length = before.started.length := by
      simp only [pending, List.getElem?_eq_none_iff] at hnone
      exact Nat.le_antisymm hnone h.started
    have hpending (call : Call φ α) :
        (before.accepted ++ [call])[before.started.length]? = some call := by
      rw [← hlength]
      exact List.getElem?_concat_length
    have hworks := h.works
    refine ⟨?_, fun _ => ⟨hfree, hpending _⟩, ?_, ?_, fun {call} hcall => ?_⟩
    · unfold Works at hworks ⊢
      cases hworker : before.worker <;>
        simp only [hworker, hidle, hnone, hrun, hfree] at hworks ⊢ <;> simp_all
    · simp [hlength]
    · simp [hlength]
    · rw [show before.task = call.task from congrArg Call.task (Option.some.inj ((hpending _).symm.trans hcall))]
  next => exact h

theorem Sound.call {before after : TaskThread φ α} (h : before.Sound)
    (hcall : before.call = some after) : after.Sound := by
  obtain ⟨hworks, hhands, hstarted, haccepted, htask⟩ := h
  unfold TaskThread.call at hcall
  unfold Works at hworks
  unfold Hands at hhands
  cases hcaller : before.caller <;> simp only [hcaller] at hcall hhands
  case idle => cases hcall
  case marks call =>
    obtain rfl := Option.some.inj hcall
    refine ⟨?_, fun hbusy => ⟨rfl, (hhands hbusy).2⟩, hstarted, haccepted, htask⟩
    unfold Works
    cases hworker : before.worker <;> simp_all [pending]
  case stores call arg =>
    obtain rfl := Option.some.inj hcall
    refine ⟨?_, fun hbusy => ?_, hstarted, haccepted, htask⟩
    · unfold Works
      cases hworker : before.worker <;> simp_all [pending]
    · have hhands := hhands hbusy
      cases arg
      · exact hhands
      · exact hhands
      · exact ⟨hhands.1, hhands.2 ▸ rfl⟩
  case unlocks =>
    obtain rfl := Option.some.inj hcall
    refine ⟨?_, fun hbusy => ?_, hstarted, haccepted, htask⟩
    · unfold Works
      cases hworker : before.worker <;> simp_all [pending]
    · obtain ⟨hfree, hpending⟩ := hhands hbusy
      show before.free = before.pending.isNone
      rw [hfree, ← Option.not_isSome, hpending]
      rfl

/-- The worker is at the first lock when a mutex is unlocked that is not taken. -/
theorem Sound.locks_of_unlocked {state : TaskThread φ α} (h : state.Sound)
    (hcaller : state.caller = .unlocks) (hunlocked : state.locked = false) :
    state.worker = .locks ∧ state.started = [] := by
  have hworks := h.works
  unfold Works at hworks
  cases hworker : state.worker <;> simp_all

/-- What a step of the worker leaves as it is, and how the others change. -/
theorem work_frame {before after : TaskThread φ α} (hwork : before.work = some after) :
    after.task = before.task ∧ after.caller = before.caller ∧ after.accepted = before.accepted ∧
      (before.worker = .calls ∧ after.args = before.args ∧
          after.started = before.started ++ [⟨before.task, before.args⟩] ∨
        before.worker ≠ .calls ∧ after.started = before.started ∧
          (after.args = before.args ∨ ∃ arg, before.worker = .clears arg ∧
            after.args = Function.update before.args arg none)) := by
  unfold TaskThread.work at hwork
  cases hworker : before.worker <;> simp only [hworker] at hwork
  case locks | waits =>
    split at hwork
    next => cases hwork
    next =>
      obtain rfl := Option.some.inj hwork
      exact ⟨rfl, rfl, rfl, Or.inr ⟨by simp, rfl, Or.inl rfl⟩⟩
  case calls =>
    obtain rfl := Option.some.inj hwork
    exact ⟨rfl, rfl, rfl, Or.inl ⟨rfl, rfl, rfl⟩⟩
  case clears arg =>
    obtain rfl := Option.some.inj hwork
    exact ⟨rfl, rfl, rfl, Or.inr ⟨by simp, rfl, Or.inr ⟨arg, rfl, rfl⟩⟩⟩
  case ended => cases hwork
  all_goals
    obtain rfl := Option.some.inj hwork
    exact ⟨rfl, rfl, rfl, Or.inr ⟨by simp, rfl, Or.inl rfl⟩⟩

theorem pending_of_eq {before after : TaskThread φ α} (haccepted : after.accepted = before.accepted)
    (hstarted : after.started = before.started) : after.pending = before.pending := by
  rw [pending, pending, haccepted, hstarted]

/-- What `runTask` leaves as it is behind the check. -/
theorem call_frame {before after : TaskThread φ α} (hcall : before.call = some after) :
    after.task = before.task ∧ after.accepted = before.accepted ∧ after.started = before.started := by
  unfold TaskThread.call at hcall
  cases hcaller : before.caller <;> simp only [hcaller] at hcall
  case idle => cases hcall
  all_goals
    obtain rfl := Option.some.inj hcall
    exact ⟨rfl, rfl, rfl⟩

theorem invariant_sound : (taskSystem φ α).Invariant Sound where
  init h := by
    obtain ⟨task, args, rfl⟩ := h
    exact sound_create task args
  step h hstep := by
    cases hstep with
    | work hwork => exact h.work hwork
    | setTask task hidle => exact h.setTask hidle task
    | runTask args hidle => exact h.runTask hidle args
    | call hcall => exact h.call hcall

end TaskThread

end Doopey
