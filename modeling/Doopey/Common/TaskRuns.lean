import Doopey.Common.TaskThread

/-!
# What a worker thread makes of its tasks

The worker makes the calls that `runTask` accepts, once each, in their order and with their
arguments, in those runs in which the mutex is taken when `runTask` unlocks it and no
argument is cleared after it has been stored. In all others a call is lost, and the worker
is never free again, or a call is made without its arguments.
-/

namespace Doopey

open Foundation

namespace TaskThread

variable {φ α : Type*}

/-- The caller has not stored this argument of the pending call yet. -/
def Before (caller : CallerStage φ α) (arg : Argument) : Prop :=
  match caller with
  | .marks _ => True
  | .stores _ .obj => True
  | .stores _ .input => arg ≠ .obj
  | .stores _ .output => arg = .output
  | _ => False

theorem before_stores_self (call : Call φ α) (arg : Argument) : Before (.stores call arg) arg := by
  cases arg <;> simp [Before]

/-- What is not stored once `arg` is. -/
theorem before_next_iff (call : Call φ α) (arg other : Argument) :
    Before (arg.next.elim .unlocks (.stores call)) other ↔
      Before (.stores call arg) other ∧ other ≠ arg := by
  cases arg <;> cases other <;> simp [Before, Argument.next]

/-- The mutex is taken when `runTask` unlocks it. -/
def Wakes (state : TaskThread φ α) : TaskEvent φ α → Prop
  | .call => state.caller = .unlocks → state.locked = true
  | _ => True

/-- The step hands nothing over that the worker does not get: the mutex is taken when it is
unlocked, and what is cleared is not an argument that has been stored for the pending call. -/
def InTime (state : TaskThread φ α) : TaskEvent φ α → Prop
  | .work => ∀ arg, state.worker = .clears arg → ∀ call, state.pending = some call →
      Before state.caller arg ∨ call.args arg = none
  | event => state.Wakes event

/-- The pending call will not get its mutex: it has been unlocked in front of the first lock. -/
structure Lost (state : TaskThread φ α) : Prop where
  idle : state.caller = .idle
  pending : state.pending.isSome = true
  started : state.started = []
  worker : state.worker = .locks ∨
    (state.worker = .loops ∨ state.worker = .waits) ∧ state.locked = true

/-- A call has been made, or will be made, without one of its arguments. -/
def Spoilt (state : TaskThread φ α) : Prop :=
  ¬ state.started <+: state.accepted ∨
    ∃ call arg, state.pending = some call ∧ ¬ Before state.caller arg ∧
      state.args arg = none ∧ call.args arg ≠ none

/-- What holds in the runs in which the mutex is taken when it is unlocked: the worker gets
to a pending call. -/
structure Awake (state : TaskThread φ α) : Prop extends state.Sound where
  woken : state.caller = .idle → state.pending.isSome = true →
    state.worker ≠ .locks ∧ (state.locked = true → state.worker = .checks ∨ state.worker = .calls)

/-- What is left of the arguments that the caller has stored for the pending call. -/
def Stored (kept : Option α → Option α → Prop) (state : TaskThread φ α) : Prop :=
  ∀ call arg, state.pending = some call → ¬ Before state.caller arg →
    kept (state.args arg) (call.args arg)

/-- What holds in the runs whose steps are in time. -/
structure Orderly (state : TaskThread φ α) : Prop extends state.Awake where
  started_prefix : state.started <+: state.accepted
  stored : state.Stored Eq

theorem awake_create (task : Option φ) (args : Argument → Option α) :
    (create task args).Awake where
  toSound := sound_create task args
  woken _ h := by simp [create, pending] at h

theorem orderly_create (task : Option φ) (args : Argument → Option α) :
    (create task args).Orderly where
  toAwake := awake_create task args
  started_prefix := List.nil_prefix
  stored _ _ h := by simp [create, pending] at h

/-! ## What every step keeps -/

theorem Lost.step {before after : TaskThread φ α} {event : TaskEvent φ α} (h : before.Lost)
    (hsound : before.Sound) (hstep : Step before event after) : after.Lost := by
  obtain ⟨hidle, hpending, hstarted, hworker⟩ := h
  have hworks := hsound.works
  cases hstep with
  | work hwork =>
      unfold TaskThread.work at hwork
      unfold Works at hworks
      rcases hworker with hworker | ⟨hworker | hworker, hlocked⟩
      · simp only [hworker] at hwork hworks
        rw [if_neg (by simp [hworks.2.1])] at hwork
        obtain rfl := Option.some.inj hwork
        exact ⟨hidle, hpending, hstarted, Or.inr ⟨Or.inl rfl, rfl⟩⟩
      · simp only [hworker] at hwork hworks
        rw [if_pos hworks.1] at hwork
        obtain rfl := Option.some.inj hwork
        exact ⟨hidle, hpending, hstarted, Or.inr ⟨Or.inr rfl, hlocked⟩⟩
      · simp only [hworker] at hwork
        rw [if_pos hlocked] at hwork
        cases hwork
  | setTask task =>
      unfold TaskThread.setTask
      split
      · exact ⟨hidle, hpending, hstarted, hworker⟩
      · exact ⟨hidle, hpending, hstarted, hworker⟩
  | runTask args =>
      unfold TaskThread.runTask
      split
      next haccepts =>
        simp only [accepts, Bool.and_eq_true] at haccepts
        have hnone := hsound.pending_of_free hidle haccepts.1.1
        rw [hnone] at hpending
        cases hpending
      next => exact ⟨hidle, hpending, hstarted, hworker⟩
  | call hcall =>
      simp only [TaskThread.call, hidle] at hcall
      cases hcall

theorem Spoilt.step {before after : TaskThread φ α} {event : TaskEvent φ α} (h : before.Spoilt)
    (hsound : before.Sound) (hstep : Step before event after) : after.Spoilt := by
  cases hstep with
  | work hwork =>
      obtain ⟨-, hcaller, haccepted, hcalls⟩ := work_frame hwork
      rcases h with hnot | ⟨call, arg, hpending, hstored, hnone, harg⟩
      · left
        intro hprefix
        rw [haccepted] at hprefix
        rcases hcalls with ⟨-, -, hstarted⟩ | ⟨-, hstarted, -⟩
        · rw [hstarted] at hprefix
          exact hnot ((List.prefix_append _ _).trans hprefix)
        · rw [hstarted] at hprefix
          exact hnot hprefix
      · rcases hcalls with ⟨-, -, hstarted⟩ | ⟨-, hstarted, hargs⟩
        · -- the call is made with what is left of its arguments
          left
          rintro ⟨rest, hprefix⟩
          rw [hstarted, haccepted] at hprefix
          rw [pending, ← hprefix, List.append_assoc, List.getElem?_append_right (Nat.le_refl _),
            Nat.sub_self] at hpending
          obtain rfl := Option.some.inj hpending
          exact harg hnone
        · right
          refine ⟨call, arg, (pending_of_eq haccepted hstarted).trans hpending,
            hcaller.symm ▸ hstored, ?_, harg⟩
          rcases hargs with hargs | ⟨cleared, -, hargs⟩
          · rw [hargs, hnone]
          · rw [hargs, Function.update_apply, hnone, ite_self]
  | setTask task =>
      unfold TaskThread.setTask
      split
      · exact h
      · exact h
  | runTask args hidle =>
      unfold TaskThread.runTask
      split
      next haccepts =>
        simp only [accepts, Bool.and_eq_true] at haccepts
        have hnone := hsound.pending_of_free hidle haccepts.1.1
        rcases h with hnot | ⟨call, arg, hpending, -⟩
        · left
          intro hprefix
          exact hnot (List.prefix_of_prefix_length_le hprefix (List.prefix_append _ _) hsound.started)
        · cases hnone.symm.trans hpending
      next => exact h
  | call hcall =>
      unfold TaskThread.call at hcall
      rcases h with hnot | ⟨pending, arg, hpending, hstored, hnone, harg⟩
      · cases hcaller : before.caller <;> simp only [hcaller] at hcall
        case idle => cases hcall
        all_goals
          obtain rfl := Option.some.inj hcall
          exact Or.inl hnot
      · cases hcaller : before.caller <;> simp only [hcaller] at hcall hstored
        case idle => cases hcall
        case marks => exact absurd trivial hstored
        case stores call stored =>
          obtain rfl := Option.some.inj hcall
          have hother : arg ≠ stored := by
            rintro rfl
            exact hstored (before_stores_self call arg)
          refine Or.inr ⟨pending, arg, hpending, ?_, ?_, harg⟩
          · exact fun h => hstored ((before_next_iff call stored arg).mp h).1
          · exact (Function.update_of_ne hother _ _).trans hnone
        case unlocks =>
          obtain rfl := Option.some.inj hcall
          exact Or.inr ⟨pending, arg, hpending, hstored, hnone, harg⟩

/-- No call is lost by a step of the worker. -/
theorem Awake.work {before after : TaskThread φ α} (h : before.Awake)
    (hwork : before.work = some after) : after.Awake := by
  refine ⟨h.toSound.work hwork, fun hidle hpending => ?_⟩
  have hworks := h.works
  have hwoken := h.woken
  have haccepted := h.accepted
  unfold TaskThread.work at hwork
  unfold Works at hworks
  cases hworker : before.worker <;> simp only [hworker] at hwork hworks hwoken
  case starts =>
    obtain rfl := Option.some.inj hwork
    simp [pending, hworks.2.2.1] at hpending
  case locks =>
    rw [if_neg (by simp [hworks.2.1])] at hwork
    obtain rfl := Option.some.inj hwork
    exact absurd rfl (hwoken hidle hpending).1
  case loops =>
    rw [if_pos hworks.1] at hwork
    obtain rfl := Option.some.inj hwork
    refine ⟨by simp, fun hlocked => ?_⟩
    exact absurd ((hwoken hidle hpending).2 hlocked) (by simp)
  case waits =>
    split at hwork
    next => cases hwork
    next =>
      obtain rfl := Option.some.inj hwork
      exact ⟨by simp, fun _ => Or.inl rfl⟩
  case checks =>
    rw [if_pos hworks.1] at hwork
    obtain rfl := Option.some.inj hwork
    exact ⟨by simp, fun _ => Or.inr rfl⟩
  case calls =>
    obtain rfl := Option.some.inj hwork
    rw [pending, List.length_append, List.length_singleton,
      List.getElem?_eq_none haccepted] at hpending
    cases hpending
  case works =>
    obtain rfl := Option.some.inj hwork
    exact absurd (hworks.2.2.2.1 ▸ hpending) (by simp)
  case clears arg =>
    obtain rfl := Option.some.inj hwork
    refine ⟨by cases arg <;> simp [Argument.next], fun hlocked => ?_⟩
    exact absurd ((hwoken hidle hpending).2 hlocked) (by simp)

theorem Awake.setTask {before : TaskThread φ α} (h : before.Awake) (hidle : before.caller = .idle)
    (task : Option φ) : (before.setTask task).Awake := by
  refine ⟨h.toSound.setTask hidle task, ?_⟩
  unfold TaskThread.setTask
  split
  · exact h.woken
  · exact h.woken

theorem Awake.runTask {before : TaskThread φ α} (h : before.Awake) (hidle : before.caller = .idle)
    (args : Argument → Option α) : (before.runTask args).Awake := by
  refine ⟨h.toSound.runTask hidle args, ?_⟩
  unfold TaskThread.runTask
  split
  · exact nofun
  · exact h.woken

theorem Awake.call {before after : TaskThread φ α} (h : before.Awake) (hwakes : before.Wakes .call)
    (hcall : before.call = some after) : after.Awake := by
  refine ⟨h.toSound.call hcall, ?_⟩
  unfold TaskThread.call at hcall
  cases hcaller : before.caller <;> simp only [hcaller] at hcall
  case idle => cases hcall
  case marks call =>
    obtain rfl := Option.some.inj hcall
    exact nofun
  case stores call arg =>
    obtain rfl := Option.some.inj hcall
    cases arg <;> exact nofun
  case unlocks =>
    obtain rfl := Option.some.inj hcall
    refine fun _ _ => ⟨fun hworker => ?_, nofun⟩
    have hworks := h.works
    simp only [Works, show before.worker = .locks from hworker] at hworks
    exact absurd ((hwakes hcaller).symm.trans hworks.2.1) (by simp)

theorem Awake.step {before after : TaskThread φ α} {event : TaskEvent φ α} (h : before.Awake)
    (hwakes : before.Wakes event) (hstep : Step before event after) : after.Awake := by
  cases hstep with
  | work hwork => exact h.work hwork
  | setTask task hidle => exact h.setTask hidle task
  | runTask args hidle => exact h.runTask hidle args
  | call hcall => exact h.call hwakes hcall

/-- A call that is accepted and not lost is taken up: it is the next one to be started. -/
theorem Orderly.started_calls {before : TaskThread φ α} (h : before.Orderly)
    (hworker : before.worker = .calls) :
    before.started ++ [⟨before.task, before.args⟩] <+: before.accepted := by
  have hworks := h.works
  simp only [Works, hworker] at hworks
  obtain ⟨-, -, hidle, hpending⟩ := hworks
  obtain ⟨call, hcall⟩ := Option.isSome_iff_exists.mp hpending
  obtain ⟨rest, hrest⟩ := h.started_prefix
  have htask := h.task hcall
  have hargs : before.args = call.args :=
    funext fun arg => h.stored call arg hcall (by simp [hidle, Before])
  rw [pending, ← hrest, List.getElem?_append_right (Nat.le_refl _), Nat.sub_self] at hcall
  cases rest with
  | nil => cases hcall
  | cons first rest =>
      obtain rfl := Option.some.inj hcall
      rw [htask, hargs, ← hrest]
      exact ⟨rest, by simp⟩

theorem Stored.work {kept : Option α → Option α → Prop} {before after : TaskThread φ α}
    (h : before.Stored kept) (hsound : before.Sound)
    (hcleared : ∀ arg, before.worker = .clears arg → ∀ call, before.pending = some call →
      ¬ Before before.caller arg → kept none (call.args arg))
    (hwork : before.work = some after) : after.Stored kept := by
  intro call arg hcall hstored
  obtain ⟨-, hcaller, haccepted, hcalls⟩ := work_frame hwork
  rw [hcaller] at hstored
  rcases hcalls with ⟨-, -, hstarted⟩ | ⟨-, hstarted, hargs⟩
  · rw [pending, hstarted, haccepted, List.length_append, List.length_singleton,
      List.getElem?_eq_none hsound.accepted] at hcall
    cases hcall
  · rw [pending_of_eq haccepted hstarted] at hcall
    rcases hargs with hargs | ⟨cleared, hworker, hargs⟩
    · rw [hargs]
      exact h call arg hcall hstored
    · rw [hargs, Function.update_apply]
      split
      next heq => exact hcleared arg (heq ▸ hworker) call hcall hstored
      next => exact h call arg hcall hstored

theorem Stored.setTask {kept : Option α → Option α → Prop} {before : TaskThread φ α}
    (h : before.Stored kept) (task : Option φ) : (before.setTask task).Stored kept := by
  unfold TaskThread.setTask
  split
  · exact h
  · exact h

theorem Stored.runTask {kept : Option α → Option α → Prop} {before : TaskThread φ α}
    (h : before.Stored kept) (args : Argument → Option α) : (before.runTask args).Stored kept := by
  unfold TaskThread.runTask
  split
  · exact fun _ _ _ hstored => absurd trivial hstored
  · exact h

theorem Stored.call {kept : Option α → Option α → Prop} (hrefl : ∀ value, kept value value)
    {before after : TaskThread φ α} (h : before.Stored kept) (hsound : before.Sound)
    (hcall : before.call = some after) : after.Stored kept := by
  unfold Stored at h
  unfold TaskThread.call at hcall
  cases hcaller : before.caller <;> simp only [hcaller] at hcall h
  case idle => cases hcall
  case marks call =>
    obtain rfl := Option.some.inj hcall
    exact fun _ _ _ hstored => absurd trivial hstored
  case stores call stored =>
    have hhands := hsound.hands_of_ne_idle (by simp [hcaller])
    simp only [Hands, hcaller] at hhands
    obtain rfl := Option.some.inj hcall
    intro pending arg hpending hstored
    obtain rfl := Option.some.inj (hhands.2.symm.trans hpending)
    rw [before_next_iff] at hstored
    dsimp only
    rw [Function.update_apply]
    split
    next heq =>
      rw [heq]
      exact hrefl _
    next hother => exact h _ _ hpending fun hbefore => hstored ⟨hbefore, hother⟩
  case unlocks =>
    obtain rfl := Option.some.inj hcall
    exact h

/-- A step of the worker that is in time. -/
theorem Orderly.work {before after : TaskThread φ α} (h : before.Orderly)
    (htime : before.InTime .work) (hwork : before.work = some after) : after.Orderly := by
  obtain ⟨-, -, haccepted, hcalls⟩ := work_frame hwork
  refine ⟨h.toAwake.work hwork, ?_, h.stored.work h.toSound ?_ hwork⟩
  · rw [haccepted]
    rcases hcalls with ⟨hworker, -, hstarted⟩ | ⟨-, hstarted, -⟩
    · rw [hstarted]
      exact h.started_calls hworker
    · rw [hstarted]
      exact h.started_prefix
  · intro arg hworker call hcall hstored
    exact ((htime arg hworker call hcall).resolve_left hstored).symm

/-- A step of the caller that is in time. -/
theorem Orderly.call {before after : TaskThread φ α} (h : before.Orderly)
    (htime : before.InTime .call) (hcall : before.call = some after) : after.Orderly := by
  obtain ⟨-, haccepted, hstarted⟩ := call_frame hcall
  refine ⟨h.toAwake.call htime hcall, ?_, h.stored.call (fun _ => rfl) h.toSound hcall⟩
  rw [haccepted, hstarted]
  exact h.started_prefix

theorem Orderly.step {before after : TaskThread φ α} {event : TaskEvent φ α} (h : before.Orderly)
    (htime : before.InTime event) (hstep : Step before event after) : after.Orderly := by
  cases hstep with
  | work hwork => exact h.work htime hwork
  | setTask task hidle =>
      refine ⟨h.toAwake.setTask hidle task, ?_, h.stored.setTask task⟩
      unfold TaskThread.setTask
      split
      · exact h.started_prefix
      · exact h.started_prefix
  | runTask args hidle =>
      refine ⟨h.toAwake.runTask hidle args, ?_, h.stored.runTask args⟩
      unfold TaskThread.runTask
      split
      · exact h.started_prefix.trans (List.prefix_append _ _)
      · exact h.started_prefix
  | call hcall => exact h.call htime hcall

/-- To unlock a mutex that is not taken loses the call. -/
theorem Sound.loses {before after : TaskThread φ α} {event : TaskEvent φ α} (h : before.Sound)
    (hlate : ¬ before.Wakes event) (hstep : Step before event after) : after.Lost := by
  cases hstep with
  | work => exact absurd trivial hlate
  | setTask => exact absurd trivial hlate
  | runTask => exact absurd trivial hlate
  | call hcall =>
      simp only [Wakes, not_forall, Bool.not_eq_true] at hlate
      obtain ⟨hcaller, hunlocked⟩ := hlate
      have hhands := h.hands_of_ne_idle (by simp [hcaller])
      simp only [Hands, hcaller] at hhands
      obtain ⟨hworker, hstarted⟩ := h.locks_of_unlocked hcaller hunlocked
      simp only [TaskThread.call, hcaller] at hcall
      obtain rfl := Option.some.inj hcall
      exact ⟨rfl, hhands.2, hstarted, Or.inl hworker⟩

/-- A step that is not in time loses the call, or one of its arguments. -/
theorem Orderly.spoils {before after : TaskThread φ α} {event : TaskEvent φ α} (h : before.Orderly)
    (hlate : ¬ before.InTime event) (hstep : Step before event after) : after.Lost ∨ after.Spoilt := by
  cases hstep with
  | work hwork =>
      simp only [InTime, not_forall, not_or] at hlate
      obtain ⟨arg, hworker, call, hpending, hstored, harg⟩ := hlate
      simp only [TaskThread.work, hworker] at hwork
      obtain rfl := Option.some.inj hwork
      exact Or.inr (Or.inr ⟨call, arg, hpending, hstored, Function.update_self _ _ _, harg⟩)
  | setTask => exact absurd trivial hlate
  | runTask => exact absurd trivial hlate
  | call hcall =>
      have hunlocked : ¬ before.Wakes .call := hlate
      exact Or.inl (h.loses hunlocked (.call hcall))

/-- When nothing is left to do, every call has been made if none is lost. -/
theorem Orderly.started_eq {state : TaskThread φ α} (h : state.Orderly) (hquiet : state.Quiet) :
    state.started = state.accepted := by
  obtain ⟨hidle, hwork⟩ := hquiet
  have hworks := h.works
  have hwaits : state.worker = .waits ∧ state.locked = true := by
    unfold TaskThread.work at hwork
    unfold Works at hworks
    cases hworker : state.worker <;> simp_all
  have hnone : state.pending = none := by
    by_contra hpending
    have hwoken := (h.woken hidle (Option.isSome_iff_ne_none.mpr hpending)).2 hwaits.2
    simp [hwaits.1] at hwoken
  have hlength : state.accepted.length ≤ state.started.length := List.getElem?_eq_none_iff.mp hnone
  exact h.started_prefix.eq_of_length_le hlength

theorem Lost.started_ne {state : TaskThread φ α} (h : state.Lost) : state.started ≠ state.accepted := by
  intro heq
  have hpending := h.pending
  simp [TaskThread.pending, heq] at hpending

theorem Spoilt.started_ne {state : TaskThread φ α} (h : state.Spoilt) :
    state.started ≠ state.accepted := by
  intro heq
  rcases h with hnot | ⟨call, arg, hpending, -⟩
  · exact hnot (heq ▸ List.prefix_rfl)
  · simp [pending, heq] at hpending

theorem invariant_orderly : ((taskSystem φ α).restrict InTime).Invariant Orderly where
  init h := by
    obtain ⟨task, args, rfl⟩ := h
    exact orderly_create task args
  step h hstep := h.step hstep.1 hstep.2

theorem invariant_awake : ((taskSystem φ α).restrict Wakes).Invariant Awake where
  init h := by
    obtain ⟨task, args, rfl⟩ := h
    exact awake_create task args
  step h hstep := h.step hstep.1 hstep.2

/-- A call is lost or spoilt. -/
structure Broken (state : TaskThread φ α) : Prop extends state.Sound where
  broken : state.Lost ∨ state.Spoilt

theorem Orderly.broken {before after : TaskThread φ α} {event : TaskEvent φ α} (h : before.Orderly)
    (hlate : ¬ before.InTime event) (hstep : Step before event after) : after.Broken :=
  ⟨invariant_sound.step h.toSound hstep, h.spoils hlate hstep⟩

theorem Broken.step {before after : TaskThread φ α} {event : TaskEvent φ α} (h : before.Broken)
    (hstep : Step before event after) : after.Broken :=
  ⟨invariant_sound.step h.toSound hstep, h.broken.imp (fun hlost => hlost.step h.toSound hstep)
    fun hspoilt => hspoilt.step h.toSound hstep⟩

theorem Broken.started_ne {state : TaskThread φ α} (h : state.Broken) :
    state.started ≠ state.accepted := by
  rcases h.broken with hlost | hspoilt
  · exact hlost.started_ne
  · exact hspoilt.started_ne

/-- When the worker and its caller have nothing left to do, the worker has made the calls
that were accepted, each once, in their order and with its own arguments, exactly if
every step was in time. -/
theorem started_eq_iff {events : List (TaskEvent φ α)} {state : TaskThread φ α}
    (hrun : (taskSystem φ α).Run events state) (hquiet : state.Quiet) :
    state.started = state.accepted ↔ ((taskSystem φ α).restrict InTime).Run events state := by
  constructor
  · intro heq
    obtain ⟨start, hinit, hsteps⟩ := hrun
    rcases hsteps.restrict_or InTime Orderly Broken (fun _ _ _ h htime hstep => h.step htime hstep)
      (fun _ _ _ h hlate hstep => h.broken hlate hstep) (fun _ _ _ h hstep => h.step hstep)
      (invariant_orderly.init hinit) with ⟨hsteps, -⟩ | hbroken
    · exact ⟨start, hinit, hsteps⟩
    · exact absurd heq hbroken.started_ne
  · intro hrun
    exact (invariant_orderly.run hrun).started_eq hquiet

/-- The worker waits in its loop when a task comes, and clears it when it is done. -/
def oneTask : List (TaskEvent Nat Nat) :=
  [.work, .work, .work, .runTask fun _ => some 1] ++ List.replicate 5 .call ++ List.replicate 8 .work

theorem started_eq_iff_example :
    ∃ state : TaskThread Nat Nat, state.accepted.length = 1 ∧
      (state.started = state.accepted ↔ ((taskSystem Nat Nat).restrict InTime).Run oneTask state) := by
  obtain ⟨state, hfold, hquiet, hlength⟩ : ∃ state,
      oneTask.foldlM next (create (some 0) fun _ => none) = some state ∧ state.Quiet ∧
        state.accepted.length = 1 := ⟨_, rfl, ⟨rfl, rfl⟩, rfl⟩
  have hsteps : (taskSystem Nat Nat).Steps (create (some 0) fun _ => none) oneTask state :=
    System.steps_of_foldlM (fun _ _ _ _ => step_of_next) hfold
  exact ⟨state, hlength, started_eq_iff ⟨_, ⟨some 0, _, rfl⟩, hsteps⟩ hquiet⟩

/-! ## What is called -/

/-- Each call is one that was accepted, but for arguments that were cleared. -/
structure Own (state : TaskThread φ α) : Prop extends state.Sound where
  started_keeps {k : Nat} {made : Call φ α} : state.started[k]? = some made →
    ∃ call, state.accepted[k]? = some call ∧ made.Keeps call
  stored : state.Stored fun value arg => value = arg ∨ value = none

theorem Own.work {before after : TaskThread φ α} (h : before.Own)
    (hwork : before.work = some after) : after.Own := by
  obtain ⟨-, -, haccepted, hcalls⟩ := work_frame hwork
  refine ⟨h.toSound.work hwork, fun {k made} hmade => ?_,
    h.stored.work h.toSound (fun _ _ _ _ _ => Or.inr rfl) hwork⟩
  rw [haccepted]
  rcases hcalls with ⟨hworker, -, hstarted⟩ | ⟨-, hstarted, -⟩
  · have hworks := h.works
    simp only [Works, hworker] at hworks
    obtain ⟨-, -, hidle, hpending⟩ := hworks
    obtain ⟨call, hcall⟩ := Option.isSome_iff_exists.mp hpending
    rw [hstarted] at hmade
    rcases Nat.lt_trichotomy k before.started.length with hless | rfl | hmore
    · rw [List.getElem?_append_left hless] at hmade
      exact h.started_keeps hmade
    · rw [List.getElem?_concat_length] at hmade
      obtain rfl := Option.some.inj hmade
      exact ⟨call, hcall, h.task hcall, fun arg => h.stored call arg hcall (by simp [hidle, Before])⟩
    · have hlength : (before.started ++ [(⟨before.task, before.args⟩ : Call φ α)]).length ≤ k := by
        rw [List.length_append]
        exact hmore
      rw [List.getElem?_eq_none hlength] at hmade
      cases hmade
  · rw [hstarted] at hmade
    exact h.started_keeps hmade

theorem invariant_own : (taskSystem φ α).Invariant Own where
  init h := by
    obtain ⟨task, args, rfl⟩ := h
    exact ⟨sound_create task args, by simp [create], fun _ _ h => by simp [create, pending] at h⟩
  step h hstep := by
    cases hstep with
    | work hwork => exact h.work hwork
    | setTask task hidle =>
        refine ⟨h.toSound.setTask hidle task, ?_, h.stored.setTask task⟩
        unfold TaskThread.setTask
        split
        · exact h.started_keeps
        · exact h.started_keeps
    | runTask args hidle =>
        refine ⟨h.toSound.runTask hidle args, ?_, h.stored.runTask args⟩
        unfold TaskThread.runTask
        split
        · intro k made hmade
          obtain ⟨call, hcall, hkeeps⟩ := h.started_keeps hmade
          refine ⟨call, ?_, hkeeps⟩
          rw [List.getElem?_append_left (List.getElem?_eq_some_iff.mp hcall).1]
          exact hcall
        · exact h.started_keeps
    | call hcall =>
        obtain ⟨-, haccepted, hstarted⟩ := call_frame hcall
        refine ⟨h.toSound.call hcall, ?_, h.stored.call (fun _ => Or.inl rfl) h.toSound hcall⟩
        rw [haccepted, hstarted]
        exact h.started_keeps

/-! ## The lost wake-up -/

/-- How far the worker is from the end of its task. -/
def distance : WorkerStage → Nat
  | .works => 0
  | .calls => 1
  | .checks => 2
  | .waits => 3
  | .loops => 4
  | .clears .output => 5
  | .clears .input => 6
  | .clears .obj => 7
  | _ => 8

/-- A worker that is not free gets on with its task by itself. -/
theorem Awake.exists_work {state : TaskThread φ α} (h : state.Awake) (hidle : state.caller = .idle)
    (hbusy : state.free = false) :
    ∃ after, state.work = some after ∧
      (after.free = true ∨ distance after.worker < distance state.worker) := by
  have hworks := h.works
  have hhands := h.hands
  have hwoken := h.woken hidle
  unfold Works at hworks
  simp only [Hands, hidle, hbusy] at hhands
  have hpending : state.worker ≠ .works → state.pending.isSome = true := by
    intro hworker
    rw [← Option.not_isNone, ← hhands hworker]
    rfl
  unfold TaskThread.work
  cases hworker : state.worker <;> simp only [hworker] at hworks hpending hwoken ⊢
  case starts =>
    have hpending := hpending (by simp)
    simp [pending, hworks.2.2.1] at hpending
  case locks => exact absurd rfl (hwoken (hpending (by simp))).1
  case loops => exact ⟨_, rfl, Or.inr (by simp [hworks.1, distance])⟩
  case waits =>
    have hunlocked : state.locked = false := by
      by_contra hlocked
      have hworker := (hwoken (hpending (by simp))).2 (by simpa using hlocked)
      simp at hworker
    rw [if_neg (by simp [hunlocked])]
    exact ⟨_, rfl, Or.inr (by simp [distance])⟩
  case checks => exact ⟨_, rfl, Or.inr (by simp [hworks.1, distance])⟩
  case calls => exact ⟨_, rfl, Or.inr (by simp [distance])⟩
  case works => exact ⟨_, rfl, Or.inl rfl⟩
  case clears arg =>
    refine ⟨_, rfl, Or.inr ?_⟩
    cases arg <;> simp [Argument.next, distance]

/-- If the caller waits, a worker that is awake becomes free by its own steps. -/
theorem Awake.exists_free {state : TaskThread φ α} (h : state.Awake) (hidle : state.caller = .idle) :
    ∃ count after, (taskSystem φ α).Steps state (List.replicate count .work) after ∧
      after.free = true := by
  induction hdistance : distance state.worker using Nat.strongRecOn generalizing state with
  | _ length ih =>
      cases hbusy : state.free with
      | true => exact ⟨0, state, .nil state, hbusy⟩
      | false =>
          obtain ⟨after, hwork, hfree | hless⟩ := h.exists_work hidle hbusy
          · exact ⟨1, after, .cons (.work hwork) (.nil after), hfree⟩
          · obtain ⟨-, hcaller, -⟩ := work_frame hwork
            obtain ⟨count, last, hsteps, hfree⟩ :=
              ih _ (hdistance ▸ hless) (h.work hwork) (hcaller.trans hidle) rfl
            exact ⟨count + 1, last, .cons (.work hwork) hsteps, hfree⟩

theorem Lost.free {state : TaskThread φ α} (h : state.Lost) (hsound : state.Sound) :
    state.free = false := by
  have hworker : state.worker ≠ .works := by
    rcases h.worker with hworker | ⟨hworker | hworker, -⟩ <;> simp [hworker]
  have hhands := hsound.hands hworker
  simp only [Hands, h.idle] at hhands
  rw [hhands, ← Option.not_isSome, h.pending]
  rfl

/-- A worker is never free again exactly if the mutex was not taken yet when `runTask`
unlocked it. Otherwise its own steps are enough for it to get free. -/
theorem never_free_iff {events : List (TaskEvent φ α)} {state : TaskThread φ α}
    (hrun : (taskSystem φ α).Run events state) (hidle : state.caller = .idle) :
    ((∀ later after, (taskSystem φ α).Steps state later after → after.free = false) ↔
        ¬ ((taskSystem φ α).restrict Wakes).Run events state) ∧
      (((taskSystem φ α).restrict Wakes).Run events state →
        ∃ count after, (taskSystem φ α).Steps state (List.replicate count .work) after ∧
          after.free = true) := by
  have hfrees (hrun : ((taskSystem φ α).restrict Wakes).Run events state) :=
    (invariant_awake.run hrun).exists_free hidle
  refine ⟨⟨fun hnever hrun => ?_, fun hnot later after hlater => ?_⟩, hfrees⟩
  · obtain ⟨count, after, hsteps, hfree⟩ := hfrees hrun
    exact absurd ((hnever _ after hsteps).symm.trans hfree) (by simp)
  · obtain ⟨start, hinit, hsteps⟩ := hrun
    have hstays (before : TaskThread φ α) (event : TaskEvent φ α) (after : TaskThread φ α)
        (h : before.Sound ∧ before.Lost) (hstep : Step before event after) :
        after.Sound ∧ after.Lost := ⟨invariant_sound.step h.1 hstep, h.2.step h.1 hstep⟩
    have hor := hsteps.restrict_or Wakes Sound (fun state => state.Sound ∧ state.Lost)
      (fun _ _ _ h _ hstep => invariant_sound.step h hstep)
      (fun _ _ _ h hlate hstep => ⟨invariant_sound.step h hstep, h.loses hlate hstep⟩)
      hstays (invariant_sound.init hinit)
    rcases hor with ⟨hsteps, -⟩ | hlost
    · exact absurd ⟨start, hinit, hsteps⟩ hnot
    · obtain ⟨hsound, hlost⟩ := hlater.keeps hstays hlost
      exact hlost.free hsound

/-- The mutex is unlocked before the worker has come to it. -/
def earlyTask : List (TaskEvent Nat Nat) :=
  [.work, .runTask fun _ => some 1] ++ List.replicate 5 .call

theorem never_free_iff_example :
    ∃ state : TaskThread Nat Nat, state.caller = .idle ∧ state.pending.isSome = true ∧
      ((∀ later after, (taskSystem Nat Nat).Steps state later after → after.free = false) ↔
        ¬ ((taskSystem Nat Nat).restrict Wakes).Run earlyTask state) ∧
      (((taskSystem Nat Nat).restrict Wakes).Run earlyTask state →
        ∃ count after, (taskSystem Nat Nat).Steps state (List.replicate count .work) after ∧
          after.free = true) := by
  obtain ⟨state, hfold, hidle, hpending⟩ : ∃ state,
      earlyTask.foldlM next (create (some 0) fun _ => none) = some state ∧ state.caller = .idle ∧
        state.pending.isSome = true := ⟨_, rfl, rfl, rfl⟩
  have hsteps : (taskSystem Nat Nat).Steps (create (some 0) fun _ => none) earlyTask state :=
    System.steps_of_foldlM (fun _ _ _ _ => step_of_next) hfold
  exact ⟨state, hidle, hpending, never_free_iff ⟨_, ⟨some 0, _, rfl⟩, hsteps⟩ hidle⟩

end TaskThread

end Doopey
