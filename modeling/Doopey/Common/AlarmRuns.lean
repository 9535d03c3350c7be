import Doopey.Common.Alarm
import Doopey.Foundation.Runs

/-!
# Timers over whole runs

The process registers and cancels timers, and the alarm goes off, in any order; the clock
goes on between any two readings. A deadline is never forgotten by the map and its handler
never called twice or early. The alarm is lost, however, if the clock reaches the earliest
deadline between the test of `alarmHandler` and the reading from which it computes the delay.
-/

namespace Doopey

open Foundation

/-- What makes the handlers run: `DoopeyAlarm` is called, or the alarm goes off. -/
inductive AlarmEvent
  | doopeyAlarm (func : Handler) (sec : Nat)
  | sigalrm

/-- An event, the number of the first call of `time` that it makes, and the handlers that it
calls. -/
structure AlarmCall where
  event : AlarmEvent
  first : Nat
  fired : List (Handler × Nat)

namespace Alarms

def serve (clock : Nat → Nat) (fuel : Nat) (state : Alarms) :
    AlarmEvent → Except Fault (Alarms × List (Handler × Nat))
  | .doopeyAlarm func sec => doopeyAlarm clock fuel state func sec
  | .sigalrm => alarmHandler clock fuel { state with alarm := none }

def alarmSystem (clock : Nat → Nat) : System Alarms AlarmCall where
  init state := state = empty
  step before call after := call.first = before.reads ∧
    ∃ fuel, before.serve clock fuel call.event = .ok (after, call.fired)

/-- The deadline of `func` when the handlers that are due are called. -/
def asked (clock : Nat → Nat) (state : Alarms) (func : Handler) : AlarmEvent → Option Nat
  | .doopeyAlarm other sec =>
      if other = func then if sec = 0 then none else some (clock state.reads + sec)
      else state.alarmMap[func]?
  | .sigalrm => state.alarmMap[func]?

/-- The condition under which the event leaves the alarm set, if it was. -/
def SteadyCall (clock : Nat → Nat) (state : Alarms) : AlarmEvent → Prop
  | .doopeyAlarm func sec =>
      if sec = 0 then
        state.alarmMap[func]? = none ∨
          Steady clock state.reads (state.alarmMap.erase func).toList
      else Steady clock (state.reads + 1)
        (state.alarmMap.insert func (clock state.reads + sec)).toList
  | .sigalrm => Steady clock state.reads state.alarmMap.toList

/-- Every deadline lies after the epoch. -/
def Positive (state : Alarms) : Prop :=
  ∀ (func : Handler) (deadline : Nat), state.alarmMap[func]? = some deadline → 0 < deadline

theorem Positive.entries {state : Alarms} (h : state.Positive) {entry : Handler × Nat}
    (hmem : entry ∈ state.alarmMap.toList) : 0 < entry.2 :=
  h entry.1 entry.2 (Std.TreeMap.mem_toList_iff_getElem?_eq_some.mp hmem)

theorem Outcome.mono {start start' : Nat} {calls : List Nat} {before after : Option Nat}
    (h : Outcome start calls before after) (hle : start' ≤ start) :
    Outcome start' calls before after := by
  cases before with
  | none => exact h
  | some deadline => exact h.imp_left fun hkept =>
      ⟨hkept.1, hkept.2.1, Nat.lt_of_le_of_lt hle hkept.2.2⟩

/-- What has a deadline afterwards had it before. -/
theorem Outcome.of_kept {start deadline : Nat} {calls : List Nat} {before after : Option Nat}
    (h : Outcome start calls before after) (hafter : after = some deadline) :
    before = some deadline ∧ start < deadline := by
  subst hafter
  cases before with
  | none => exact absurd h.1 (Option.some_ne_none _)
  | some before =>
      rcases h with ⟨hkept, -, hstart⟩ | hcalled
      · obtain rfl := Option.some.inj hkept
        exact ⟨rfl, hstart⟩
      · exact absurd hcalled.1 (Option.some_ne_none _)

/-- An event is answered at once, or by the handler of the signal. -/
theorem serve_cases (clock : Nat → Nat) (state : Alarms) (event : AlarmEvent) :
    (∀ fuel, state.serve clock fuel event = .ok (state, [])) ∧ event ≠ .sigalrm ∧
        (∀ func, state.asked clock func event = state.alarmMap[func]?) ∧
        state.SteadyCall clock event ∨
      ∃ middle : Alarms, (∀ fuel, state.serve clock fuel event = alarmHandler clock fuel middle) ∧
        (∀ func, state.asked clock func event = middle.alarmMap[func]?) ∧
        state.reads ≤ middle.reads ∧
        (state.SteadyCall clock event ↔ Steady clock middle.reads middle.alarmMap.toList) := by
  cases event with
  | sigalrm => exact Or.inr ⟨_, fun _ => rfl, fun _ => rfl, Nat.le_refl _, Iff.rfl⟩
  | doopeyAlarm func sec =>
      by_cases hsec : sec = 0
      · cases hfunc : state.alarmMap[func]? with
        | none =>
            -- there is nothing to cancel, and `alarmHandler` is not called
            refine Or.inl ⟨fun fuel => ?_, AlarmEvent.noConfusion, fun other => ?_, ?_⟩
            · rw [serve, doopeyAlarm, if_pos hsec, hfunc]
            · rw [asked]
              split
              next heq => rw [← heq, hfunc]
              next => rfl
            · rw [SteadyCall, if_pos hsec]
              exact Or.inl hfunc
        | some deadline =>
            refine Or.inr ⟨setAlarm clock ⟨state.alarmMap.erase func, state.alarm, state.reads⟩ 0,
              fun fuel => ?_, fun other => ?_, Nat.le_refl _, ?_⟩
            · rw [serve, doopeyAlarm, if_pos hsec, hfunc]
            · rw [asked, if_pos hsec, setAlarm, Std.TreeMap.getElem?_erase]
              simp
            · rw [SteadyCall, if_pos hsec, hfunc]
              exact or_iff_right (Option.some_ne_none _)
      · refine Or.inr ⟨setAlarm clock ⟨state.alarmMap.insert func (clock state.reads + sec),
          state.alarm, state.reads + 1⟩ 0, fun fuel => ?_, fun other => ?_, Nat.le_succ _, ?_⟩
        · rw [serve, doopeyAlarm, if_neg hsec]
        · rw [asked, if_neg hsec, setAlarm, Std.TreeMap.getElem?_insert]
          simp
        · rw [SteadyCall, if_neg hsec]
          exact Iff.rfl

/-- Deadlines that are asked for are later than the clock. -/
theorem Positive.asked {clock : Nat → Nat} {state : Alarms} (h : state.Positive)
    {func : Handler} {event : AlarmEvent} {deadline : Nat}
    (hasked : state.asked clock func event = some deadline) : 0 < deadline := by
  cases event with
  | sigalrm => exact h func deadline hasked
  | doopeyAlarm other sec =>
      rw [Alarms.asked] at hasked
      split at hasked
      next =>
        split at hasked
        next => exact absurd hasked.symm (Option.some_ne_none _)
        next hsec =>
          obtain rfl := Option.some.inj hasked
          exact Nat.add_pos_right _ (Nat.pos_of_ne_zero hsec)
      next => exact h func deadline hasked

/-- What an event does: to the deadline of every handler, and to the alarm. -/
structure Serves (clock : Nat → Nat) (before : Alarms) (event : AlarmEvent) (after : Alarms)
    (fired : List (Handler × Nat)) : Prop where
  outcome (func : Handler) : Outcome 0 (callsOf func fired) (before.asked clock func event)
    after.alarmMap[func]?
  ahead (func : Handler) (deadline : Nat) : event = .sigalrm →
    after.alarmMap[func]? = some deadline → clock before.reads < deadline
  armed : before.Armed → (after.Armed ↔ before.SteadyCall clock event)

theorem serve_spec {clock : Nat → Nat} (hclock : Monotone clock) {state : Alarms}
    (hpositive : state.Positive) {event : AlarmEvent} :
    (∀ fuel after fired, state.serve clock fuel event = .ok (after, fired) →
      state.Serves clock event after fired) ∧
    ∃ fuel after fired, state.serve clock fuel event = .ok (after, fired) := by
  rcases serve_cases clock state event with
    ⟨hserve, hevent, hasked, hsteady⟩ | ⟨middle, hserve, hasked, hreads, hsteady⟩
  · refine ⟨fun fuel after fired hrun => ?_, 0, _, _, hserve 0⟩
    obtain ⟨rfl, rfl⟩ := Prod.mk.inj (Except.ok.inj ((hserve fuel).symm.trans hrun))
    refine ⟨fun func => ?_, fun _ _ hsigalrm => absurd hsigalrm hevent,
      fun harmed => iff_of_true harmed hsteady⟩
    rw [hasked]
    cases hfunc : state.alarmMap[func]? with
    | none => exact ⟨rfl, rfl⟩
    | some deadline => exact Or.inl ⟨rfl, rfl, hpositive func deadline hfunc⟩
  · have hpositive : ∀ entry ∈ middle.alarmMap.toList, 0 < entry.2 := fun entry hmem =>
      hpositive.asked ((hasked entry.1).trans (Std.TreeMap.mem_toList_iff_getElem?_eq_some.mp hmem))
    constructor
    · intro fuel after fired hrun
      rw [hserve] at hrun
      have hhandles := (alarmHandler_spec hclock hpositive).1 after fired hrun
      refine ⟨fun func => ?_, fun func deadline _ hafter => ?_,
        fun _ => hhandles.armed.trans hsteady.symm⟩
      · rw [hasked]
        exact (hhandles.outcome func).mono (Nat.zero_le _)
      · exact Nat.lt_of_le_of_lt (hclock hreads) ((hhandles.outcome func).of_kept hafter).2
    · obtain ⟨after, fired, hrun⟩ :=
        (alarmHandler_spec hclock hpositive).2 (Nat.lt_succ_self _)
      exact ⟨_, after, fired, (hserve _).trans hrun⟩

/-- The deadlines stay positive. -/
theorem Serves.positive {clock : Nat → Nat} {state after : Alarms} {event : AlarmEvent}
    {fired : List (Handler × Nat)} (h : state.Serves clock event after fired)
    (hpositive : state.Positive) : after.Positive := fun func _ hafter =>
  hpositive.asked ((h.outcome func).of_kept hafter).1

theorem invariant_positive {clock : Nat → Nat} (hclock : Monotone clock) :
    (alarmSystem clock).Invariant Positive where
  init := by
    rintro state rfl func deadline hdeadline
    exact absurd (hdeadline.symm.trans Std.TreeMap.getElem?_emptyc) (Option.some_ne_none _)
  step := by
    rintro before after call hpositive ⟨-, fuel, hrun⟩
    exact ((serve_spec hclock hpositive).1 fuel after _ hrun).positive hpositive

/-- Between two requests for the same handler, it is called once and not early, or keeps
its deadline; an alarm that goes off later calls it. -/
theorem outcome_of_steps {clock : Nat → Nat} (hclock : Monotone clock) {before after : Alarms}
    {calls : List AlarmCall} (hsteps : (alarmSystem clock).Steps before calls after)
    (hpositive : before.Positive) {func : Handler}
    (hother : ∀ call ∈ calls, ∀ sec, call.event ≠ .doopeyAlarm func sec) :
    Outcome 0 (callsOf func (calls.flatMap AlarmCall.fired)) before.alarmMap[func]?
        after.alarmMap[func]? ∧
      ∀ deadline, after.alarmMap[func]? = some deadline →
        ∀ call ∈ calls, call.event = .sigalrm → clock call.first < deadline := by
  induction hsteps with
  | nil state =>
      refine ⟨?_, fun _ _ call hcall => absurd hcall List.not_mem_nil⟩
      cases hfunc : state.alarmMap[func]? with
      | none => exact ⟨rfl, rfl⟩
      | some deadline => exact Or.inl ⟨rfl, rfl, hpositive func deadline hfunc⟩
  | @cons before middle after call calls hstep hrest ih =>
      obtain ⟨hcall, hother⟩ := List.forall_mem_cons.mp hother
      obtain ⟨hfirst, fuel, hrun⟩ := hstep
      have hserves := (serve_spec hclock hpositive).1 fuel middle _ hrun
      obtain ⟨houtcome, hahead⟩ := ih (hserves.positive hpositive) hother
      -- no request for `func`: it is served with the deadline that it has
      have hasked : before.asked clock func call.event = before.alarmMap[func]? := by
        cases hevent : call.event with
        | sigalrm => rfl
        | doopeyAlarm other sec =>
            apply if_neg
            rintro rfl
            exact hcall sec hevent
      have hhead := hserves.outcome func
      rw [hasked] at hhead
      rw [List.flatMap_cons, callsOf_append]
      refine ⟨hhead.trans houtcome, fun deadline hdeadline => List.forall_mem_cons.mpr ⟨?_, ?_⟩⟩
      · intro hevent
        rw [hfirst]
        exact hserves.ahead func deadline hevent (houtcome.of_kept hdeadline).1
      · exact hahead deadline hdeadline

theorem invariant_armed {clock : Nat → Nat} (hclock : Monotone clock) :
    ((alarmSystem clock).restrict fun state call => state.SteadyCall clock call.event).Invariant
      fun state => state.Positive ∧ state.Armed where
  init := by
    rintro state rfl
    exact ⟨(invariant_positive hclock).init rfl, fun hne => absurd rfl hne⟩
  step := by
    rintro before after call ⟨hpositive, harmed⟩ ⟨hsteady, -, fuel, hrun⟩
    have hserves := (serve_spec hclock hpositive).1 fuel after _ hrun
    exact ⟨hserves.positive hpositive, (hserves.armed harmed).mpr hsteady⟩

/-- No timer is lost in a run whose calls are all steady: while one is pending, the alarm is
set for no later than the earliest deadline; every request is answered by one call that is
not early, or still waits for its deadline, unless the handler is asked for again. The next
call returns, and leaves the alarm set exactly if it is steady, too. -/
theorem armed_and_called_once {clock : Nat → Nat} (hclock : Monotone clock)
    {calls : List AlarmCall} {state : Alarms}
    (hrun : ((alarmSystem clock).restrict fun state call => state.SteadyCall clock call.event).Run
      calls state) :
    state.Armed ∧
      (∀ before call after func sec, calls = before ++ call :: after →
        call.event = .doopeyAlarm func sec →
        (∀ other ∈ after, ∀ sec, other.event ≠ .doopeyAlarm func sec) →
        Outcome 0 (callsOf func ((call :: after).flatMap AlarmCall.fired))
            (if sec = 0 then none else some (clock call.first + sec)) state.alarmMap[func]? ∧
          ∀ deadline, state.alarmMap[func]? = some deadline →
            ∀ other ∈ after, other.event = .sigalrm → clock other.first < deadline) ∧
      ∀ event,
        (∀ fuel after fired, state.serve clock fuel event = .ok (after, fired) →
          (after.Armed ↔ state.SteadyCall clock event)) ∧
        ∃ fuel after fired, state.serve clock fuel event = .ok (after, fired) := by
  have hstate := (invariant_armed hclock).run hrun
  obtain ⟨start, hinit, hsteps⟩ := hrun
  refine ⟨hstate.2, ?_, fun event => ?_⟩
  · rintro before call after func sec rfl hcall hother
    obtain ⟨middle, hbefore, hrest⟩ := hsteps.of_restrict.exists_of_append
    have hmiddle := (invariant_positive hclock).run ⟨start, hinit, hbefore⟩
    cases hrest with
    | cons hstep hafter =>
        obtain ⟨hfirst, fuel, hserve⟩ := hstep
        have hserves := (serve_spec hclock hmiddle).1 fuel _ _ hserve
        obtain ⟨houtcome, hahead⟩ :=
          outcome_of_steps hclock hafter (hserves.positive hmiddle) hother
        have hhead := hserves.outcome func
        rw [hcall, asked, if_pos rfl, ← hfirst] at hhead
        rw [List.flatMap_cons, callsOf_append]
        exact ⟨hhead.trans houtcome, hahead⟩
  · obtain ⟨hserves, hreturns⟩ := @serve_spec clock hclock state hstate.1 event
    exact ⟨fun fuel after fired hserve => (hserves fuel after fired hserve).armed hstate.2, hreturns⟩

/-- The clock shows 10 up to reading number `ticks`, and then `later`. -/
def tickAt (ticks later reads : Nat) : Nat := if reads < ticks then 10 else later

theorem tickAt_monotone {ticks later : Nat} (hlater : 10 ≤ later) : Monotone (tickAt ticks later) := by
  intro reads reads' hle
  unfold tickAt
  split
  next =>
    split
    next => exact Nat.le_refl _
    next => exact hlater
  next hlate => rw [if_neg (Nat.not_lt.mpr (Nat.le_trans (Nat.not_lt.mp hlate) hle))]

/-- Handler 1 asks for two seconds, and is called after three. -/
theorem armed_and_called_once_late :
    ∃ state : Alarms, state.Armed ∧ Outcome 0 [13] (some 12) state.alarmMap[1]? := by
  have hsteady : empty.SteadyCall (tickAt 4 13) (.doopeyAlarm 1 2) :=
    @Steady.arm _ _ _ (1, 12) (by decide) (by decide) (by decide) (by decide)
  have hrun : ((alarmSystem (tickAt 4 13)).restrict
      fun state call => state.SteadyCall (tickAt 4 13) call.event).Run
      [⟨.doopeyAlarm 1 2, 0, []⟩, ⟨.sigalrm, 4, [(1, 13)]⟩] ⟨(empty.alarmMap.insert 1 12).erase 1, none, 5⟩ :=
    ⟨empty, rfl, .cons ⟨hsteady, rfl, 2, rfl⟩ (.cons ⟨.done rfl, rfl, 2, rfl⟩ (.nil _))⟩
  obtain ⟨harmed, hcalled, -⟩ := armed_and_called_once (tickAt_monotone (by decide)) hrun
  exact ⟨_, harmed, (hcalled [] _ _ 1 2 rfl rfl (by simp)).1⟩

/-- The clock ticks right after the test of `alarmHandler`: the deadline 11 is still in the
map, but `alarm(0)` sets no alarm. -/
theorem not_forall_run_armed :
    ¬ ∀ clock : Nat → Nat, Monotone clock → ∀ calls state, (alarmSystem clock).Run calls state →
      state.Armed := by
  intro h
  have harmed := h (tickAt 3 11) (tickAt_monotone (by decide)) [⟨.doopeyAlarm 1 1, 0, []⟩]
    ⟨empty.alarmMap.insert 1 11, none, 4⟩ ⟨empty, rfl, .cons ⟨rfl, 1, rfl⟩ (.nil _)⟩
  obtain ⟨alarm, halarm, -⟩ := harmed (List.cons_ne_nil (1, 11) [])
  exact absurd halarm.symm (Option.some_ne_none _)

end Alarms

end Doopey
