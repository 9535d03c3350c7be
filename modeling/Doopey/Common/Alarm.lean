import Mathlib.Algebra.Group.Nat.Defs
import Mathlib.Data.List.Nodup
import Mathlib.Order.Monotone.Defs
import Mathlib.Order.Nat
import Std.Data.TreeMap
import Doopey.Common.Base
import Doopey.Foundation.Except

/-!
# One alarm for all timers

The process has one alarm, and `DoopeyAlarm` lets it go off for several handlers: a map
keeps the deadline of each, and `alarmHandler` calls those that are due and sets the
alarm for the earliest of the others.

The clock is a parameter. `clock k` is what call number `k` of `time` returns, in
seconds since the epoch; it may change between any two calls.
-/

namespace Doopey

open Foundation

/-- `sighandler_t`: the address of a function. -/
abbrev Handler := Nat

/-- The alarm that is set: since when, and after how many seconds it goes off. -/
structure Alarm where
  since : Nat
  delay : UInt32

/-- `alarmMap`, with the alarm of the process and the number of the next call of `time`. -/
structure Alarms where
  alarmMap : Std.TreeMap Handler Nat
  alarm : Option Alarm
  reads : Nat

/-- The variables of the loop of `alarmHandler`; `fired` is `todo`, with the time at which
each of the handlers was called. -/
structure Pickup where
  reads : Nat
  fired : List (Handler × Nat)
  min : Nat
  next : Option Handler

namespace Alarms

/-- No handler has a deadline. -/
def empty : Alarms := ⟨∅, none, 0⟩

/-- `alarm(seconds)`, right after the last call of `time`. It cancels the alarm that was
set, and sets none for `0`. -/
def setAlarm (clock : Nat → Nat) (state : Alarms) (seconds : UInt32) : Alarms :=
  { state with alarm := if seconds = 0 then none else some ⟨clock (state.reads - 1), seconds⟩ }

/-- The argument of `alarm` is an `unsigned int`. -/
def secondsUntil (deadline now : Nat) : UInt32 := .ofInt (deadline - now)

/-- One round of the loop of `alarmHandler`. -/
def pickup (clock : Nat → Nat) (picked : Pickup) (entry : Handler × Nat) : Pickup :=
  let now := clock picked.reads
  let picked := { picked with reads := picked.reads + 1 }
  if entry.2 ≤ now then { picked with fired := picked.fired ++ [(entry.1, now)] }
  else if picked.min = 0 ∨ entry.2 < picked.min then
    { picked with min := entry.2, next := some entry.1 }
  else picked

/-- `alarmHandler`: the new state, and the handlers that were called. -/
def alarmHandler (clock : Nat → Nat) : Nat → Alarms → Except Fault (Alarms × List (Handler × Nat))
  | 0, _ => .error .divergence
  | fuel + 1, state => do
      let picked := state.alarmMap.toList.foldl (pickup clock) ⟨state.reads, [], 0, none⟩
      let alarmMap := picked.fired.foldl (fun alarmMap call => alarmMap.erase call.1) state.alarmMap
      let state := { state with alarmMap := alarmMap, reads := picked.reads }
      match picked.next with
      | none => .ok (state, picked.fired)
      | some _ =>
          let now := clock state.reads
          let state := { state with reads := state.reads + 1 }
          -- the next one has become due in the meantime
          if picked.min ≤ now then do
            let (state, fired) ← alarmHandler clock fuel state
            .ok (state, picked.fired ++ fired)
          else
            let now := clock state.reads
            let state := { state with reads := state.reads + 1 }
            .ok (state.setAlarm clock (secondsUntil picked.min now), picked.fired)

/-- `DoopeyAlarm` -/
def doopeyAlarm (clock : Nat → Nat) (fuel : Nat) (state : Alarms) (func : Handler) (sec : Nat) :
    Except Fault (Alarms × List (Handler × Nat)) :=
  if sec = 0 then
    match state.alarmMap[func]? with
    | none => .ok (state, [])
    | some _ =>
        let state := { state with alarmMap := state.alarmMap.erase func }
        alarmHandler clock fuel (state.setAlarm clock 0)
  else
    let state := { state with
      alarmMap := state.alarmMap.insert func (clock state.reads + sec)
      reads := state.reads + 1 }
    alarmHandler clock fuel (state.setAlarm clock 0)

/-! ## The loop over the deadlines -/

/-- The handlers that the loop calls, each with the time. -/
def due (clock : Nat → Nat) : Nat → List (Handler × Nat) → List (Handler × Nat)
  | _, [] => []
  | reads, entry :: entries =>
      if entry.2 ≤ clock reads then (entry.1, clock reads) :: due clock (reads + 1) entries
      else due clock (reads + 1) entries

/-- The entries that are not due when the loop comes to them. -/
def left (clock : Nat → Nat) : Nat → List (Handler × Nat) → List (Handler × Nat)
  | _, [] => []
  | reads, entry :: entries =>
      if entry.2 ≤ clock reads then left clock (reads + 1) entries
      else entry :: left clock (reads + 1) entries

/-- `min` is the earliest deadline of the entries, and `next` has it. -/
def Earliest (min : Nat) (next : Option Handler) (entries : List (Handler × Nat)) : Prop :=
  match next with
  | none => min = 0 ∧ entries = []
  | some func => 0 < min ∧ (func, min) ∈ entries ∧ ∀ entry ∈ entries, min ≤ entry.2

/-- One more entry; `hround` says what the loop makes of it. -/
theorem Earliest.round {min min' : Nat} {next next' : Option Handler}
    {entries : List (Handler × Nat)} (h : Earliest min next entries) {entry : Handler × Nat}
    (hpositive : 0 < entry.2)
    (hround : (min = 0 ∨ entry.2 < min) ∧ min' = entry.2 ∧ next' = some entry.1 ∨
      ¬ (min = 0 ∨ entry.2 < min) ∧ min' = min ∧ next' = next) :
    Earliest min' next' (entries ++ [entry]) := by
  have hmem : entry ∈ entries ++ [entry] := List.mem_append_right _ (List.mem_singleton_self _)
  cases next with
  | none =>
      obtain ⟨hzero, rfl⟩ := h
      obtain ⟨-, rfl, rfl⟩ := hround.resolve_right fun hnot => hnot.1 (Or.inl hzero)
      exact ⟨hpositive, hmem, by simp⟩
  | some func =>
      obtain ⟨hmin, hfunc, hleast⟩ := h
      rcases hround with ⟨hless, rfl, rfl⟩ | ⟨hmore, rfl, rfl⟩
      · have hless := hless.resolve_left (Nat.ne_of_gt hmin)
        refine ⟨hpositive, hmem, fun other hother => ?_⟩
        rcases List.mem_append.mp hother with hother | hother
        · exact Nat.le_of_lt (Nat.lt_of_lt_of_le hless (hleast other hother))
        · exact Nat.le_of_eq (by rw [List.mem_singleton.mp hother])
      · refine ⟨hmin, List.mem_append_left _ hfunc, fun other hother => ?_⟩
        rcases List.mem_append.mp hother with hother | hother
        · exact hleast other hother
        · rw [List.mem_singleton.mp hother]
          exact Nat.le_of_not_lt fun hlt => hmore (Or.inr hlt)

section Loop

variable {clock : Nat → Nat} {entries : List (Handler × Nat)} {reads : Nat}

theorem left_sublist : (left clock reads entries).Sublist entries := by
  induction entries generalizing reads with
  | nil => exact List.Sublist.refl _
  | cons entry entries ih =>
      rw [left]
      split
      next => exact ih.cons entry
      next => exact ih.cons_cons entry

/-- The loop calls what is due, and picks the earliest of the others. -/
theorem foldl_pickup (hpositive : ∀ entry ∈ entries, 0 < entry.2) {picked : Pickup}
    {before : List (Handler × Nat)} (hearliest : Earliest picked.min picked.next before) :
    ∃ min next, entries.foldl (pickup clock) picked =
        ⟨picked.reads + entries.length, picked.fired ++ due clock picked.reads entries, min, next⟩ ∧
      Earliest min next (before ++ left clock picked.reads entries) := by
  induction entries generalizing picked before with
  | nil => exact ⟨picked.min, picked.next, by simp [due], by simpa [left] using hearliest⟩
  | cons entry entries ih =>
      obtain ⟨hentry, hpositive⟩ := List.forall_mem_cons.mp hpositive
      rw [List.foldl_cons, due, left, List.length_cons]
      by_cases hdue : entry.2 ≤ clock picked.reads
      · have hround : pickup clock picked entry = { picked with
            reads := picked.reads + 1
            fired := picked.fired ++ [(entry.1, clock picked.reads)] } := if_pos hdue
        obtain ⟨min, next, hfold, hmin⟩ := @ih hpositive (pickup clock picked entry) before
          (by rw [hround]; exact hearliest)
        rw [hround] at hfold hmin
        rw [if_pos hdue, if_pos hdue]
        refine ⟨min, next, ?_, hmin⟩
        rw [hround, hfold]
        simp [Nat.add_assoc, Nat.add_comm 1]
      · rw [if_neg hdue, if_neg hdue]
        obtain ⟨min, next, hround, hnext⟩ : ∃ min next, pickup clock picked entry =
            ⟨picked.reads + 1, picked.fired, min, next⟩ ∧
              Earliest min next (before ++ [entry]) := by
          unfold pickup
          dsimp only
          rw [if_neg hdue]
          split
          next hless => exact ⟨_, _, rfl, hearliest.round hentry (Or.inl ⟨hless, rfl, rfl⟩)⟩
          next hmore => exact ⟨_, _, rfl, hearliest.round hentry (Or.inr ⟨hmore, rfl, rfl⟩)⟩
        obtain ⟨min', next', hfold, hmin⟩ := @ih hpositive (pickup clock picked entry)
          (before ++ [entry]) (by rw [hround]; exact hnext)
        rw [hround] at hfold hmin
        refine ⟨min', next', ?_, by simpa using hmin⟩
        rw [hround, hfold]
        simp [Nat.add_assoc, Nat.add_comm 1]

end Loop

/-! ## What a call of the handler does -/

/-- The times at which `func` was called. -/
def callsOf (func : Handler) (fired : List (Handler × Nat)) : List Nat :=
  fired.filterMap fun call => if call.1 = func then some call.2 else none

theorem callsOf_cons_self {func : Handler} {time : Nat} {fired : List (Handler × Nat)} :
    callsOf func ((func, time) :: fired) = time :: callsOf func fired :=
  List.filterMap_cons_some (if_pos rfl)

theorem callsOf_cons_of_ne {func other : Handler} {time : Nat} {fired : List (Handler × Nat)}
    (hne : other ≠ func) : callsOf func ((other, time) :: fired) = callsOf func fired :=
  List.filterMap_cons_none (if_neg hne)

theorem callsOf_append {func : Handler} {fired rest : List (Handler × Nat)} :
    callsOf func (fired ++ rest) = callsOf func fired ++ callsOf func rest :=
  List.filterMap_append

/-- What becomes of the deadline that a handler has when a call begins at the time `start`:
it is kept and lies after `start`, or the handler is called once, not before it. -/
def Outcome (start : Nat) (calls : List Nat) (before after : Option Nat) : Prop :=
  match before with
  | none => after = none ∧ calls = []
  | some deadline => after = some deadline ∧ calls = [] ∧ start < deadline ∨
      after = none ∧ ∃ time, deadline ≤ time ∧ calls = [time]

/-- One call after the other. -/
theorem Outcome.trans {start start' : Nat} {calls calls' : List Nat} {before middle after : Option Nat}
    (h : Outcome start calls before middle) (h' : Outcome start' calls' middle after) :
    Outcome start (calls ++ calls') before after := by
  cases before with
  | none =>
      obtain ⟨rfl, rfl⟩ := h
      exact h'
  | some deadline =>
      rcases h with ⟨rfl, rfl, hstart⟩ | ⟨rfl, time, htime, rfl⟩
      · rcases h' with ⟨hafter, hcalls, -⟩ | hcalled
        · exact Or.inl ⟨hafter, hcalls, hstart⟩
        · exact Or.inr hcalled
      · obtain ⟨rfl, rfl⟩ := h'
        exact Or.inr ⟨rfl, time, htime, rfl⟩

section Calls

variable {clock : Nat → Nat} {entries : List (Handler × Nat)} {reads : Nat}

/-- What is left of the entries lies after the time at which the loop began. -/
theorem lt_of_mem_left (hclock : Monotone clock) {entry : Handler × Nat}
    (hmem : entry ∈ left clock reads entries) : clock reads < entry.2 := by
  induction entries generalizing reads with
  | nil => exact absurd hmem List.not_mem_nil
  | cons head entries ih =>
      have hnext : clock reads ≤ clock (reads + 1) := hclock (Nat.le_succ reads)
      rw [left] at hmem
      split at hmem
      next => exact Nat.lt_of_le_of_lt hnext (ih hmem)
      next hlater =>
        rcases List.mem_cons.mp hmem with rfl | hmem
        · exact Nat.lt_of_not_le hlater
        · exact Nat.lt_of_le_of_lt hnext (ih hmem)

/-- If a deadline has passed before the loop, fewer are left. -/
theorem length_left_lt (hclock : Monotone clock) {entry : Handler × Nat} (hmem : entry ∈ entries)
    (hdue : entry.2 ≤ clock reads) : (left clock reads entries).length < entries.length := by
  apply Nat.lt_of_le_of_ne left_sublist.length_le
  intro hlength
  rw [← left_sublist.eq_of_length hlength] at hmem
  exact Nat.not_lt.mpr hdue (lt_of_mem_left hclock hmem)

theorem callsOf_due_of_forall_ne {func : Handler} (hne : ∀ entry ∈ entries, entry.1 ≠ func) :
    callsOf func (due clock reads entries) = [] := by
  induction entries generalizing reads with
  | nil => rfl
  | cons entry entries ih =>
      obtain ⟨hentry, hne⟩ := List.forall_mem_cons.mp hne
      rw [due]
      split
      next =>
        rw [callsOf_cons_of_ne hentry]
        exact ih hne
      next => exact ih hne

/-- The loop calls the handler of an entry once, or leaves the entry. -/
theorem due_or_left
    (hkeys : entries.Pairwise fun entry other => entry.1 ≠ other.1) {entry : Handler × Nat}
    (hmem : entry ∈ entries) :
    entry ∈ left clock reads entries ∧ callsOf entry.1 (due clock reads entries) = [] ∨
      entry ∉ left clock reads entries ∧
        ∃ time, entry.2 ≤ time ∧ callsOf entry.1 (due clock reads entries) = [time] := by
  induction entries generalizing reads with
  | nil => exact absurd hmem List.not_mem_nil
  | cons head entries ih =>
      obtain ⟨hhead, hkeys⟩ := List.pairwise_cons.mp hkeys
      rw [left, due]
      rcases List.mem_cons.mp hmem with rfl | hmem
      · have hrest : callsOf entry.1 (due clock (reads + 1) entries) = [] :=
          callsOf_due_of_forall_ne fun other hother => (hhead other hother).symm
        split
        next hdue =>
          refine Or.inr ⟨fun hleft => hhead entry (left_sublist.subset hleft) rfl,
            clock reads, hdue, ?_⟩
          rw [← hrest]
          exact callsOf_cons_self
        next => exact Or.inl ⟨List.mem_cons_self, hrest⟩
      · have hne := hhead entry hmem
        split
        next =>
          rw [callsOf_cons_of_ne hne]
          exact ih hkeys hmem
        next =>
          rw [List.mem_cons, or_iff_right fun heq : entry = head => hne (congrArg Prod.fst heq.symm)]
          exact ih hkeys hmem

/-- Erasing what was called. -/
theorem getElem?_foldl_erase {alarmMap : Std.TreeMap Handler Nat} {fired : List (Handler × Nat)}
    {func : Handler} :
    (fired.foldl (fun alarmMap call => alarmMap.erase call.1) alarmMap)[func]? =
      if callsOf func fired = [] then alarmMap[func]? else none := by
  induction fired generalizing alarmMap with
  | nil => rfl
  | cons call fired ih =>
      obtain ⟨other, time⟩ := call
      rw [List.foldl_cons, ih, Std.TreeMap.getElem?_erase]
      by_cases hcall : other = func
      · subst hcall
        rw [callsOf_cons_self, if_neg (List.cons_ne_nil _ _)]
        simp
      · rw [callsOf_cons_of_ne hcall]
        simp [hcall]

variable {alarmMap : Std.TreeMap Handler Nat}

theorem keys_distinct : alarmMap.toList.Pairwise fun entry other => entry.1 ≠ other.1 :=
  alarmMap.distinct_keys_toList.imp fun hne heq => hne (compare_eq_iff_eq.mpr heq)

/-- The entries that the map keeps are those that the loop leaves. -/
theorem toList_foldl_erase :
    ((due clock reads alarmMap.toList).foldl
      (fun alarmMap call => alarmMap.erase call.1) alarmMap).toList =
        left clock reads alarmMap.toList := by
  have hsorted : (left clock reads alarmMap.toList).Pairwise
      fun entry other => compare entry.1 other.1 = .lt :=
    alarmMap.ordered_keys_toList.sublist left_sublist
  have hnodup {entries : List (Handler × Nat)}
      (hsorted : entries.Pairwise fun entry other => compare entry.1 other.1 = .lt) :
      entries.Nodup :=
    hsorted.imp fun hless heq => by simp [heq] at hless
  apply List.Perm.eq_of_pairwise _ Std.TreeMap.ordered_keys_toList hsorted
  · apply (List.perm_ext_iff_of_nodup (hnodup Std.TreeMap.ordered_keys_toList)
      (hnodup hsorted)).mpr
    intro entry
    rw [Std.TreeMap.mem_toList_iff_getElem?_eq_some, getElem?_foldl_erase]
    constructor
    · intro hkept
      split at hkept
      next hcalls =>
        have hmem := Std.TreeMap.mem_toList_iff_getElem?_eq_some.mpr hkept
        rcases due_or_left keys_distinct hmem with hleft | ⟨-, time, -, hcalled⟩
        · exact hleft.1
        · rw [hcalled] at hcalls
          exact absurd hcalls (List.cons_ne_nil _ _)
      next => exact absurd hkept.symm (Option.some_ne_none _)
    · intro hleft
      have hmem := left_sublist.subset hleft
      rcases due_or_left keys_distinct hmem with ⟨-, hcalls⟩ | hcalled
      · rw [if_pos hcalls]
        exact Std.TreeMap.mem_toList_iff_getElem?_eq_some.mp hmem
      · exact absurd hleft hcalled.1
  · intro entry other _ _ hless hmore
    exact absurd (Nat.compare_eq_lt.mp hless) (Nat.lt_asymm (Nat.compare_eq_lt.mp hmore))

/-- What the loop makes of a deadline. -/
theorem outcome_due (hclock : Monotone clock) {func : Handler} :
    Outcome (clock reads) (callsOf func (due clock reads alarmMap.toList)) alarmMap[func]?
      ((due clock reads alarmMap.toList).foldl
        (fun alarmMap call => alarmMap.erase call.1) alarmMap)[func]? := by
  rw [getElem?_foldl_erase]
  cases hfunc : alarmMap[func]? with
  | none =>
      have hne : ∀ entry ∈ alarmMap.toList, entry.1 ≠ func := by
        rintro entry hmem rfl
        rw [Std.TreeMap.mem_toList_iff_getElem?_eq_some.mp hmem] at hfunc
        exact absurd hfunc (Option.some_ne_none _)
      rw [callsOf_due_of_forall_ne hne]
      exact ⟨rfl, rfl⟩
  | some deadline =>
      have hmem := Std.TreeMap.mem_toList_iff_getElem?_eq_some.mpr hfunc
      rcases due_or_left keys_distinct hmem with ⟨hleft, hcalls⟩ | ⟨-, time, htime, hcalls⟩
      · rw [hcalls, if_pos rfl]
        exact Or.inl ⟨rfl, rfl, lt_of_mem_left hclock hleft⟩
      · rw [hcalls, if_neg (List.cons_ne_nil _ _)]
        exact Or.inr ⟨rfl, time, htime, rfl⟩

end Calls

/-! ## Setting the alarm again -/

/-- While a handler has a deadline, the alarm is set, and goes off when none has passed. -/
def Armed (state : Alarms) : Prop :=
  state.alarmMap.toList ≠ [] →
    ∃ alarm, state.alarm = some alarm ∧ 0 < alarm.delay ∧
      ∀ entry ∈ state.alarmMap.toList, alarm.since + alarm.delay.toNat ≤ entry.2

/-- What the readings of a call must be for it to set the alarm: when it computes the
delay, the earliest deadline that is left still lies ahead, and the delay is not cut to `0`. -/
inductive Steady (clock : Nat → Nat) : Nat → List (Handler × Nat) → Prop
  | done {reads : Nat} {entries : List (Handler × Nat)} (hleft : left clock reads entries = []) :
      Steady clock reads entries
  | again {reads : Nat} {entries : List (Handler × Nat)} {entry : Handler × Nat}
      (hmem : entry ∈ left clock reads entries)
      (hdue : entry.2 ≤ clock (reads + entries.length))
      (hrest : Steady clock (reads + entries.length + 1) (left clock reads entries)) :
      Steady clock reads entries
  | arm {reads : Nat} {entries : List (Handler × Nat)} {entry : Handler × Nat}
      (hmem : entry ∈ left clock reads entries)
      (hleast : ∀ other ∈ left clock reads entries, entry.2 ≤ other.2)
      (hahead : clock (reads + entries.length + 1) < entry.2)
      (hdelay : ¬ 2 ^ 32 ∣ entry.2 - clock (reads + entries.length + 1)) :
      Steady clock reads entries

theorem toNat_secondsUntil {deadline now : Nat} (hahead : now < deadline) :
    (secondsUntil deadline now).toNat = (deadline - now) % 2 ^ 32 := by
  rw [secondsUntil, ← Int.ofNat_sub (Nat.le_of_lt hahead)]
  exact Nat.mod_eq_of_lt (Nat.mod_lt _ (Nat.two_pow_pos 32))

/-- The alarm that is set for the earliest deadline. -/
theorem armed_setAlarm_iff {clock : Nat → Nat} {state : Alarms} {entry : Handler × Nat}
    (hmem : entry ∈ state.alarmMap.toList)
    (hleast : ∀ other ∈ state.alarmMap.toList, entry.2 ≤ other.2) {now : Nat}
    (hnow : clock (state.reads - 1) = now) :
    (state.setAlarm clock (secondsUntil entry.2 now)).Armed ↔
      now < entry.2 ∧ ¬ 2 ^ 32 ∣ entry.2 - now := by
  have hne : state.alarmMap.toList ≠ [] := List.ne_nil_of_mem hmem
  constructor
  · intro harmed
    obtain ⟨alarm, halarm, hpositive, hbefore⟩ := harmed hne
    by_cases hzero : secondsUntil entry.2 now = 0
    · exact absurd halarm (by simp [setAlarm, hzero])
    · obtain rfl : ⟨now, secondsUntil entry.2 now⟩ = alarm := by
        simpa [setAlarm, hzero, hnow] using halarm
      have hpositive : 0 < (secondsUntil entry.2 now).toNat := UInt32.lt_iff_toNat_lt.mp hpositive
      have hahead : now < entry.2 :=
        Nat.lt_of_lt_of_le (Nat.lt_add_of_pos_right hpositive) (hbefore entry hmem)
      refine ⟨hahead, fun hdvd => ?_⟩
      rw [toNat_secondsUntil hahead, Nat.mod_eq_zero_of_dvd hdvd] at hpositive
      exact Nat.lt_irrefl 0 hpositive
  · rintro ⟨hahead, hdvd⟩ -
    have htoNat := toNat_secondsUntil hahead
    have hpositive : 0 < (secondsUntil entry.2 now).toNat := by
      rw [htoNat]
      exact Nat.pos_of_ne_zero fun hzero => hdvd (Nat.dvd_of_mod_eq_zero hzero)
    have hne : secondsUntil entry.2 now ≠ 0 := by
      intro hzero
      rw [hzero] at hpositive
      exact absurd hpositive (Nat.lt_irrefl 0)
    refine ⟨⟨now, secondsUntil entry.2 now⟩, ?_, UInt32.lt_iff_toNat_lt.mpr hpositive, ?_⟩
    · simp [setAlarm, hne, hnow]
    · intro other hother
      have hcut : (secondsUntil entry.2 now).toNat ≤ entry.2 - now := by
        rw [htoNat]
        exact Nat.mod_le _ _
      have hother := hleast other hother
      show now + (secondsUntil entry.2 now).toNat ≤ other.2
      omega

/-- What a call of the alarm does to the deadlines. -/
structure Handles (clock : Nat → Nat) (before after : Alarms) (fired : List (Handler × Nat)) :
    Prop where
  outcome (func : Handler) :
    Outcome (clock before.reads) (callsOf func fired) before.alarmMap[func]? after.alarmMap[func]?
  armed : after.Armed ↔ Steady clock before.reads before.alarmMap.toList

/-- The rounds that follow the first see what it left. -/
theorem steady_iff_of_due {clock : Nat → Nat} {reads : Nat} {entries : List (Handler × Nat)}
    {entry : Handler × Nat} (hmem : entry ∈ left clock reads entries)
    (hdue : entry.2 ≤ clock (reads + entries.length)) (hclock : Monotone clock) :
    Steady clock reads entries ↔
      Steady clock (reads + entries.length + 1) (left clock reads entries) := by
  constructor
  · intro hsteady
    cases hsteady with
    | done hleft =>
        rw [hleft] at hmem
        exact absurd hmem List.not_mem_nil
    | again _ _ hrest => exact hrest
    | arm _ hleast hahead _ =>
        have hnext := hclock (Nat.le_succ (reads + entries.length))
        exact absurd (Nat.lt_of_lt_of_le hahead (hleast entry hmem))
          (Nat.not_lt.mpr (Nat.le_trans hdue hnext))
  · exact .again hmem hdue

/-- No other round follows. -/
theorem steady_iff_of_ahead {clock : Nat → Nat} {reads : Nat} {entries : List (Handler × Nat)}
    {entry : Handler × Nat} (hmem : entry ∈ left clock reads entries)
    (hleast : ∀ other ∈ left clock reads entries, entry.2 ≤ other.2)
    (hahead : clock (reads + entries.length) < entry.2) :
    Steady clock reads entries ↔ clock (reads + entries.length + 1) < entry.2 ∧
      ¬ 2 ^ 32 ∣ entry.2 - clock (reads + entries.length + 1) := by
  constructor
  · intro hsteady
    cases hsteady with
    | done hleft =>
        rw [hleft] at hmem
        exact absurd hmem List.not_mem_nil
    | again hother hdue _ =>
        exact absurd (Nat.lt_of_lt_of_le hahead (hleast _ hother)) (Nat.not_lt.mpr hdue)
    | arm hother hleast' hahead' hdelay =>
        rw [Nat.le_antisymm (hleast _ hother) (hleast' entry hmem)]
        exact ⟨hahead', hdelay⟩
  · rintro ⟨hahead, hdelay⟩
    exact .arm hmem hleast hahead hdelay

/-- The handler, whatever the fuel; for it to return, one unit more than there are deadlines
left is enough. -/
theorem alarmHandler_spec {clock : Nat → Nat} (hclock : Monotone clock) {fuel : Nat}
    {state : Alarms} (hpositive : ∀ entry ∈ state.alarmMap.toList, 0 < entry.2) :
    (∀ after fired, alarmHandler clock fuel state = .ok (after, fired) →
      Handles clock state after fired) ∧
    ((left clock state.reads state.alarmMap.toList).length < fuel →
      ∃ after fired, alarmHandler clock fuel state = .ok (after, fired)) := by
  induction fuel generalizing state with
  | zero => exact ⟨fun after fired hrun => (nomatch hrun), fun hfuel => absurd hfuel (Nat.not_lt_zero _)⟩
  | succ fuel ih =>
      obtain ⟨min, next, hfold, hearliest⟩ := @foldl_pickup clock _ hpositive
        ⟨state.reads, [], 0, none⟩ [] ⟨rfl, rfl⟩
      rw [List.nil_append] at hfold hearliest
      have houtcome := fun func => @outcome_due clock state.reads state.alarmMap hclock func
      have hentries := @toList_foldl_erase clock state.reads state.alarmMap
      generalize hmap : (due clock state.reads state.alarmMap.toList).foldl
        (fun alarmMap call => alarmMap.erase call.1) state.alarmMap = alarmMap at houtcome hentries
      -- what is left of the map after the round, and the alarm to set for it
      rw [alarmHandler, hfold]
      dsimp only
      rw [hmap]
      cases next with
      | none =>
          obtain ⟨-, hleft⟩ := hearliest
          refine ⟨fun after fired hrun => ?_, fun _ => ⟨_, _, rfl⟩⟩
          obtain ⟨rfl, rfl⟩ := Prod.mk.inj (Except.ok.inj hrun)
          have hempty : alarmMap.toList = [] := hentries.trans hleft
          exact ⟨houtcome, iff_of_true (fun hne => absurd hempty hne) (.done hleft)⟩
      | some func =>
          obtain ⟨hmin, hfunc, hleast⟩ := hearliest
          by_cases hdue : min ≤ clock (state.reads + state.alarmMap.toList.length)
          · -- a tick has made the earliest of the others due, and the next round calls it
            dsimp only
            rw [if_pos hdue]
            have hsteady := steady_iff_of_due hfunc hdue hclock
            have hshorter := length_left_lt hclock hfunc
              (Nat.le_trans hdue (hclock (Nat.le_succ _)))
            rw [← hentries] at hsteady hshorter
            obtain ⟨hhandles, hreturns⟩ := @ih
              ⟨alarmMap, state.alarm, state.reads + state.alarmMap.toList.length + 1⟩
              (fun entry hentry => hpositive entry (left_sublist.subset (hentries ▸ hentry)))
            constructor
            · intro after fired hrun
              obtain ⟨⟨after', fired'⟩, hrun', hresult⟩ := bind_eq_ok_iff.mp hrun
              obtain ⟨rfl, rfl⟩ := Prod.mk.inj (Except.ok.inj hresult)
              have hrest := hhandles after' fired' hrun'
              refine ⟨fun other => ?_, hrest.armed.trans hsteady.symm⟩
              rw [callsOf_append]
              exact (houtcome other).trans (hrest.outcome other)
            · intro hfuel
              rw [← hentries] at hfuel
              obtain ⟨after, fired, hrun⟩ :=
                hreturns (Nat.lt_of_lt_of_le hshorter (Nat.le_of_lt_succ hfuel))
              rw [hrun]
              exact ⟨_, _, rfl⟩
          · -- the alarm is set for the earliest of those that are left
            dsimp only
            rw [if_neg hdue]
            refine ⟨fun after fired hrun => ?_, fun _ => ⟨_, _, rfl⟩⟩
            obtain ⟨rfl, rfl⟩ := Prod.mk.inj (Except.ok.inj hrun)
            refine ⟨houtcome, ?_⟩
            have hsteady := steady_iff_of_ahead hfunc hleast (Nat.lt_of_not_le hdue)
            rw [← hentries] at hfunc hleast
            exact Iff.trans (@armed_setAlarm_iff clock
              ⟨alarmMap, state.alarm, state.reads + state.alarmMap.toList.length + 2⟩ _ hfunc hleast
              _ rfl) hsteady.symm

end Alarms

end Doopey
