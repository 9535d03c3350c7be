import Doopey.Foundation.Runs
import Doopey.Block.LocationAttr

/-!
# Calls on a list of machines

The three calls of `BlockLocationAttr` that change the list of machines.
`removeMachine` begins behind the end of the list and counts down an unsigned
number for as long as it is not negative; `replaceMachine` does not look for the
new machine on the list. The other calls keep the list in order.
-/

namespace Doopey

open Foundation

/-- The calls that change a list of machines. -/
inductive MachineCall
  | addMachine (m : MachineID)
  | removeMachine (m : MachineID)
  | replaceMachine (m1 m2 : MachineID)

namespace BlockLocationAttr

/-- The loop of `removeMachine`. -/
def removeLoop (m : MachineID) : Nat → UInt64 → List MachineID → Except Fault (List MachineID)
  | 0, _, _ => .error .divergence
  | fuel + 1, i, machine =>
      if i ≥ 0 then
        match machine[i.toNat]? with
        | none => .error .outOfBounds
        | some other =>
            removeLoop m fuel (i - 1) (if m = other then machine.eraseIdx i.toNat else machine)
      else .ok machine

/-- `BlockLocationAttr::removeMachine` -/
def removeMachine (fuel : Nat) (attr : BlockLocationAttr) (m : MachineID) :
    Except Fault BlockLocationAttr := do
  let machine ← removeLoop m fuel (UInt64.ofNat attr.machine.length) attr.machine
  .ok { attr with machine := machine }

/-- The loop of `replaceMachine`: whether it finds `m1`, and the list it leaves. -/
def replaceLoop (m1 m2 : MachineID) : List MachineID → Bool × List MachineID
  | [] => (false, [])
  | m :: machine =>
      let (succ, machine) := replaceLoop m1 m2 machine
      if m1 = m then (true, m2 :: machine) else (succ, m :: machine)

/-- `BlockLocationAttr::replaceMachine` -/
def replaceMachine (attr : BlockLocationAttr) (m1 m2 : MachineID) : Bool × BlockLocationAttr :=
  let (succ, machine) := replaceLoop m1 m2 attr.machine
  (succ, { attr with machine := machine.insertionSort (· ≤ ·) })

/-- The `bool` that `addMachine` returns. -/
def addsMachine (blockReplica : UInt64) (attr : BlockLocationAttr) (m : MachineID) : Bool :=
  decide (attr.machine.length < blockReplica.toNat ∧ m ∉ attr.machine)

/-- A call, with what it returns if it returns something. -/
def perform (blockReplica : UInt64) (fuel : Nat) (attr : BlockLocationAttr) :
    MachineCall → Except Fault (Option Bool × BlockLocationAttr)
  | .addMachine m => .ok (some (attr.addsMachine blockReplica m), attr.addMachine blockReplica m)
  | .removeMachine m => do
      let attr ← attr.removeMachine fuel m
      .ok (none, attr)
  | .replaceMachine m1 m2 =>
      .ok (some (attr.replaceMachine m1 m2).1, (attr.replaceMachine m1 m2).2)

/-! ## What a call should do -/

/-- The machines on the list behind a call. -/
def MachinesAfter (blockReplica : UInt64) (machines : List MachineID) (other : MachineID) :
    MachineCall → Prop
  | .addMachine m => other ∈ machines ∨ other = m ∧ machines.length < blockReplica.toNat
  | .removeMachine m => other ∈ machines ∧ other ≠ m
  | .replaceMachine m1 m2 =>
      if m1 ∈ machines then other ∈ machines ∧ other ≠ m1 ∨ other = m2 else other ∈ machines

/-- The call ends, and leaves the right machines in order; `replaceMachine` says
whether the machine was found. -/
def Performs (blockReplica : UInt64) (attr : BlockLocationAttr) (call : MachineCall) : Prop :=
  ∃ fuel ret after, attr.perform blockReplica fuel call = .ok (ret, after) ∧
    InOrder blockReplica after.machine ∧
    (∀ other, other ∈ after.machine ↔ MachinesAfter blockReplica attr.machine other call) ∧
    ∀ m1 m2, call = .replaceMachine m1 m2 → ret = some (decide (m1 ∈ attr.machine))

/-- The call removes nothing, and does not replace a machine by another one that is on
the list already. -/
def Sparing (attr : BlockLocationAttr) : MachineCall → Prop
  | .addMachine _ => True
  | .removeMachine _ => False
  | .replaceMachine m1 m2 => m1 ∈ attr.machine → m2 ∈ attr.machine → m1 = m2

/-- The lists that the calls lead to, beginning with an empty one. -/
def changing (blockReplica : UInt64) : System BlockLocationAttr MachineCall where
  init attr := attr.machine = []
  step attr call after := ∃ fuel ret, attr.perform blockReplica fuel call = .ok (ret, after)

variable {blockReplica : UInt64} {attr : BlockLocationAttr}

/-! ## One call -/

/-- The first machine that `removeMachine` looks at is behind the end of the list. -/
theorem removeMachine_ne_ok (hlength : attr.machine.length < 2 ^ 64) (fuel : Nat) (m : MachineID)
    (after : BlockLocationAttr) : attr.removeMachine fuel m ≠ .ok after := by
  have hbeyond : attr.machine[(UInt64.ofNat attr.machine.length).toNat]? = none := by
    rw [UInt64.toNat_ofNat_of_lt' hlength]
    exact List.getElem?_eq_none (Nat.le_refl _)
  rw [removeMachine]
  cases fuel with
  | zero => simp [removeLoop]
  | succ fuel =>
      rw [removeLoop, if_pos (UInt64.zero_le), hbeyond]
      simp

theorem replaceLoop_eq (m1 m2 : MachineID) (machines : List MachineID) :
    replaceLoop m1 m2 machines =
      (decide (m1 ∈ machines), machines.map fun m => if m1 = m then m2 else m) := by
  induction machines with
  | nil => rfl
  | cons m machines ih =>
      rw [replaceLoop, ih]
      by_cases heq : m1 = m
      · simp [heq]
      · simp [heq]

theorem machine_replaceMachine (attr : BlockLocationAttr) (m1 m2 : MachineID) :
    (attr.replaceMachine m1 m2).2.machine =
      (attr.machine.map fun m => if m1 = m then m2 else m).insertionSort (· ≤ ·) := by
  rw [replaceMachine, replaceLoop_eq]

theorem mem_replaceMachine {m1 m2 other : MachineID} :
    other ∈ (attr.replaceMachine m1 m2).2.machine ↔
      MachinesAfter blockReplica attr.machine other (.replaceMachine m1 m2) := by
  rw [machine_replaceMachine, List.mem_insertionSort, List.mem_map, MachinesAfter]
  constructor
  · rintro ⟨m, hm, rfl⟩
    by_cases heq : m1 = m
    · subst heq
      simp [hm]
    · rw [if_neg heq]
      split
      next => exact Or.inl ⟨hm, Ne.symm heq⟩
      next => exact hm
  · split
    next hfound =>
      rintro (⟨hother, hne⟩ | rfl)
      · exact ⟨other, hother, if_neg (Ne.symm hne)⟩
      · exact ⟨m1, hfound, if_pos rfl⟩
    next hfound =>
      intro hother
      refine ⟨other, hother, if_neg ?_⟩
      rintro rfl
      exact hfound hother

/-- The list without repetitions is sorted strictly. -/
theorem increasing_replaceMachine_iff {m1 m2 : MachineID} :
    (attr.replaceMachine m1 m2).2.machine.Pairwise (· < ·) ↔
      (attr.machine.map fun m => if m1 = m then m2 else m).Nodup := by
  have hperm := List.perm_insertionSort (· ≤ ·) (attr.machine.map fun m => if m1 = m then m2 else m)
  have hsorted := List.pairwise_insertionSort (· ≤ ·)
    (attr.machine.map fun m => if m1 = m then m2 else m)
  rw [machine_replaceMachine]
  constructor
  · intro hincreasing
    exact hperm.nodup_iff.mp (hincreasing.imp fun hlt => UInt32.ne_of_lt hlt)
  · intro hnodup
    exact (hsorted.and (hperm.nodup_iff.mpr hnodup)).imp fun hboth =>
      UInt32.lt_of_le_of_ne hboth.1 hboth.2

/-- A machine is written once if it is not on the list, or stays where it is. -/
theorem nodup_replace_iff {machines : List MachineID} (hnodup : machines.Nodup) {m1 m2 : MachineID} :
    (machines.map fun m => if m1 = m then m2 else m).Nodup ↔
      (m1 ∈ machines → m2 ∈ machines → m1 = m2) := by
  constructor
  · intro hmap hm1 hm2
    by_contra hne
    have heq := List.inj_on_of_nodup_map hmap hm1 hm2 (by rw [if_pos rfl, if_neg hne])
    exact hne heq
  · intro hsparing
    refine hnodup.map_on fun x hx y hy heq => ?_
    by_cases hx1 : m1 = x
    · by_cases hy1 : m1 = y
      · exact hx1.symm.trans hy1
      · rw [if_pos hx1, if_neg hy1] at heq
        subst hx1 heq
        exact hsparing hx hy
    · by_cases hy1 : m1 = y
      · rw [if_neg hx1, if_pos hy1] at heq
        subst hy1 heq
        exact (hsparing hy hx).symm
      · rwa [if_neg hx1, if_neg hy1] at heq

theorem length_replaceMachine (attr : BlockLocationAttr) (m1 m2 : MachineID) :
    (attr.replaceMachine m1 m2).2.machine.length = attr.machine.length := by
  rw [machine_replaceMachine, List.length_insertionSort, List.length_map]

theorem mem_addMachine_iff_machinesAfter {m other : MachineID} :
    other ∈ (attr.addMachine blockReplica m).machine ↔
      MachinesAfter blockReplica attr.machine other (.addMachine m) := by
  by_cases hroom : attr.machine.length < blockReplica.toNat
  · simp [mem_addMachine_iff hroom, MachinesAfter, hroom]
  · have hfull : attr.addMachine blockReplica m = attr := if_pos (Nat.not_lt.mp hroom)
    simp [hfull, MachinesAfter, hroom]

/-- On a list in order, a call does what it should exactly if it is sparing. -/
theorem performs_iff (h : InOrder blockReplica attr.machine) (call : MachineCall) :
    attr.Performs blockReplica call ↔ attr.Sparing call := by
  cases call with
  | addMachine m =>
      refine iff_of_true ⟨0, _, _, rfl, inOrder_addMachine h m, ?_, by simp⟩ trivial
      exact fun other => mem_addMachine_iff_machinesAfter
  | removeMachine m =>
      refine iff_of_false ?_ id
      rintro ⟨fuel, ret, after, hperform, -⟩
      obtain ⟨removed, hremove, -⟩ := bind_eq_ok_iff.mp hperform
      have hlength := Nat.lt_of_le_of_lt h.2 blockReplica.toNat_lt
      exact removeMachine_ne_ok hlength fuel m removed hremove
  | replaceMachine m1 m2 =>
      have hnodup : attr.machine.Nodup := h.1.imp fun hlt => UInt32.ne_of_lt hlt
      rw [Sparing, ← nodup_replace_iff hnodup, ← increasing_replaceMachine_iff]
      constructor
      · rintro ⟨fuel, ret, after, hperform, hafter, -⟩
        obtain ⟨-, rfl⟩ := Prod.mk.inj (Except.ok.inj hperform)
        exact hafter.1
      · intro hincreasing
        refine ⟨0, _, _, rfl, ⟨hincreasing, ?_⟩, fun other => mem_replaceMachine, ?_⟩
        · exact (length_replaceMachine attr m1 m2).trans_le h.2
        · rintro _ _ ⟨⟩
          rw [replaceMachine, replaceLoop_eq]

/-! ## Runs -/

theorem inOrder_sparing : ((changing blockReplica).restrict Sparing).Invariant
    fun attr => InOrder blockReplica attr.machine where
  init hinit := by
    rw [InOrder, hinit]
    exact ⟨.nil, Nat.zero_le _⟩
  step := by
    rintro attr after call h ⟨hsparing, fuel, ret, hstep⟩
    cases call with
    | addMachine m =>
        obtain ⟨-, rfl⟩ := Prod.mk.inj (Except.ok.inj hstep)
        exact inOrder_addMachine h m
    | removeMachine m => exact hsparing.elim
    | replaceMachine m1 m2 =>
        obtain ⟨fuel', ret', after', hperform, hafter, -⟩ := (performs_iff h _).mpr hsparing
        obtain ⟨-, rfl⟩ := Prod.mk.inj (Except.ok.inj (hperform.symm.trans hstep))
        exact hafter

/-- After calls that remove nothing and put no machine on the list twice, the list is in
order, and the next call does what it should exactly if it is one of these, too. -/
theorem machines_inOrder {calls : List MachineCall}
    (hrun : ((changing blockReplica).restrict Sparing).Run calls attr) :
    InOrder blockReplica attr.machine ∧
      ∀ call, attr.Performs blockReplica call ↔ attr.Sparing call := by
  have h := inOrder_sparing.run hrun
  exact ⟨h, performs_iff h⟩

/-- Two machines are added, and one of them is replaced. -/
theorem machines_inOrder_example : ∃ attr : BlockLocationAttr, attr.machine = [2, 3] ∧
    InOrder 2 attr.machine ∧ attr.Performs 2 (.replaceMachine 3 1) := by
  have hrun : ((changing 2).restrict Sparing).Run
      [.addMachine 5, .addMachine 3, .replaceMachine 5 2] ⟨7, [2, 3], .available⟩ := by
    refine ⟨⟨7, [], .available⟩, rfl, .cons ⟨trivial, 0, _, rfl⟩ (.cons ⟨trivial, 0, _, rfl⟩
      (.cons ⟨?_, 0, _, rfl⟩ (.nil _)))⟩
    exact fun _ hm2 => absurd hm2 (by decide)
  obtain ⟨h, hperforms⟩ := machines_inOrder hrun
  exact ⟨_, rfl, h, (hperforms _).mpr fun _ hm2 => absurd hm2 (by decide)⟩

/-- The only machine on a list cannot be removed; and a machine that is replaced by another one
of the list leaves it there twice. -/
theorem exists_machines_not_inOrder :
    (∃ attr, (changing 2).Run [.addMachine 1] attr ∧ ¬ attr.Performs 2 (.removeMachine 1)) ∧
    ∃ attr, (changing 2).Run [.addMachine 1, .addMachine 2, .replaceMachine 1 2] attr ∧
      attr.machine = [2, 2] := by
  constructor
  · refine ⟨⟨7, [1], .available⟩, ⟨⟨7, [], .available⟩, rfl, .cons ⟨0, _, rfl⟩ (.nil _)⟩, ?_⟩
    have h : InOrder 2 ([1] : List MachineID) := ⟨by decide, by decide⟩
    exact (@performs_iff 2 ⟨7, [1], .available⟩ h _).not.mpr id
  · exact ⟨⟨7, [2, 2], .available⟩, ⟨⟨7, [], .available⟩, rfl,
      .cons ⟨0, _, rfl⟩ (.cons ⟨0, _, rfl⟩ (.cons ⟨0, _, rfl⟩ (.nil _)))⟩, rfl⟩

end BlockLocationAttr

end Doopey
