import Mathlib.Data.List.Sort
import Doopey.Block.Block

/-!
# The machines that have a block

A list of machines is kept sorted, without repetitions and no longer than
`blockReplica` by `addMachine`. Messages carry such a list behind the ID of the
block; the receiver takes it from the wire as it is.
-/

namespace Doopey

open Foundation

/-- `enum BlockState` -/
inductive BlockState
  | available | invalid | deleting
  deriving DecidableEq, Repr

/-- `class BlockLocationAttr`, but for the time of the last use. -/
structure BlockLocationAttr where
  block : BlockID
  machine : List MachineID
  state : BlockState

/-- A list of machines that may be kept for a block. -/
structure WellFormed (blockReplica : UInt64) (machines : List MachineID) : Prop where
  nonempty : machines ≠ []
  increasing : machines.Pairwise (· < ·)
  bounded : machines.length ≤ blockReplica.toNat

namespace BlockLocationAttr

variable (blockReplica : UInt64)

/-- `BlockLocationAttr::addMachine`; no caller looks at the `bool` it returns. -/
def addMachine (attr : BlockLocationAttr) (m : MachineID) : BlockLocationAttr :=
  if blockReplica.toNat ≤ attr.machine.length then attr
  else if m ∈ attr.machine then attr
  else { attr with machine := (attr.machine ++ [m]).insertionSort (· ≤ ·) }

/-- Several calls of `addMachine`. -/
def addMachines (attr : BlockLocationAttr) (machines : List MachineID) : BlockLocationAttr :=
  machines.foldl (addMachine blockReplica) attr

variable {blockReplica}

@[simp] theorem block_addMachine (attr : BlockLocationAttr) (m : MachineID) :
    (attr.addMachine blockReplica m).block = attr.block := by
  unfold addMachine
  split
  next => rfl
  next => split <;> rfl

@[simp] theorem block_addMachines (attr : BlockLocationAttr) (machines : List MachineID) :
    (attr.addMachines blockReplica machines).block = attr.block := by
  induction machines generalizing attr with
  | nil => rfl
  | cons m machines ih => exact (ih _).trans (block_addMachine attr m)

/-- Only the machine itself is new to the list. -/
theorem mem_addMachine {attr : BlockLocationAttr} {m other : MachineID}
    (hmem : other ∈ (attr.addMachine blockReplica m).machine) :
    other ∈ attr.machine ∨ other = m := by
  unfold addMachine at hmem
  split at hmem
  next => exact Or.inl hmem
  next =>
    split at hmem
    next => exact Or.inl hmem
    next =>
      dsimp only at hmem
      rw [List.mem_insertionSort, List.mem_append, List.mem_singleton] at hmem
      exact hmem

theorem mem_addMachines {attr : BlockLocationAttr} {machines : List MachineID} {other : MachineID}
    (hmem : other ∈ (attr.addMachines blockReplica machines).machine) :
    other ∈ attr.machine ∨ other ∈ machines := by
  induction machines generalizing attr with
  | nil => exact Or.inl hmem
  | cons m machines ih =>
      rcases ih hmem with hattr | hmachines
      · rcases mem_addMachine hattr with hold | rfl
        · exact Or.inl hold
        · exact Or.inr List.mem_cons_self
      · exact Or.inr (List.mem_cons_of_mem _ hmachines)

/-- With room for one more machine, the machine is on the list then, and all others still. -/
theorem mem_addMachine_iff {attr : BlockLocationAttr} {m other : MachineID}
    (hroom : attr.machine.length < blockReplica.toNat) :
    other ∈ (attr.addMachine blockReplica m).machine ↔ other ∈ attr.machine ∨ other = m := by
  refine ⟨mem_addMachine, fun hmem => ?_⟩
  unfold addMachine
  rw [if_neg (Nat.not_le_of_lt hroom)]
  split
  next hold =>
    rcases hmem with hother | rfl
    · exact hother
    · exact hold
  next =>
    dsimp only
    rw [List.mem_insertionSort, List.mem_append, List.mem_singleton]
    exact hmem

theorem length_addMachine_le (attr : BlockLocationAttr) (m : MachineID) :
    (attr.addMachine blockReplica m).machine.length ≤ attr.machine.length + 1 := by
  unfold addMachine
  split
  next => exact Nat.le_succ _
  next =>
    split
    next => exact Nat.le_succ _
    next =>
      dsimp only
      rw [List.length_insertionSort, List.length_append, List.length_singleton]

/-- With room for the machines, all of them are on the list then. -/
theorem mem_addMachines_iff {attr : BlockLocationAttr} {machines : List MachineID}
    {other : MachineID}
    (hroom : attr.machine.length + machines.length ≤ blockReplica.toNat) :
    other ∈ (attr.addMachines blockReplica machines).machine ↔
      other ∈ attr.machine ∨ other ∈ machines := by
  induction machines generalizing attr with
  | nil => simp [addMachines]
  | cons m machines ih =>
      rw [List.length_cons] at hroom
      have hlength := @length_addMachine_le blockReplica attr m
      change other ∈ ((attr.addMachine blockReplica m).addMachines blockReplica machines).machine ↔ _
      rw [ih (by omega), mem_addMachine_iff (by omega), List.mem_cons, or_assoc]

/-- A list that is in order, whether or not it has an entry. -/
def InOrder (blockReplica : UInt64) (machines : List MachineID) : Prop :=
  machines.Pairwise (· < ·) ∧ machines.length ≤ blockReplica.toNat

theorem inOrder_addMachine {attr : BlockLocationAttr} (h : InOrder blockReplica attr.machine)
    (m : MachineID) : InOrder blockReplica (attr.addMachine blockReplica m).machine := by
  unfold addMachine
  split
  next => exact h
  next hroom =>
    split
    next => exact h
    next hnew =>
      have hnodup : (attr.machine ++ [m]).Nodup := by
        rw [List.nodup_append']
        refine ⟨h.1.imp fun hlt => UInt32.ne_of_lt hlt, List.nodup_singleton m, ?_⟩
        intro other hother hm
        rw [List.mem_singleton.mp hm] at hother
        exact hnew hother
      have hperm := List.perm_insertionSort (· ≤ ·) (attr.machine ++ [m])
      have hsorted := List.pairwise_insertionSort (· ≤ ·) (attr.machine ++ [m])
      refine ⟨?_, ?_⟩
      · exact (hsorted.and (hperm.nodup_iff.mpr hnodup)).imp fun hboth =>
          UInt32.lt_of_le_of_ne hboth.1 hboth.2
      · dsimp only
        rw [hperm.length_eq, List.length_append, List.length_singleton]
        omega

/-- A list with room for a machine is not empty afterwards. -/
theorem addMachine_ne_nil (hreplica : 1 ≤ blockReplica) (attr : BlockLocationAttr) (m : MachineID) :
    (attr.addMachine blockReplica m).machine ≠ [] := by
  have hpos : 1 ≤ blockReplica.toNat := UInt64.le_iff_toNat_le.mp hreplica
  unfold addMachine
  split
  next hfull =>
    intro hnil
    rw [hnil, List.length_nil] at hfull
    omega
  next =>
    split
    next hmem => exact List.ne_nil_of_mem hmem
    next =>
      intro hnil
      have hperm := List.perm_insertionSort (· ≤ ·) (attr.machine ++ [m])
      dsimp only at hnil
      rw [hnil] at hperm
      exact absurd hperm.symm.eq_nil (by simp)

/-- A list stays well formed when a machine is added. -/
theorem wellFormed_addMachine (hreplica : 1 ≤ blockReplica) {attr : BlockLocationAttr}
    (h : InOrder blockReplica attr.machine) (m : MachineID) :
    WellFormed blockReplica (attr.addMachine blockReplica m).machine := by
  obtain ⟨hincreasing, hbounded⟩ := inOrder_addMachine h m
  exact ⟨addMachine_ne_nil hreplica attr m, hincreasing, hbounded⟩

/-- A list that is rebuilt from machines, at least one of them, is well formed. -/
theorem wellFormed_addMachines (hreplica : 1 ≤ blockReplica) {attr : BlockLocationAttr}
    (h : InOrder blockReplica attr.machine) {machines : List MachineID} (hne : machines ≠ []) :
    WellFormed blockReplica (attr.addMachines blockReplica machines).machine := by
  induction machines generalizing attr with
  | nil => exact absurd rfl hne
  | cons m machines ih =>
      have hfirst := wellFormed_addMachine hreplica h m
      cases machines with
      | nil => exact hfirst
      | cons next machines => exact ih ⟨hfirst.increasing, hfirst.bounded⟩ (List.cons_ne_nil _ _)

end BlockLocationAttr

theorem WellFormed.inOrder {blockReplica : UInt64} {machines : List MachineID}
    (h : WellFormed blockReplica machines) : BlockLocationAttr.InOrder blockReplica machines :=
  ⟨h.increasing, h.bounded⟩

/-- The number of machines that are missing does not wrap around. -/
theorem WellFormed.toNat_sub {blockReplica : UInt64} {machines : List MachineID}
    (h : WellFormed blockReplica machines) :
    (blockReplica - .ofNat machines.length).toNat = blockReplica.toNat - machines.length := by
  have hlt := blockReplica.toNat_lt
  have hbounded := h.bounded
  have htoNat : (UInt64.ofNat machines.length).toNat = machines.length := by
    rw [UInt64.toNat_ofNat', Nat.mod_eq_of_lt (by omega)]
  rw [UInt64.toNat_sub_of_le, htoNat]
  rw [UInt64.le_iff_toNat_le, htoNat]
  exact hbounded

/-! ## Lists in messages -/

/-- The bytes of a `MachineID`. -/
def machineBytes (m : MachineID) : Bytes := le 4 m.toNat

/-- The payload that carries a list of machines for a block. -/
def locationData (id : BlockID) (machines : List MachineID) : Bytes :=
  bytesOf id ++ machines.flatMap machineBytes

/-- The loops that read machines until the payload ends. A rest of less than four
bytes is read beyond its end. -/
def readMachines : Bytes → Except Fault (List MachineID)
  | [] => .ok []
  | b₀ :: b₁ :: b₂ :: b₃ :: rest => do
      let machines ← readMachines rest
      .ok (.ofNat (ofLE [b₀, b₁, b₂, b₃]) :: machines)
  | _ => .error .outOfBounds

/-- Reading the ID and the machines of a payload. -/
def readLocation (data : Bytes) : Except Fault (BlockID × List MachineID) := do
  let id ← readUInt64 data 0
  let machines ← readMachines (data.drop 8)
  .ok (id, machines)

theorem readMachines_flatMap (machines : List MachineID) :
    readMachines (machines.flatMap machineBytes) = .ok machines := by
  induction machines with
  | nil => rfl
  | cons m machines ih =>
      have hbytes : UInt32.ofNat (ofLE (machineBytes m)) = m := by
        rw [machineBytes, ofLE_le_of_lt m.toNat_lt, UInt32.ofNat_toNat]
      rw [List.flatMap_cons]
      change (do
        let machines ← readMachines (machines.flatMap machineBytes)
        Except.ok (UInt32.ofNat (ofLE (machineBytes m)) :: machines)) = _
      rw [ih, ok_bind, hbytes]

/-- What is carried is what was sent. -/
theorem readLocation_locationData (id : BlockID) (machines : List MachineID) :
    readLocation (locationData id machines) = .ok (id, machines) := by
  have hdrop : (locationData id machines).drop 8 = machines.flatMap machineBytes :=
    List.drop_left' (length_bytesOf id)
  rw [readLocation, locationData, readUInt64_append, ok_bind, ← locationData, hdrop,
    readMachines_flatMap, ok_bind]

theorem locationData_inj {id id' : BlockID} {machines machines' : List MachineID}
    (heq : locationData id machines = locationData id' machines') :
    id = id' ∧ machines = machines' := by
  have hread := congrArg readLocation heq
  rw [readLocation_locationData, readLocation_locationData] at hread
  exact Prod.mk.inj (Except.ok.inj hread)

end Doopey
