import Doopey.Network.Joining

/-!
# Runs of a few machines that are computed

A cluster in which only a few machines ever start. The conditions on its runs can be checked
for these machines alone.
-/

namespace Doopey

open Foundation

namespace RouterNet

variable {names : Names} {net net' : RouterNet} {machines : List Host} {host : Host}
  {node : RouterNode}

/-- No other machine has ever started. -/
def Idle (machines : List Host) (net : RouterNet) : Prop :=
  ∀ host, host ∉ machines →
    ((net.hosts host).stage = .down ∧ net.machineID host = 0) ∧ net.inFlight host = []

theorem Idle.set (h : net.Idle machines) {stage : JoinStage}
    (hhost : host ∉ machines → (net.hosts host).stage ≠ .down) :
    (net.set host stage node).Idle machines := by
  intro other hother
  have hne : other ≠ host := by
    rintro rfl
    exact hhost hother (h other hother).1.1
  rw [machineID, hosts_set_of_ne _ _ _ _ hne]
  exact h other hother

/-- Machines that are down do nothing until they start. -/
theorem Idle.step (h : net.Idle machines) {event : RouterEvent}
    (hboot : ∀ host list, event = .boot host list → host ∈ machines)
    (hstep : RouterStep names net event net') : net'.Idle machines := by
  cases hstep with
  | boot host list hstage hhost => exact h.set fun hnot => absurd (hboot host list rfl) hnot
  | connect host ip list hstage => exact h.set fun _ => ne_of_eq_of_ne hstage (by simp)
  | identify host hstage => exact h.set fun _ => ne_of_eq_of_ne hstage (by simp)
  | check host node hstage hcheck =>
      cases node with
      | some node => exact h.set fun _ => ne_of_eq_of_ne hstage (by simp)
      | none => exact h.set fun _ => ne_of_eq_of_ne hstage (by simp)
  | ask host ip rest max hstage => exact h.set fun _ => ne_of_eq_of_ne hstage (by simp)
  | take host max hstage => exact h.set fun _ => ne_of_eq_of_ne hstage (by simp)
  | fetch host ip rest node done hstage hfetch => exact h.set fun _ => ne_of_eq_of_ne hstage (by simp)
  | fetched host hstage => exact h.set fun _ => ne_of_eq_of_ne hstage (by simp)
  | announce host tried net' hstage hbroadcast =>
      obtain ⟨table, -, hhosts⟩ := hosts_of_broadcast hbroadcast
      intro other hother
      obtain ⟨hidle, hflight⟩ := h.set (fun _ => ne_of_eq_of_ne hstage (by simp)) other hother
      refine ⟨?_, List.eq_nil_iff_forall_not_mem.mpr fun message hmem => ?_⟩
      · rw [machineID, hhosts]
        exact hidle
      · rcases inFlight_of_broadcast hbroadcast hmem with hmem | ⟨-, hanswers⟩
        · exact absurd (hflight ▸ hmem) List.not_mem_nil
        · rw [(h other hother).1.1] at hanswers
          exact absurd hanswers Bool.false_ne_true
  | start host hstage => exact h.set fun _ => ne_of_eq_of_ne hstage (by simp)
  | deliver host k src data node hstage hflight hrun =>
      intro other hother
      obtain ⟨hidle, -⟩ := h.set (fun _ => ne_of_eq_of_ne hstage (by simp)) other hother
      refine ⟨hidle, ?_⟩
      have hne : other ≠ host := by
        rintro rfl
        exact absurd (hstage.symm.trans (h other hother).1.1) (by simp)
      dsimp only
      rw [Function.update_of_ne hne]
      exact (h other hother).2
  | stop host hstage =>
      intro other hother
      have hne : other ≠ host := by
        rintro rfl
        exact absurd (hstage.symm.trans (h other hother).1.1) (by simp)
      dsimp only [machineID]
      rw [Function.update_of_ne hne, Function.update_of_ne hne]
      exact h other hother

/-- A run of a few machines whose states and conditions are computed. -/
theorem run_of_foldlM_among {guard : RouterNet → RouterEvent → Prop}
    {check : RouterNet → RouterEvent → Bool}
    (hguard : ∀ net event, net.Idle machines → check net event = true → guard net event ∧
      ∀ host list, event = .boot host list → host ∈ machines)
    {events : List RouterEvent}
    (hfold : events.foldlM (fun net event =>
      if check net event then net.next names event else none) empty = some net) :
    ((routerSystem names).restrict guard).Run events net ∧ net.Idle machines := by
  have hstep (event : RouterEvent) (_ : event ∈ events) (before after : RouterNet)
      (hidle : before.Idle machines)
      (hnext : (if check before event then before.next names event else none) = some after) :
      ((routerSystem names).restrict guard).step before event after ∧ after.Idle machines := by
    split at hnext
    next hcheck =>
      obtain ⟨hevent, hboot⟩ := hguard before event hidle hcheck
      exact ⟨⟨hevent, hnext⟩, hidle.step hboot (step_of_next hnext)⟩
    next => exact absurd hnext (by simp)
  obtain ⟨hsteps, hidle⟩ :=
    System.steps_of_foldlM_of_inv (Idle machines) hstep (fun _ _ => ⟨⟨rfl, rfl⟩, rfl⟩) hfold
  exact ⟨⟨empty, rfl, hsteps⟩, hidle⟩

/-- `Orderly` of a few machines. -/
def orderlyAmong (machines : List Host) (net : RouterNet) : RouterEvent → Bool
  | .boot host _ => machines.contains host
  | .identify host => (machines.all fun other => (net.inFlight other).isEmpty) &&
      (machines.all fun other => other == host || !(net.hosts other).stage.joining) &&
      (!(net.hosts host).node.neighbors.isEmpty ||
        machines.all fun other => other == host || net.machineID other == 0)
  | .stop _ => false
  | _ => true

theorem Idle.orderly (h : net.Idle machines) {event : RouterEvent}
    (hcheck : net.orderlyAmong machines event = true) : net.Orderly event := by
  cases event with
  | identify host =>
      rw [orderlyAmong, Bool.and_eq_true, Bool.and_eq_true, Bool.or_eq_true, Bool.not_eq_true',
        List.all_eq_true, List.all_eq_true, List.all_eq_true] at hcheck
      obtain ⟨⟨hquiet, hjoining⟩, hfirst⟩ := hcheck
      refine ⟨fun other => ?_, fun other hne => ?_, fun hneighbors other hne => ?_⟩
      · by_cases hmem : other ∈ machines
        · exact List.isEmpty_iff.mp (hquiet other hmem)
        · exact (h other hmem).2
      · by_cases hmem : other ∈ machines
        · have hcase := hjoining other hmem
          rw [Bool.or_eq_true, beq_iff_eq, Bool.not_eq_true'] at hcase
          exact hcase.resolve_left hne
        · rw [(h other hmem).1.1]
          rfl
      · by_cases hmem : other ∈ machines
        · have hids := hfirst.resolve_left fun hnot => absurd (hneighbors.symm.trans hnot) (by decide)
          have hcase := hids other hmem
          rw [Bool.or_eq_true, beq_iff_eq, beq_iff_eq] at hcase
          exact hcase.resolve_left hne
        · exact (h other hmem).1.2
  | stop host => exact absurd hcheck Bool.false_ne_true
  | _ => exact trivial

end RouterNet

end Doopey
