import Doopey.Network.Announcements

/-!
# Machines that join one after the other

When every join is over before the next one begins, each machine has all others
in its table after every join, and all of them know the largest ID.
-/

namespace Doopey

open Foundation

namespace RouterNet

variable {names : Names} {net net' : RouterNet} {host : Host}

/-- The machine does not start. -/
def Resting (net : RouterNet) (host : Host) : Prop :=
  (net.hosts host).stage = .down ∨ (net.hosts host).stage = .running

/-- No machine starts, and everything that was announced is handled. -/
def Settled (net : RouterNet) : Prop := net.Quiet ∧ ∀ host, net.Resting host

/-- A machine starts when all joins are over. The first one is alone, and the list of
every other one names a machine that is running. No machine is shut down. -/
def Sequential (names : Names) (net : RouterNet) : RouterEvent → Prop
  | .boot _ list => net.Settled ∧ ((∀ other, (net.hosts other).stage = .down) ∨
      ∃ ip ∈ list, net.reached names ip ≠ none)
  | .stop _ => False
  | _ => True

/-- Every machine has all others in its table, with addresses that reach them, and
all of them know the largest ID. -/
structure FullMesh (names : Names) (net : RouterNet) : Prop where
  table {host : Host} (id : MachineID) : (net.hosts host).stage = .running →
    ((net.hosts host).node.routingTable[id]? ≠ none ↔
      ∃ other, other ≠ host ∧ (net.hosts other).stage = .running ∧ net.machineID other = id)
  address {host : Host} {id : MachineID} {entry : RoutingEntry} :
    (net.hosts host).stage = .running → (net.hosts host).node.routingTable[id]? = some entry →
      ∃ other, net.reached names entry.ip = some other ∧ net.machineID other = id
  distinct {host other : Host} : (net.hosts host).stage = .running →
    (net.hosts other).stage = .running → net.machineID host = net.machineID other → host = other
  max {host other : Host} : (net.hosts host).stage = .running →
    (net.hosts other).stage = .running →
      (net.hosts host).node.machineIDMax = (net.hosts other).node.machineIDMax
  largest {host : Host} : (net.hosts host).stage = .running →
    (∃ other, (net.hosts other).stage = .running ∧
      net.machineID other = (net.hosts host).node.machineIDMax) ∧
    ∀ other, (net.hosts other).stage = .running →
      net.machineID other ≤ (net.hosts host).node.machineIDMax

/-- At most one machine starts, and while it reads its list nothing else happens. -/
structure OneAtATime (names : Names) (net : RouterNet) : Prop where
  alone {host other : Host} : ¬ net.Resting host → other ≠ host → net.Resting other
  connecting {host : Host} {list : List Bytes} : (net.hosts host).stage = .connecting list →
    net.Quiet ∧ ((∀ other, other ≠ host → (net.hosts other).stage = .down) ∨
      (net.hosts host).node.neighbors.isEmpty = false ∨ ∃ ip ∈ list, net.reached names ip ≠ none)

theorem not_resting {stage : JoinStage} (hstage : (net.hosts host).stage = stage)
    (hdown : stage ≠ .down) (hrunning : stage ≠ .running) : ¬ net.Resting host := by
  rintro (h | h)
  · exact hdown (hstage.symm.trans h)
  · exact hrunning (hstage.symm.trans h)

theorem joining_of_resting (h : net.Resting host) : (net.hosts host).stage.joining = false := by
  rcases h with h | h
  · rw [h]
    rfl
  · rw [h]
    rfl

/-- A machine that starts goes on, or it has started. -/
theorem OneAtATime.of_stage (h : net.OneAtATime names) (hold : ¬ net.Resting host)
    (hothers : ∀ other, other ≠ host → (net'.hosts other).stage = (net.hosts other).stage)
    (hnew : ∀ list, (net'.hosts host).stage ≠ .connecting list) : net'.OneAtATime names := by
  have hresting {other : Host} (hne : other ≠ host) : net'.Resting other := by
    unfold Resting
    rw [hothers other hne]
    exact h.alone hold hne
  refine ⟨fun {a b} ha hb => ?_, fun {a list} ha => ?_⟩
  · have heq : a = host := by
      by_contra hne
      exact ha (hresting hne)
    exact hresting (heq ▸ hb)
  · have hne : a ≠ host := by
      rintro rfl
      exact hnew list ha
    exact absurd (hresting hne) (not_resting ha nofun nofun)

theorem OneAtATime.set (h : net.OneAtATime names) (hold : ¬ net.Resting host) {stage : JoinStage}
    {node : RouterNode} (hnew : ∀ list, stage ≠ .connecting list) :
    (net.set host stage node).OneAtATime names := by
  apply h.of_stage hold
  · intro other hne
    rw [hosts_set_of_ne _ _ _ _ hne]
  · intro list
    rw [stage_set_self]
    exact hnew list

/-- Machines that do not answer do not change who is reached. -/
theorem reached_set {stage : JoinStage} {node : RouterNode}
    (hold : (net.hosts host).stage.answers = false) (hnew : stage.answers = false) (ip : Bytes) :
    (net.set host stage node).reached names ip = net.reached names ip := by
  unfold reached
  apply congrArg (fun p => Option.filter p (names.gethostbyname ip))
  funext other
  by_cases heq : other = host
  · rw [heq, stage_set_self, hold, hnew]
  · rw [hosts_set_of_ne _ _ _ _ heq]

theorem OneAtATime.boot {list : List Bytes} (hsequential : net.Sequential names (.boot host list))
    (hstage : (net.hosts host).stage = .down) (node : RouterNode) :
    (net.set host (.connecting list) node).OneAtATime names := by
  obtain ⟨⟨hquiet, hresting⟩, hlist⟩ := hsequential
  have hothers {other : Host} (hne : other ≠ host) :
      (net.set host (.connecting list) node).Resting other := by
    unfold Resting
    rw [hosts_set_of_ne _ _ _ _ hne]
    exact hresting other
  refine ⟨fun {a b} ha hb => ?_, fun {a list'} ha => ?_⟩
  · have heq : a = host := by
      by_contra hne
      exact ha (hothers hne)
    exact hothers (heq ▸ hb)
  · have heq : a = host := by
      by_contra hne
      exact not_resting ha nofun nofun (hothers hne)
    rw [heq, stage_set_self] at ha
    rw [← JoinStage.connecting.inj ha, heq]
    refine ⟨hquiet, hlist.imp (fun hdown other hne => ?_) fun ⟨ip, hmem, hreached⟩ => Or.inr ⟨ip, hmem, ?_⟩⟩
    · rw [hosts_set_of_ne _ _ _ _ hne]
      exact hdown other
    · rw [reached_set (by rw [hstage]; rfl) rfl]
      exact hreached

theorem OneAtATime.connect (h : net.OneAtATime names) {ip : Bytes} {list : List Bytes}
    (hstage : (net.hosts host).stage = .connecting (ip :: list)) :
    (net.set host (.connecting list)
      ((net.hosts host).node.initConnectNeighbor (net.reachedNode names ip) ip)).OneAtATime names := by
  obtain ⟨hquiet, hlist⟩ := h.connecting hstage
  have hanswers : (net.hosts host).stage.answers = false := by
    rw [hstage]
    rfl
  have hothers {other : Host} (hne : other ≠ host) : (net.set host (.connecting list)
      ((net.hosts host).node.initConnectNeighbor (net.reachedNode names ip) ip)).Resting other := by
    unfold Resting
    rw [hosts_set_of_ne _ _ _ _ hne]
    exact h.alone (not_resting hstage nofun nofun) hne
  refine ⟨fun {a b} ha hb => ?_, fun {a list'} ha => ?_⟩
  · have heq : a = host := by
      by_contra hne
      exact ha (hothers hne)
    exact hothers (heq ▸ hb)
  · have heq : a = host := by
      by_contra hne
      exact not_resting ha nofun nofun (hothers hne)
    rw [heq, stage_set_self] at ha
    rw [← JoinStage.connecting.inj ha, heq, node_set_self]
    refine ⟨hquiet, ?_⟩
    cases hreached : net.reached names ip with
    | some other =>
        refine Or.inr (Or.inl ?_)
        rw [reachedNode, hreached, Option.map_some, RouterNode.initConnectNeighbor_some]
        simp [RouterNode.addRoutingPath]
    | none =>
        rw [reachedNode, hreached, Option.map_none, RouterNode.initConnectNeighbor_none]
        rcases hlist with hdown | hneighbors | ⟨ip', hmem, hreached'⟩
        · refine Or.inl fun other hne => ?_
          rw [hosts_set_of_ne _ _ _ _ hne]
          exact hdown other hne
        · exact Or.inr (Or.inl hneighbors)
        · refine Or.inr (Or.inr ⟨ip', ?_, ?_⟩)
          · rcases List.mem_cons.mp hmem with rfl | hmem
            · exact absurd hreached hreached'
            · exact hmem
          · rw [reached_set hanswers rfl]
            exact hreached'

theorem OneAtATime.deliver (h : net.OneAtATime names) {k : Nat} {message : MachineID × Bytes}
    {node : RouterNode} (hstage : (net.hosts host).stage = .running)
    (hflight : (net.inFlight host)[k]? = some message) :
    ({ net.set host .running node with
      inFlight := Function.update net.inFlight host ((net.inFlight host).eraseIdx k) } :
      RouterNet).OneAtATime names := by
  have hsame (other : Host) :
      ((net.set host .running node).hosts other).stage = (net.hosts other).stage := by
    by_cases heq : other = host
    · rw [heq, stage_set_self, hstage]
    · rw [hosts_set_of_ne _ _ _ _ heq]
  refine ⟨fun {a b} ha hb => ?_, fun {a list} ha => ?_⟩
  · unfold Resting at ha ⊢
    rw [hsame] at ha ⊢
    exact h.alone ha hb
  · -- while a machine reads its list nothing is in flight
    have hquiet := (h.connecting ((hsame a).symm.trans ha)).1
    exact absurd (hquiet host ▸ List.mem_of_getElem? hflight) List.not_mem_nil

theorem OneAtATime.step (h : net.OneAtATime names) {event : RouterEvent}
    (hsequential : net.Sequential names event) (hstep : RouterStep names net event net') :
    net'.OneAtATime names := by
  cases hstep with
  | boot host list hstage hhost => exact .boot hsequential hstage _
  | connect host ip list hstage => exact h.connect hstage
  | identify host hstage =>
      apply h.set (not_resting hstage nofun nofun)
      intro list
      unfold RouterNet.identify
      split
      next => split <;> exact nofun
      next => split <;> exact nofun
  | check host node hstage hcheck =>
      cases node with
      | some node => exact h.set (not_resting hstage nofun nofun) nofun
      | none => exact h.set (not_resting hstage nofun nofun) nofun
  | ask host ip rest max hstage => exact h.set (not_resting hstage nofun nofun) nofun
  | take host max hstage => exact h.set (not_resting hstage nofun nofun) nofun
  | fetch host ip rest node done hstage hfetch =>
      apply h.set (not_resting hstage nofun nofun)
      intro list
      split <;> exact nofun
  | fetched host hstage => exact h.set (not_resting hstage nofun nofun) nofun
  | announce host tried net' hstage hbroadcast =>
      obtain ⟨table, -, hhosts⟩ := hosts_of_broadcast hbroadcast
      apply h.of_stage (not_resting hstage nofun nofun)
      · intro other hne
        rw [hhosts, hosts_set_of_ne _ _ _ _ hne]
      · intro list
        rw [hhosts, stage_set_self]
        exact nofun
  | start host hstage => exact h.set (not_resting hstage nofun nofun) nofun
  | deliver host k src data node hstage hflight hrun => exact h.deliver hstage hflight
  | stop host hstage => exact absurd hsequential id

/-- One after the other is one at a time. -/
theorem OneAtATime.orderly (h : net.OneAtATime names) (hmeshed : net.Meshed names)
    {event : RouterEvent} (hsequential : net.Sequential names event) (hstep : RouterStep names net event net') :
    net.Orderly event := by
  cases hstep with
  | identify host hstage =>
      obtain ⟨hquiet, hlist⟩ := h.connecting hstage
      refine ⟨hquiet, fun other hne => ?_, fun hneighbors other hne => ?_⟩
      · exact joining_of_resting (h.alone (not_resting hstage nofun nofun) hne)
      · refine hmeshed.unnamed (hlist.resolve_right ?_ other hne)
        rintro (hneighbors' | ⟨ip, hmem, -⟩)
        · exact absurd (hneighbors.symm.trans hneighbors') (by decide)
        · exact absurd hmem List.not_mem_nil
  | stop host hstage => exact hsequential
  | _ => exact trivial

theorem invariant_sequential : ((routerSystem names).restrict (Sequential names)).Invariant
    fun net => net.Meshed names ∧ net.OneAtATime names where
  init hinit := by
    rw [hinit]
    refine ⟨meshed_empty, fun ha => absurd (Or.inl rfl) ha, fun ha => absurd ha nofun⟩
  step h hstep :=
    have hcases := step_of_next hstep.2
    ⟨h.1.step (h.2.orderly h.1 hstep.1 hcases) hcases, h.2.step hstep.1 hcases⟩

theorem joined_iff_running (hresting : net.Resting host) :
    net.Joined host ↔ (net.hosts host).stage = .running := by
  unfold Joined
  rcases hresting with hstage | hstage
  · rw [hstage]
    exact iff_of_false Bool.false_ne_true nofun
  · rw [hstage]
    exact iff_of_true rfl rfl

theorem Meshed.fullMesh (h : net.Meshed names) (hsettled : net.Settled) : net.FullMesh names := by
  obtain ⟨hquiet, hresting⟩ := hsettled
  obtain ⟨top, hcluster, -⟩ := h.cluster
  have hjoined {host : Host} (hrunning : (net.hosts host).stage = .running) : net.Joined host :=
    (joined_iff_running (hresting host)).mpr hrunning
  have hrunning {host : Host} (hjoined : net.Joined host) : (net.hosts host).stage = .running :=
    (joined_iff_running (hresting host)).mp hjoined
  have hmax {host : Host} (hup : (net.hosts host).stage = .running) :
      (net.hosts host).node.machineIDMax = top :=
    (hcluster.max_eq (hjoined hup)).resolve_right (not_not_intro (hquiet host))
  refine ⟨fun {host} id hup => ⟨fun hknown => ?_, ?_⟩, fun {host id entry} hup hentry => ?_,
    fun hup hup' heq => hcluster.inj (hjoined hup) (hjoined hup') heq,
    fun hup hup' => (hmax hup).trans (hmax hup').symm, fun {host} hup => ⟨?_, fun other hup' => ?_⟩⟩
  · obtain ⟨entry, hentry⟩ := Option.ne_none_iff_exists'.mp hknown
    obtain ⟨other, hne, hother, hid, -⟩ := hcluster.entries (hjoined hup) id entry hentry
    exact ⟨other, hne, hrunning hother, hid⟩
  · rintro ⟨other, hne, hup', rfl⟩
    refine (hcluster.complete (hjoined hup) (hjoined hup') hne).resolve_right ?_
    rintro ⟨data, hmem⟩
    exact absurd (hquiet host ▸ hmem) List.not_mem_nil
  · obtain ⟨other, -, hother, hid, hname⟩ := hcluster.entries (hjoined hup) id entry hentry
    refine ⟨other, Option.filter_eq_some_iff.mpr ⟨hname, ?_⟩, hid⟩
    rw [hrunning hother]
    rfl
  · have hpos := hcluster.pos (hjoined hup)
    have hle := hcluster.le (hjoined hup)
    obtain ⟨other, hother, hid⟩ := hcluster.onto (Nat.lt_of_lt_of_le hpos hle) (Nat.le_refl _)
    rw [hmax hup]
    exact ⟨other, hrunning hother, UInt32.toNat_inj.mp hid⟩
  · rw [hmax hup, UInt32.le_iff_toNat_le]
    exact hcluster.le (hjoined hup')

/-- After every join, all machines know each other and the largest ID. -/
theorem fullMesh_of_run {events : List RouterEvent}
    (hrun : ((routerSystem names).restrict (Sequential names)).Run events net)
    (hsettled : net.Settled) : net.FullMesh names :=
  (invariant_sequential.run hrun).1.fullMesh hsettled

/-! ## A run of a few machines -/

section Among

variable {machines : List Host}

def settledAmong (machines : List Host) (net : RouterNet) : Bool :=
  machines.all fun host => (net.inFlight host).isEmpty && match (net.hosts host).stage with
    | .down | .running => true
    | _ => false

theorem Idle.settled (h : net.Idle machines) (hsettled : net.settledAmong machines = true) :
    net.Settled := by
  unfold settledAmong at hsettled
  rw [List.all_eq_true] at hsettled
  have hcases (host : Host) : net.inFlight host = [] ∧ net.Resting host := by
    by_cases hmem : host ∈ machines
    · have hhost := hsettled host hmem
      rw [Bool.and_eq_true] at hhost
      refine ⟨List.isEmpty_iff.mp hhost.1, ?_⟩
      unfold Resting
      cases hstage : (net.hosts host).stage with
      | down => exact Or.inl rfl
      | running => exact Or.inr rfl
      | _ => exact absurd (hstage ▸ hhost.2) nofun
    · exact ⟨(h host hmem).2, Or.inl (h host hmem).1.1⟩
  exact ⟨fun host => (hcases host).1, fun host => (hcases host).2⟩

/-- `Sequential` of a few machines. -/
def sequentialAmong (names : Names) (machines : List Host) (net : RouterNet) : RouterEvent → Bool
  | .boot host list => machines.contains host && net.settledAmong machines &&
      ((machines.all fun other => match (net.hosts other).stage with
        | .down => true
        | _ => false) || list.any fun ip => (net.reached names ip).isSome)
  | .stop _ => false
  | _ => true

theorem Idle.sequential (h : net.Idle machines) {event : RouterEvent}
    (hcheck : net.sequentialAmong names machines event = true) : net.Sequential names event := by
  cases event with
  | boot host list =>
      rw [sequentialAmong, Bool.and_eq_true, Bool.and_eq_true, Bool.or_eq_true, List.all_eq_true,
        List.any_eq_true] at hcheck
      obtain ⟨⟨-, hsettled⟩, hfirst⟩ := hcheck
      refine ⟨h.settled hsettled, hfirst.imp (fun hdown other => ?_) ?_⟩
      · by_cases hmem : other ∈ machines
        · have hcase := hdown other hmem
          cases hstage : (net.hosts other).stage with
          | down => rfl
          | _ => exact absurd (hstage ▸ hcase) nofun
        · exact (h other hmem).1.1
      · rintro ⟨ip, hip, hreached⟩
        exact ⟨ip, hip, Option.isSome_iff_ne_none.mp hreached⟩
  | stop host => exact absurd hcheck Bool.false_ne_true
  | _ => exact trivial

end Among

theorem fullMesh_of_run_example :
    ∃ net, ((routerSystem numericNames).restrict (Sequential numericNames)).Run joinsInOrder net ∧
      (∀ host ∈ [1, 2, 3], (net.hosts host).stage.answers = true) ∧ net.machineID 1 = 1 ∧
      net.machineID 2 = 2 ∧ net.machineID 3 = 3 ∧ net.FullMesh numericNames := by
  have hids : (joinsInOrder.foldlM (fun (net : RouterNet) event =>
      if net.sequentialAmong numericNames [1, 2, 3] event then net.next numericNames event
      else none) empty).map (fun net => (net.settledAmong [1, 2, 3],
        [1, 2, 3].all fun host => (net.hosts host).stage.answers,
        net.machineID 1, net.machineID 2, net.machineID 3)) = some (true, true, 1, 2, 3) := by
    decide +kernel
  obtain ⟨net, hfold, hids⟩ := Option.map_eq_some_iff.mp hids
  rw [Prod.mk.injEq, Prod.mk.injEq, Prod.mk.injEq, Prod.mk.injEq] at hids
  obtain ⟨hsettled, hup, hfirst, hsecond, hthird⟩ := hids
  have hguard (net : RouterNet) (event : RouterEvent) (hidle : net.Idle [1, 2, 3])
      (hcheck : net.sequentialAmong numericNames [1, 2, 3] event = true) :
      net.Sequential numericNames event ∧
        ∀ host list, event = .boot host list → host ∈ [1, 2, 3] := by
    refine ⟨hidle.sequential hcheck, ?_⟩
    rintro host list rfl
    rw [sequentialAmong, Bool.and_eq_true, Bool.and_eq_true] at hcheck
    exact List.contains_iff_mem.mp hcheck.1.1
  obtain ⟨hrun, hidle⟩ := run_of_foldlM_among hguard hfold
  exact ⟨net, hrun, List.all_eq_true.mp hup, hfirst, hsecond, hthird,
    fullMesh_of_run hrun (hidle.settled hsettled)⟩

end RouterNet

end Doopey
