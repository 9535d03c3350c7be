import Doopey.Network.Restarts

/-!
# IDs that are kept

Announcements and shutdowns keep the invariant of machines that start and stop one
after the other, so that it holds in every such run.
-/

namespace Doopey

open Foundation

namespace RouterNet

variable {names : Names} {net net' : RouterNet} {top : MachineID} {host : Host} {node : RouterNode}

/-! ## Announcements and shutdowns -/

/-- Other announcements are in flight. -/
theorem Owned.of_flight (h : net.Owned top) (hhosts : net'.hosts = net.hosts)
    (hflight : ∀ {host : Host} {src : MachineID} {data : Bytes}, (src, data) ∈ net'.inFlight host →
      src ≠ 0 ∧ ∃ other, other ≠ host ∧ net.machineID other = src ∧ ∃ max : MachineID,
        max.toNat ≤ top.toNat ∧ data = addressData max (inetNtop other)) : net'.Owned top := by
  obtain ⟨hosts, inFlight⟩ := net'
  obtain rfl : hosts = net.hosts := hhosts
  exact ⟨h.zero, h.snapshot, h.inj, h.le, h.onto, h.joined, h.named, h.max_le, hflight⟩

theorem Kept.announce (h : net.Kept) {tried : MachineID → Bool}
    (hstage : (net.hosts host).stage = .announcing)
    (hbroadcast : net.broadcast names host tried = some net') : net'.Kept := by
  obtain ⟨table, hsubset, hhosts⟩ := hosts_of_broadcast hbroadcast
  obtain ⟨top, howned, hall⟩ := h.owned
  have hid : net.machineID host ≠ 0 := by
    have hreadied := hall host
    rw [hstage] at hreadied
    exact hreadied.2
  have howned' : (net.set host .announced
      { (net.hosts host).node with routingTable := table }).Owned top :=
    howned.set (h.ne_zero hstage nofun) rfl nofun (fun _ => hid)
      (fun id entry hentry => howned.named host id entry (hsubset id entry hentry))
      (howned.max_le host)
  have hresting (other : Host) (hne : other ≠ host) : net'.Resting other := by
    unfold Resting
    rw [hhosts, hosts_set_of_ne _ _ _ _ hne]
    exact h.alone (not_resting hstage nofun nofun) hne
  refine ⟨fun {a b} ha hb => ?_, top, howned'.of_flight hhosts fun {target src data} hmem => ?_,
    fun other => ?_⟩
  · have heq : a = host := by
      by_contra hne
      exact ha (hresting a hne)
    exact hresting b (heq ▸ hb)
  · have hids (other : Host) : (net.set host .announced
        { (net.hosts host).node with routingTable := table }).machineID other =
          net.machineID other := by
      unfold RouterNet.machineID
      by_cases heq : other = host
      · rw [heq, node_set_self]
      · rw [hosts_set_of_ne _ _ _ _ heq]
    rcases inFlight_of_broadcast hbroadcast hmem with hmem | ⟨heq, hanswers⟩
    · obtain ⟨hsrc, owner, hne, howner, hdata⟩ := howned.flight hmem
      exact ⟨hsrc, owner, hne, (hids owner).trans howner, hdata⟩
    · obtain ⟨rfl, rfl⟩ := Prod.mk.inj heq
      refine ⟨hid, host, ?_, hids host, _, howned.max_le host, rfl⟩
      rintro rfl
      rw [hstage] at hanswers
      exact absurd hanswers nofun
  · by_cases heq : other = host
    · rw [heq, hhosts, stage_set_self]
      exact trivial
    · exact readied_of_resting (hresting other heq) _

/-- While something is in flight no machine is before its announcement. -/
theorem Readied.of_not_quiet {stage : JoinStage} (h : net.Readied top host node stage)
    (hnot : ¬ net.Quiet) (top' : MachineID) (node' : RouterNode) :
    net'.Readied top' host node' stage := by
  cases stage with
  | down => exact trivial
  | announced => exact trivial
  | running => exact trivial
  | _ => exact absurd h.1 hnot

theorem Kept.deliver (h : net.Kept) {k : Nat} {src : MachineID} {data : Bytes}
    (hstage : (net.hosts host).stage = .running) (hflight : (net.inFlight host)[k]? = some (src, data))
    (hrun : (net.hosts host).node.handleUpdateMachineIDMax src data = .ok node) :
    ({ net.set host .running node with
      inFlight := Function.update net.inFlight host ((net.inFlight host).eraseIdx k) } :
      RouterNet).Kept := by
  obtain ⟨top, howned, hall⟩ := h.owned
  have hmem := List.mem_of_getElem? hflight
  have hnot : ¬ net.Quiet := fun hquiet => absurd (hquiet host ▸ hmem) List.not_mem_nil
  have hjoined : net.Joined host := by
    rw [Joined, hstage]
    rfl
  have hhost : host ≠ 0 := h.ne_zero hstage (by simp)
  obtain ⟨hsrc, owner, hne, hid, max, hmax, rfl⟩ := howned.flight hmem
  have hlength : (inetNtop owner).length < 2 ^ 64 :=
    Nat.lt_of_le_of_lt (length_inetNtop owner) (by decide)
  rw [RouterNode.handleUpdateMachineIDMax_addressData _ _ _ hlength] at hrun
  obtain rfl := Except.ok.inj hrun
  have hsame (other : Host) : ((net.set host .running ({ (net.hosts host).node with
      machineIDMax := if max ≤ (net.hosts host).node.machineIDMax then
        (net.hosts host).node.machineIDMax else max }.addRoutingPath src (inetNtop owner) 1)).hosts
      other).stage = (net.hosts other).stage := by
    by_cases heq : other = host
    · rw [heq, stage_set_self, hstage]
    · rw [hosts_set_of_ne _ _ _ _ heq]
  have howned' : (net.set host .running ({ (net.hosts host).node with
      machineIDMax := if max ≤ (net.hosts host).node.machineIDMax then
        (net.hosts host).node.machineIDMax else max }.addRoutingPath src (inetNtop owner) 1)).Owned
      top := by
    refine howned.set hhost rfl (by simp) (fun _ => howned.joined hjoined) (fun id entry hentry => ?_) ?_
    · rw [RouterNode.getElem?_addRoutingPath] at hentry
      split at hentry
      next heq =>
        obtain rfl := Option.some.inj hentry
        exact ⟨heq ▸ hsrc, owner, hne, hid.trans heq.symm, rfl⟩
      next => exact howned.named host id entry hentry
    · change (if _ then _ else _ : MachineID).toNat ≤ _
      split
      next => exact howned.max_le host
      next => exact hmax
  refine ⟨fun {a b} ha hb => ?_, top, howned'.of_flight rfl fun {target src' data'} hmem' => ?_,
    fun other => ?_⟩
  · unfold Resting at ha ⊢
    rw [hsame] at ha ⊢
    exact h.alone ha hb
  · apply howned'.flight
    dsimp only at hmem'
    by_cases heq : target = host
    · rw [heq, Function.update_self] at hmem'
      rw [heq]
      exact List.mem_of_mem_eraseIdx hmem'
    · rwa [Function.update_of_ne heq] at hmem'
  · rw [hsame]
    exact (hall other).of_not_quiet hnot _ _

/-- A machine that is shut down keeps its ID in its snapshot. -/
theorem Kept.stop (h : net.Kept) (hsettled : net.Settled)
    (hstage : (net.hosts host).stage = .running) :
    (⟨Function.update net.hosts host ⟨.down, .new (net.hosts host).node.machineID,
      (net.hosts host).node.machineID⟩, Function.update net.inFlight host []⟩ : RouterNet).Kept := by
  obtain ⟨hquiet, hresting⟩ := hsettled
  obtain ⟨top, howned, -⟩ := h.owned
  generalize hnet : (⟨Function.update net.hosts host ⟨.down, .new (net.hosts host).node.machineID,
    (net.hosts host).node.machineID⟩, Function.update net.inFlight host []⟩ : RouterNet) = net'
  have hself : net'.hosts host = ⟨.down, .new (net.machineID host), net.machineID host⟩ := by
    rw [← hnet]
    exact Function.update_self _ _ _
  have hothers {other : Host} (hne : other ≠ host) : net'.hosts other = net.hosts other := by
    rw [← hnet]
    exact Function.update_of_ne hne _ _
  have hids (other : Host) : net'.machineID other = net.machineID other := by
    unfold RouterNet.machineID
    by_cases heq : other = host
    · rw [heq, hself]
      rfl
    · rw [hothers heq]
  have hresting' (other : Host) : net'.Resting other := by
    unfold Resting
    by_cases heq : other = host
    · rw [heq, hself]
      exact Or.inl rfl
    · rw [hothers heq]
      exact hresting other
  have hhost : host ≠ 0 := h.ne_zero hstage (by simp)
  refine ⟨fun _ _ => hresting' _, top, ?_, fun other => readied_of_resting (hresting' other) _⟩
  refine ⟨?_, fun {other} hother => ?_, fun {a b} ha heq => ?_, fun other => ?_,
    fun {n} hpos hle => ?_, fun {other} hother => ?_, fun other => ?_, fun other => ?_,
    fun {other src data} hmem => ?_⟩
  · rw [hothers hhost.symm, hids]
    exact howned.zero
  · rw [hids]
    by_cases heq : other = host
    · rw [heq, hself]
    · rw [hothers heq] at hother ⊢
      exact howned.snapshot hother
  · rw [hids] at ha
    rw [hids, hids] at heq
    exact howned.inj ha heq
  · rw [hids]
    exact howned.le other
  · obtain ⟨owner, howner⟩ := howned.onto hpos hle
    rw [← hids] at howner
    exact ⟨owner, howner⟩
  · rw [hids]
    by_cases heq : other = host
    · rw [Joined, heq, hself] at hother
      exact absurd hother Bool.false_ne_true
    · rw [Joined, hothers heq] at hother
      exact howned.joined hother
  · apply Named.mono _ fun other _ => hids other
    by_cases heq : other = host
    · rw [heq, hself]
      intro id entry hentry
      exact absurd (hentry.symm.trans Std.TreeMap.getElem?_emptyc) (Option.some_ne_none _)
    · rw [hothers heq]
      exact howned.named other
  · by_cases heq : other = host
    · rw [heq, hself]
      exact Nat.zero_le _
    · rw [hothers heq]
      exact howned.max_le other
  · rw [← hnet] at hmem
    dsimp only at hmem
    by_cases heq : other = host
    · rw [heq, Function.update_self] at hmem
      exact absurd hmem List.not_mem_nil
    · rw [Function.update_of_ne heq, hquiet] at hmem
      exact absurd hmem List.not_mem_nil

/-! ## Runs -/

theorem Kept.step (h : net.Kept) {event : RouterEvent} (hremembering : net.Remembering event)
    (hstep : RouterStep names net event net') : net'.Kept := by
  cases hstep with
  | boot host list hstage hhost => exact h.boot hhost hremembering hstage
  | connect host ip list hstage => exact h.connect hstage
  | identify host hstage => exact h.identify hstage
  | check host node hstage hcheck =>
      have hkept := h.check hstage hcheck
      cases node with
      | some node => exact hkept
      | none => exact hkept
  | ask host ip rest max hstage => exact h.ask hstage
  | take host max hstage => exact h.take hstage
  | fetch host ip rest node done hstage hfetch => exact h.fetch hstage hfetch
  | fetched host hstage => exact h.fetched hstage
  | announce host tried net' hstage hbroadcast => exact h.announce hstage hbroadcast
  | start host hstage => exact h.start hstage
  | deliver host k src data node hstage hflight hrun => exact h.deliver hstage hflight hrun
  | stop host hstage => exact h.stop hremembering hstage

theorem kept_empty : RouterNet.empty.Kept := by
  have hentry (id : MachineID) (entry : RoutingEntry) :
      (RouterNode.new 0).routingTable[id]? ≠ some entry := by
    intro hentry
    exact absurd (hentry.symm.trans Std.TreeMap.getElem?_emptyc) (Option.some_ne_none _)
  refine ⟨fun _ _ => Or.inl rfl, 0, ⟨⟨rfl, rfl⟩, fun _ => rfl, fun ha => absurd rfl ha,
    fun _ => Nat.le_refl 0, fun hpos hle => absurd (Nat.lt_of_lt_of_le hpos hle) (Nat.lt_irrefl 0),
    fun hjoined => absurd hjoined nofun, fun _ id entry hmem => absurd hmem (hentry id entry),
    fun _ => Nat.le_refl 0, fun hmem => absurd hmem List.not_mem_nil⟩, fun _ => trivial⟩

theorem invariant_kept : ((routerSystem names).restrict Remembering).Invariant Kept where
  init hinit := by
    rw [hinit]
    exact kept_empty
  step h hstep := h.step hstep.1 (step_of_next hstep.2)

/-- No machine has an ID that is in the snapshot of another one, and a machine that
starts again has the ID that it had. -/
theorem kept_of_run {events : List RouterEvent}
    (hrun : ((routerSystem names).restrict Remembering).Run events net) :
    (∀ host other, host ≠ other → (net.hosts other).snapshot ≠ 0 →
      net.machineID host ≠ (net.hosts other).snapshot) ∧
    ∀ host, (net.hosts host).snapshot ≠ 0 → net.machineID host = (net.hosts host).snapshot := by
  obtain ⟨top, howned, -⟩ := (invariant_kept.run hrun).owned
  refine ⟨fun host other hne hsnapshot heq => ?_, fun host hsnapshot => ?_⟩
  · have hother := howned.snapshot (Or.inr hsnapshot)
    have hid : net.machineID other ≠ 0 := by
      rw [hother]
      exact hsnapshot
    exact hne (howned.inj hid (hother.trans heq.symm)).symm
  · exact howned.snapshot (Or.inr hsnapshot)

/-! ## Runs of a few machines -/

/-- Machines start and stop one after the other. -/
def OneByOne (net : RouterNet) : RouterEvent → Prop
  | .boot _ _ | .stop _ => net.Settled
  | _ => True

def leadsAmong (machines : List Host) (net : RouterNet) (host leader : Host) : Bool :=
  leader != host && (net.hosts leader).stage.answers &&
    machines.all fun other =>
      other == host || net.machineID other ≤ (net.hosts leader).node.machineIDMax

/-- `OneByOne` of a few machines. -/
def oneByOneAmong (machines : List Host) (net : RouterNet) : RouterEvent → Bool
  | .boot host _ => machines.contains host && net.settledAmong machines
  | .stop _ => net.settledAmong machines
  | _ => true

/-- `Remembering` of a few machines. -/
def rememberingAmong (machines : List Host) (net : RouterNet) : RouterEvent → Bool
  | .boot host list => machines.contains host && net.settledAmong machines &&
      (list.all fun ip => machines.any fun other => ip == inetNtop other) &&
      ((net.hosts host).snapshot != 0 || (machines.all fun other => net.machineID other == 0) ||
        machines.any fun leader =>
          net.leadsAmong machines host leader && list.contains (inetNtop leader))
  | .stop _ => net.settledAmong machines
  | _ => true

variable {machines : List Host}

theorem Idle.leads (h : net.Idle machines) {leader : Host}
    (hleads : net.leadsAmong machines host leader = true) : net.Leads host leader := by
  unfold leadsAmong at hleads
  rw [Bool.and_eq_true, Bool.and_eq_true, bne_iff_ne, List.all_eq_true] at hleads
  obtain ⟨⟨hne, hanswers⟩, hle⟩ := hleads
  refine ⟨hne, ?_, fun other hother => ?_⟩
  · cases hstage : (net.hosts leader).stage with
    | running => rfl
    | _ => exact absurd (hstage ▸ hanswers) nofun
  · by_cases hmem : other ∈ machines
    · have hcase := hle other hmem
      rw [Bool.or_eq_true, beq_iff_eq, decide_eq_true_eq] at hcase
      exact hcase.resolve_left hother
    · rw [(h other hmem).1.2]
      exact UInt32.zero_le

theorem Idle.oneByOne (h : net.Idle machines) {event : RouterEvent}
    (hcheck : net.oneByOneAmong machines event = true) : net.OneByOne event := by
  cases event with
  | boot host list =>
      rw [oneByOneAmong, Bool.and_eq_true] at hcheck
      exact h.settled hcheck.2
  | stop host => exact h.settled hcheck
  | _ => exact trivial

theorem Idle.remembering (h : net.Idle machines) {event : RouterEvent}
    (hcheck : net.rememberingAmong machines event = true) : net.Remembering event := by
  cases event with
  | boot host list =>
      rw [rememberingAmong, Bool.and_eq_true, Bool.and_eq_true, Bool.and_eq_true, Bool.or_eq_true,
        Bool.or_eq_true, List.all_eq_true, List.all_eq_true, List.any_eq_true, bne_iff_ne] at hcheck
      obtain ⟨⟨⟨-, hsettled⟩, hlist⟩, hleads⟩ := hcheck
      refine ⟨h.settled hsettled, fun ip hip => ?_, ?_⟩
      · obtain ⟨other, -, heq⟩ := List.any_eq_true.mp (hlist ip hip)
        exact ⟨other, beq_iff_eq.mp heq⟩
      · rcases hleads with (hsnapshot | hnone) | ⟨leader, -, hleads⟩
        · exact Or.inl hsnapshot
        · refine Or.inr (Or.inl fun other => ?_)
          by_cases hmem : other ∈ machines
          · exact beq_iff_eq.mp (hnone other hmem)
          · exact (h other hmem).1.2
        · rw [Bool.and_eq_true] at hleads
          exact Or.inr (Or.inr ⟨leader, h.leads hleads.1, List.contains_iff_mem.mp hleads.2⟩)
  | stop host => exact h.settled hcheck
  | _ => exact trivial

/-- Machine 2 joins while machine 1 is up, and machine 3 while it is down; then machine 1
starts again. -/
def joinsAndRestart : List RouterEvent :=
  [.boot 1 [], .identify 1, .announce 1 fun _ => true, .start 1,
    .boot 2 [inetNtop 1], .connect 2, .identify 2, .ask 2, .ask 2, .fetch 2, .fetch 2,
    .announce 2 fun _ => true, .start 2, .deliver 1 0, .stop 1,
    .boot 3 [inetNtop 2], .connect 3, .identify 3, .ask 3, .ask 3, .fetch 3,
    -- machine 3 knows machine 1 from the table of machine 2, but does not reach it
    .announce 3 fun _ => true, .start 3, .deliver 2 0,
    .boot 1 [inetNtop 2], .connect 1, .identify 1, .check 1]

theorem kept_of_run_example :
    ∃ net, ((routerSystem numericNames).restrict Remembering).Run joinsAndRestart net ∧
      (net.hosts 1).snapshot = 1 ∧ net.machineID 1 = 1 ∧ net.machineID 3 = 3 ∧
      net.machineID 3 ≠ (net.hosts 1).snapshot := by
  have hfold : (joinsAndRestart.foldlM (fun (net : RouterNet) event =>
      if net.rememberingAmong [1, 2, 3] event then net.next numericNames event else none)
        empty).map (fun net => ((net.hosts 1).snapshot, net.machineID 3)) = some (1, 3) := by
    decide +kernel
  obtain ⟨net, hfold, hids⟩ := Option.map_eq_some_iff.mp hfold
  obtain ⟨hfirst, hthird⟩ := Prod.mk.inj hids
  have hrun : ((routerSystem numericNames).restrict Remembering).Run joinsAndRestart net := by
    refine (run_of_foldlM_among (fun net event hidle hcheck => ⟨hidle.remembering hcheck, ?_⟩)
      hfold).1
    rintro host list rfl
    rw [rememberingAmong, Bool.and_eq_true, Bool.and_eq_true, Bool.and_eq_true] at hcheck
    exact List.contains_iff_mem.mp hcheck.1.1.1
  have hsaved : (net.hosts 1).snapshot ≠ 0 := by
    rw [hfirst]
    decide
  obtain ⟨hfresh, hkept⟩ := kept_of_run hrun
  exact ⟨net, hrun, hfirst, (hkept 1 hsaved).trans hfirst, hthird, hfresh 3 1 (by decide) hsaved⟩

/-- Machine 1 starts again without machine 2, and machine 3 joins it. -/
def recycledID : List RouterEvent :=
  [.boot 1 [], .identify 1, .announce 1 fun _ => true, .start 1,
    .boot 2 [inetNtop 1], .connect 2, .identify 2, .ask 2, .ask 2, .fetch 2, .fetch 2,
    .announce 2 fun _ => true, .start 2, .deliver 1 0, .stop 2, .stop 1,
    -- nobody remembers the ID 2 now
    .boot 1 [], .identify 1, .announce 1 fun _ => true, .start 1,
    .boot 3 [inetNtop 1], .connect 3, .identify 3, .ask 3, .ask 3]

/-- A name server that knows machine 1 by a name, too. -/
def aliasNames : Names where
  gethostbyname text := if text = [97] then some 1 else numericNames.gethostbyname text
  gethostbyname_inetNtop host := by
    rw [if_neg]
    · exact numericNames.gethostbyname_inetNtop host
    · intro heq
      have hread : ofDotted [97] = some host := heq ▸ ofDotted_inetNtop host
      have hnone : ofDotted [97] = none := by decide
      exact absurd (hnone.symm.trans hread) (by simp)
  length_lt {text host} hname := by
    by_cases heq : text = [97]
    · rw [heq]
      decide
    · rw [if_neg heq] at hname
      exact numericNames.length_lt hname

/-- Machine 2 joins machine 1 by its name, and machine 1 starts again. -/
def restartByName : List RouterEvent :=
  [.boot 1 [], .identify 1, .announce 1 fun _ => true, .start 1,
    .boot 2 [[97]], .connect 2, .identify 2, .ask 2, .ask 2, .fetch 2, .fetch 2,
    .announce 2 fun _ => true, .start 2, .deliver 1 0, .stop 1,
    .boot 1 [inetNtop 2], .connect 1, .identify 1, .check 1, .ask 1, .ask 1]

/-- A machine that joins gets the ID of one that is down, and a machine that starts again
loses its ID although its neighbor answers. -/
theorem exists_run_recycled :
    (∃ net, ((routerSystem numericNames).restrict OneByOne).Run recycledID net ∧
      (net.hosts 3).snapshot = 0 ∧ (net.hosts 2).snapshot = 2 ∧ net.machineID 3 = 2) ∧
    ∃ net, ((routerSystem aliasNames).restrict OneByOne).Run restartByName net ∧
      (net.hosts 1).snapshot = 1 ∧ net.machineID 1 = 3 := by
  have hguard (net : RouterNet) (event : RouterEvent) (hidle : net.Idle [1, 2, 3])
      (hcheck : net.oneByOneAmong [1, 2, 3] event = true) : net.OneByOne event ∧
        ∀ host list, event = .boot host list → host ∈ [1, 2, 3] := by
    refine ⟨hidle.oneByOne hcheck, ?_⟩
    rintro host list rfl
    rw [oneByOneAmong, Bool.and_eq_true] at hcheck
    exact List.contains_iff_mem.mp hcheck.1
  have hrecycled : (recycledID.foldlM (fun (net : RouterNet) event =>
      if net.oneByOneAmong [1, 2, 3] event then net.next numericNames event else none) empty).map
        (fun net => ((net.hosts 3).snapshot, (net.hosts 2).snapshot, net.machineID 3)) =
          some (0, 2, 2) := by
    decide +kernel
  have hrestart : (restartByName.foldlM (fun (net : RouterNet) event =>
      if net.oneByOneAmong [1, 2, 3] event then net.next aliasNames event else none) empty).map
        (fun net => ((net.hosts 1).snapshot, net.machineID 1)) = some (1, 3) := by
    decide +kernel
  constructor
  · obtain ⟨net, hfold, hids⟩ := Option.map_eq_some_iff.mp hrecycled
    rw [Prod.mk.injEq, Prod.mk.injEq] at hids
    exact ⟨net, (run_of_foldlM_among hguard hfold).1, hids⟩
  · obtain ⟨net, hfold, hids⟩ := Option.map_eq_some_iff.mp hrestart
    rw [Prod.mk.injEq] at hids
    exact ⟨net, (run_of_foldlM_among hguard hfold).1, hids⟩

end RouterNet

end Doopey
