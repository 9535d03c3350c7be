import Doopey.Block.BlockManager
import Doopey.Network.ComputedJoins

/-!
# Announcements

The announcement of a machine that joins makes its ID the largest one, and a
machine that handles it knows the machine and the ID. The IDs of machines that
take them one at a time are different.
-/

namespace Doopey

open Foundation

namespace RouterNet

variable {names : Names} {net net' : RouterNet} {top : MachineID} {host : Host} {node : RouterNode}

/-- What the announcement of a machine leads to. -/
structure Announces (names : Names) (net net' : RouterNet) (top : MachineID) (host : Host) :
    Prop where
  self : net'.hosts host = ⟨.announced, (net.hosts host).node, (net.hosts host).snapshot⟩
  others {other : Host} : other ≠ host → net'.hosts other = net.hosts other
  ne_zero : host ≠ 0
  not_joined : ¬ net.Joined host
  taken : net.Taken names top host (net.hosts host).node
  complete : net.Complete host (net.hosts host).node.routingTable
  sent {other : Host} : other ≠ host → net.Joined other →
    ((net.machineID host, addressData (net.machineID host) (inetNtop host)) ∈ net'.inFlight other)
  flight {other : Host} {message : MachineID × Bytes} : message ∈ net'.inFlight other →
    other ≠ host ∧ message = (net.machineID host, addressData (net.machineID host) (inetNtop host))

theorem Meshed.announces (h : net.Meshed names) {tried : MachineID → Bool}
    (hstage : (net.hosts host).stage = .announcing) (hcluster : net.Cluster names top)
    (hprepared : Taken names net top host (net.hosts host).node ∧
      net.Complete host (net.hosts host).node.routingTable)
    (hbroadcast : net.broadcast names host tried = some net') :
    Announces names net net' top host := by
  obtain ⟨htaken, hcomplete⟩ := hprepared
  have hjoining := joining_of_stage hstage rfl
  have hreaches {id : MachineID} {entry : RoutingEntry}
      (hentry : (net.hosts host).node.routingTable[id]? = some entry) :
      ∃ other, other ≠ host ∧ net.Joined other ∧ net.machineID other = id ∧
        net.reached names entry.ip = some other := by
    obtain ⟨other, hne, hjoined, hid, hname⟩ := htaken.entries id entry hentry
    exact ⟨other, hne, hjoined, hid, h.reached hjoining hne hjoined hname⟩
  obtain ⟨hhosts, hflight⟩ := broadcast_of_reached (fun id entry hentry => by
    obtain ⟨other, -, -, -, hreached⟩ := hreaches hentry
    rw [hreached]
    exact Option.some_ne_none other) hbroadcast
  have hdata : (net.hosts host).node.updateData (inetNtop host) =
      addressData (net.machineID host) (inetNtop host) := by
    rw [RouterNode.updateData, htaken.machineIDMax]
    rfl
  refine ⟨?_, fun {other} hne => ?_, h.ne_zero hstage nofun, not_joined_of_stage hstage rfl,
    htaken, hcomplete, fun {other} hne hjoined => ?_, fun {other message} hmem => ?_⟩
  · rw [hhosts]
    exact Function.update_self _ _ _
  · rw [hhosts]
    exact hosts_set_of_ne _ _ _ _ hne
  · obtain ⟨entry, hentry⟩ := Option.ne_none_iff_exists'.mp (hcomplete other hne hjoined)
    obtain ⟨owner, -, howner, heq, hreached⟩ := hreaches hentry
    obtain rfl := hcluster.inj howner hjoined heq
    exact (hflight owner _).mpr (Or.inr ⟨hdata ▸ rfl, _, entry, hentry, hreached⟩)
  · rcases (hflight other _).mp hmem with hmem | ⟨rfl, id, entry, hentry, hreached⟩
    · exact absurd (htaken.quiet other ▸ hmem) List.not_mem_nil
    · obtain ⟨owner, hne, -, -, hreached'⟩ := hreaches hentry
      obtain rfl := Option.some.inj (hreached'.symm.trans hreached)
      exact ⟨hne, hdata ▸ rfl⟩

section Announces

variable (h : Announces names net net' top host)

include h

theorem Announces.node_eq (other : Host) : (net'.hosts other).node = (net.hosts other).node := by
  by_cases heq : other = host
  · rw [heq, h.self]
  · rw [h.others heq]

theorem Announces.machineID (other : Host) : net'.machineID other = net.machineID other :=
  congrArg RouterNode.machineID (h.node_eq other)

theorem Announces.joined (other : Host) : net'.Joined other ↔ other = host ∨ net.Joined other := by
  by_cases heq : other = host
  · rw [heq, Joined, h.self]
    exact iff_of_true rfl (Or.inl rfl)
  · rw [Joined, h.others heq]
    exact (or_iff_right heq).symm

theorem Announces.entries {other : Host} {table : Std.TreeMap MachineID RoutingEntry}
    (hentries : Entries names net other table) : Entries names net' other table :=
  hentries.mono fun third hthird => ⟨(h.joined third).mpr (Or.inr hthird), h.machineID third⟩

/-- The ID of the machine is the new largest one. -/
theorem Announces.cluster (hcluster : net.Cluster names top) :
    net'.Cluster names (net.machineID host) := by
  have hnumber : (net.machineID host).toNat = top.toNat + 1 := h.taken.machineID
  have hlt {other : Host} (hjoined : net.Joined other) :
      (net.machineID other).toNat < (net.machineID host).toNat := by
    have hle := hcluster.le hjoined
    omega
  refine ⟨?_, fun {other} hj => ?_, fun {other} hj => ?_, fun {a b} ha hb heq => ?_,
    fun {n} hpos hle => ?_, fun {other} hj => ?_, fun {other} hj => ?_, fun {other} hj => ?_,
    fun {a b} ha hb hne => ?_, fun {other src data} hmem => ?_⟩
  · rw [h.others h.ne_zero.symm]
    exact hcluster.zero
  · rw [h.machineID]
    rcases (h.joined other).mp hj with rfl | hj
    · omega
    · exact hcluster.pos hj
  · rw [h.machineID]
    rcases (h.joined other).mp hj with rfl | hj
    · exact Nat.le_refl _
    · exact Nat.le_of_lt (hlt hj)
  · rw [h.machineID, h.machineID] at heq
    rcases (h.joined a).mp ha with rfl | ha <;> rcases (h.joined b).mp hb with rfl | hb
    · rfl
    · exact absurd (hlt hb) (by rw [heq]; exact Nat.lt_irrefl _)
    · exact absurd (hlt ha) (by rw [heq]; exact Nat.lt_irrefl _)
    · exact hcluster.inj ha hb heq
  · by_cases hn : n ≤ top.toNat
    · obtain ⟨other, hj, hn⟩ := hcluster.onto hpos hn
      exact ⟨other, (h.joined other).mpr (Or.inr hj), by rw [h.machineID, hn]⟩
    · exact ⟨host, (h.joined host).mpr (Or.inl rfl), by rw [h.machineID]; omega⟩
  · rw [h.node_eq]
    rcases (h.joined other).mp hj with rfl | hj
    · exact h.entries h.taken.entries
    · exact h.entries (hcluster.entries hj)
  · rw [h.node_eq]
    rcases (h.joined other).mp hj with rfl | hj
    · rw [h.taken.machineIDMax]
      exact Nat.le_refl _
    · have hle := hcluster.max_le hj
      omega
  · rw [h.node_eq]
    rcases (h.joined other).mp hj with rfl | hj
    · exact Or.inl h.taken.machineIDMax
    · exact Or.inr (List.ne_nil_of_mem (h.sent (fun heq => h.not_joined (heq ▸ hj)) hj))
  · rw [h.node_eq, h.machineID]
    rcases (h.joined b).mp hb with rfl | hb
    · rcases (h.joined a).mp ha with rfl | ha
      · exact absurd rfl hne
      · exact Or.inr ⟨_, h.sent hne.symm ha⟩
    · rcases (h.joined a).mp ha with rfl | ha
      · exact Or.inl (h.complete b hne hb)
      · refine Or.inl ((hcluster.complete ha hb hne).resolve_right ?_)
        rintro ⟨data, hmem⟩
        exact absurd (h.taken.quiet a ▸ hmem) List.not_mem_nil
  · obtain ⟨hne, heq⟩ := h.flight hmem
    obtain ⟨rfl, rfl⟩ := Prod.mk.inj heq
    exact ⟨host, hne.symm, (h.joined host).mpr (Or.inl rfl), h.machineID host, rfl, rfl⟩

end Announces

theorem Meshed.announce (h : net.Meshed names) {tried : MachineID → Bool}
    (hstage : (net.hosts host).stage = .announcing)
    (hbroadcast : net.broadcast names host tried = some net') : net'.Meshed names := by
  have hjoining := joining_of_stage hstage rfl
  obtain ⟨top, hcluster, hall⟩ := h.cluster
  have hannounces : Announces names net net' top host := by
    have hprepared := hall host
    rw [hstage] at hprepared
    exact h.announces hstage hcluster hprepared hbroadcast
  have hat {other : Host} (hjoining' : (net'.hosts other).stage.joining = true) : other = host := by
    by_contra hne
    rw [hannounces.others hne, h.others hjoining other hne] at hjoining'
    exact absurd hjoining' Bool.false_ne_true
  refine ⟨fun other => ?_, fun {other} hdown => ?_, fun {a b} ha hb => by rw [hat ha, hat hb],
    net.machineID host, hannounces.cluster hcluster, fun other => ?_⟩
  · by_cases heq : other = host
    · rw [heq, hannounces.self]
      exact h.snapshot host
    · rw [hannounces.others heq]
      exact h.snapshot other
  · by_cases heq : other = host
    · rw [heq, hannounces.self] at hdown
      exact absurd hdown nofun
    · rw [hannounces.others heq] at hdown
      rw [hannounces.machineID]
      exact h.unnamed hdown
  · by_cases heq : other = host
    · rw [heq, hannounces.self]
      exact trivial
    · have hprepared := hall other
      have hnot := h.others hjoining other heq
      rw [hannounces.others heq]
      cases hstage' : (net.hosts other).stage with
      | connecting list =>
          rw [hstage'] at hprepared
          exact { hprepared with entries := hannounces.entries hprepared.entries }
      | down => exact trivial
      | running => exact trivial
      | announced => exact trivial
      | _ => exact absurd (hstage' ▸ hnot) nofun

theorem Meshed.start (h : net.Meshed names) (hstage : (net.hosts host).stage = .announced) :
    (net.set host .running (net.hosts host).node).Meshed names := by
  have hagrees : Agrees net (net.set host .running (net.hosts host).node) := by
    refine ⟨fun other => ?_, fun {other} _ => ?_, rfl⟩
    · by_cases heq : other = host
      · rw [heq, Joined, Joined, stage_set_self, hstage]
        exact Iff.rfl
      · rw [Joined, hosts_set_of_ne _ _ _ _ heq]
        rfl
    · by_cases heq : other = host
      · rw [heq, node_set_self]
      · rw [hosts_set_of_ne _ _ _ _ heq]
  obtain ⟨top, hcluster, hall⟩ := h.cluster
  have hhost : host ≠ 0 := h.ne_zero hstage (by simp)
  have hother {other : Host} (hstage' : ((net.set host .running (net.hosts host).node).hosts
      other).stage ≠ .running) : other ≠ host := by
    rintro rfl
    exact hstage' (stage_set_self _ _ _ _)
  refine ⟨fun other => ?_, fun {other} hdown => ?_, fun {a b} ha hb => ?_, top, ?_, fun other => ?_⟩
  · rw [snapshot_set]
    exact h.snapshot other
  · have hne := hother (by rw [hdown]; simp)
    rw [hosts_set_of_ne _ _ _ _ hne] at hdown
    rw [machineID, hosts_set_of_ne _ _ _ _ hne]
    exact h.unnamed hdown
  · have hnea := hother (fun heq => absurd (heq ▸ ha) (by decide))
    have hneb := hother (fun heq => absurd (heq ▸ hb) (by decide))
    rw [hosts_set_of_ne _ _ _ _ hnea] at ha
    rw [hosts_set_of_ne _ _ _ _ hneb] at hb
    exact h.single ha hb
  · apply hagrees.cluster hcluster
    rw [hosts_set_of_ne _ _ _ _ hhost.symm]
    exact hcluster.zero
  · by_cases heq : other = host
    · rw [heq, stage_set_self]
      exact trivial
    · rw [hosts_set_of_ne _ _ _ _ heq]
      exact hagrees.prepared (hall other)

/-- What handling an announcement leads to. -/
structure Delivers (net net' : RouterNet) (top : MachineID) (host owner : Host) : Prop where
  from_other : owner ≠ host ∧ net.Joined owner ∧ net.machineID owner = top
  stage : (net'.hosts host).stage = (net.hosts host).stage
  snapshot : (net'.hosts host).snapshot = (net.hosts host).snapshot
  node : (net'.hosts host).node =
    { (net.hosts host).node with machineIDMax := top }.addRoutingPath top (inetNtop owner) 1
  others {other : Host} : other ≠ host → net'.hosts other = net.hosts other
  flight {other : Host} {message : MachineID × Bytes} :
    message ∈ net'.inFlight other → message ∈ net.inFlight other
  flight_others {other : Host} : other ≠ host → net'.inFlight other = net.inFlight other

section Delivers

variable {owner : Host} (h : Delivers net net' top host owner)

include h

theorem Delivers.stage_eq (other : Host) : (net'.hosts other).stage = (net.hosts other).stage := by
  by_cases heq : other = host
  · rw [heq, h.stage]
  · rw [h.others heq]

theorem Delivers.machineID (other : Host) : net'.machineID other = net.machineID other := by
  unfold RouterNet.machineID
  by_cases heq : other = host
  · rw [heq, h.node]
    rfl
  · rw [h.others heq]

theorem Delivers.joined (other : Host) : net'.Joined other ↔ net.Joined other := by
  rw [Joined, Joined, h.stage_eq]

theorem Delivers.entries {other : Host} {table : Std.TreeMap MachineID RoutingEntry}
    (hentries : Entries names net other table) : Entries names net' other table :=
  hentries.mono fun third hthird => ⟨(h.joined third).mpr hthird, h.machineID third⟩

theorem Delivers.cluster (hcluster : net.Cluster names top) : net'.Cluster names top := by
  obtain ⟨hne, howner, hid⟩ := h.from_other
  have htable (id : MachineID) : (net'.hosts host).node.routingTable[id]? =
      if id = top then some ⟨inetNtop owner, 1⟩ else (net.hosts host).node.routingTable[id]? := by
    rw [h.node, RouterNode.getElem?_addRoutingPath]
  refine ⟨?_, fun {other} hj => ?_, fun {other} hj => ?_, fun {a b} ha hb heq => ?_,
    fun {n} hpos hle => ?_, fun {other} hj => ?_, fun {other} hj => ?_, fun {other} hj => ?_,
    fun {a b} ha hb hne => ?_, fun {other src data} hmem => ?_⟩
  · rw [h.stage_eq]
    exact hcluster.zero
  · rw [h.machineID]
    exact hcluster.pos ((h.joined other).mp hj)
  · rw [h.machineID]
    exact hcluster.le ((h.joined other).mp hj)
  · rw [h.machineID, h.machineID] at heq
    exact hcluster.inj ((h.joined a).mp ha) ((h.joined b).mp hb) heq
  · obtain ⟨other, hj, hn⟩ := hcluster.onto hpos hle
    exact ⟨other, (h.joined other).mpr hj, by rw [h.machineID, hn]⟩
  · have hentries := hcluster.entries ((h.joined other).mp hj)
    by_cases heq : other = host
    · subst heq
      intro id entry hentry
      rw [htable] at hentry
      split at hentry
      next hnew =>
        obtain rfl := Option.some.inj hentry
        exact ⟨owner, hne, (h.joined owner).mpr howner, (h.machineID owner).trans (hid.trans hnew.symm),
          names.gethostbyname_inetNtop owner⟩
      next => exact h.entries hentries id entry hentry
    · rw [h.others heq]
      exact h.entries hentries
  · by_cases heq : other = host
    · rw [heq, h.node]
      exact Nat.le_refl _
    · rw [h.others heq]
      exact hcluster.max_le ((h.joined other).mp hj)
  · by_cases heq : other = host
    · rw [heq, h.node]
      exact Or.inl rfl
    · rw [h.others heq, h.flight_others heq]
      exact hcluster.max_eq ((h.joined other).mp hj)
  · rw [h.machineID]
    have hold := hcluster.complete ((h.joined a).mp ha) ((h.joined b).mp hb) hne
    by_cases heq : a = host
    · subst heq
      rw [htable]
      split
      next => exact Or.inl (Option.some_ne_none _)
      next hnot =>
        refine Or.inl (hold.resolve_right ?_)
        -- whatever is in flight has the largest ID
        rintro ⟨data, hmem⟩
        obtain ⟨-, -, -, -, htop, -⟩ := hcluster.flight hmem
        exact hnot htop
    · rw [h.others heq, h.flight_others heq]
      exact hold
  · obtain ⟨third, hne, hthird, hid, hsrc, hdata⟩ := hcluster.flight (h.flight hmem)
    exact ⟨third, hne, (h.joined third).mpr hthird, (h.machineID third).trans hid, hsrc, hdata⟩

end Delivers

/-- A machine handles an announcement. -/
theorem Meshed.deliver (h : net.Meshed names) {k : Nat} {src : MachineID} {data : Bytes}
    (hstage : (net.hosts host).stage = .running) (hflight : (net.inFlight host)[k]? = some (src, data))
    (hrun : (net.hosts host).node.handleUpdateMachineIDMax src data = .ok node) :
    ({ net.set host .running node with
      inFlight := Function.update net.inFlight host ((net.inFlight host).eraseIdx k) } :
      RouterNet).Meshed names := by
  obtain ⟨top, hcluster, hall⟩ := h.cluster
  have hmem := List.mem_of_getElem? hflight
  have hself : net.Joined host := by
    rw [Joined, hstage]
    rfl
  obtain ⟨owner, hne, howner, hid, rfl, rfl⟩ := hcluster.flight hmem
  have hlength : (inetNtop owner).length < 2 ^ 64 :=
    Nat.lt_of_le_of_lt (length_inetNtop owner) (by decide)
  rw [RouterNode.handleUpdateMachineIDMax_addressData _ _ _ hlength] at hrun
  have hmax : (if src ≤ (net.hosts host).node.machineIDMax then (net.hosts host).node.machineIDMax
      else src) = src := by
    split
    next hle =>
      rw [UInt32.le_iff_toNat_le] at hle
      exact UInt32.toNat_inj.mp (Nat.le_antisymm (hcluster.max_le hself) hle)
    next => rfl
  rw [hmax] at hrun
  obtain rfl := Except.ok.inj hrun
  have hdelivers : Delivers net
      { net.set host .running
          ({ (net.hosts host).node with machineIDMax := src }.addRoutingPath src (inetNtop owner) 1) with
        inFlight := Function.update net.inFlight host ((net.inFlight host).eraseIdx k) }
      src host owner := by
    refine ⟨⟨hne, howner, hid⟩, ?_, snapshot_set _ _ _ _ _, node_set_self _ _ _ _,
      fun {other} hne => hosts_set_of_ne _ _ _ _ hne, fun {other message} hmem => ?_,
      fun {other} hne => Function.update_of_ne hne _ _⟩
    · exact (stage_set_self _ _ _ _).trans hstage.symm
    · dsimp only at hmem
      by_cases heq : other = host
      · rw [heq, Function.update_self] at hmem
        rw [heq]
        exact List.mem_of_mem_eraseIdx hmem
      · rwa [Function.update_of_ne heq] at hmem
  refine ⟨fun other => ?_, fun {other} hdown => ?_, fun {a b} ha hb => ?_, src,
    hdelivers.cluster hcluster, fun other => ?_⟩
  · exact (snapshot_set _ _ _ _ _).trans (h.snapshot other)
  · rw [hdelivers.stage_eq] at hdown
    rw [hdelivers.machineID]
    exact h.unnamed hdown
  · rw [hdelivers.stage_eq] at ha hb
    exact h.single ha hb
  · -- no machine looks for its ID while the announcement is in flight
    have hnot : ¬ net.Quiet := fun hquiet => absurd (hquiet host ▸ hmem) List.not_mem_nil
    have hprepared := hall other
    rw [hdelivers.stage_eq]
    cases hstage' : (net.hosts other).stage with
    | connecting list =>
        have heq : other ≠ host := by
          rintro rfl
          exact absurd (hstage.symm.trans hstage') (by simp)
        rw [hstage'] at hprepared
        rw [hdelivers.others heq]
        exact { hprepared with entries := hdelivers.entries hprepared.entries }
    | asking rest max =>
        rw [hstage'] at hprepared
        exact absurd hprepared.quiet hnot
    | fetching rest =>
        rw [hstage'] at hprepared
        exact absurd hprepared.1.quiet hnot
    | announcing =>
        rw [hstage'] at hprepared
        exact absurd hprepared.1.quiet hnot
    | checking =>
        rw [hstage'] at hprepared
        exact hprepared.elim
    | down => exact trivial
    | announced => exact trivial
    | running => exact trivial

/-! ## Orderly runs -/

theorem Meshed.step (h : net.Meshed names) {event : RouterEvent} (horderly : net.Orderly event)
    (hstep : RouterStep names net event net') : net'.Meshed names := by
  cases hstep with
  | boot host list hstage hhost => exact h.boot hhost list hstage
  | connect host ip list hstage => exact h.connect hstage
  | identify host hstage => exact h.identify hstage horderly
  | check host node hstage hcheck =>
      obtain ⟨top, -, hall⟩ := h.cluster
      have hprepared := hall host
      rw [hstage] at hprepared
      exact hprepared.elim
  | ask host ip rest max hstage => exact h.ask hstage
  | take host max hstage => exact h.take hstage
  | fetch host ip rest node done hstage hfetch => exact h.fetch hstage hfetch
  | fetched host hstage => exact h.fetched hstage
  | announce host tried net' hstage hbroadcast => exact h.announce hstage hbroadcast
  | start host hstage => exact h.start hstage
  | deliver host k src data node hstage hflight hrun => exact h.deliver hstage hflight hrun
  | stop host hstage => exact absurd horderly id

theorem meshed_empty : RouterNet.empty.Meshed names := by
  have hjoined (host : Host) : ¬ RouterNet.empty.Joined host := not_joined_of_stage rfl rfl
  refine ⟨fun _ => rfl, fun _ => rfl, fun hjoining => absurd hjoining nofun, 0, ?_, fun _ => trivial⟩
  refine ⟨rfl, fun hj => absurd hj (hjoined _), fun hj => absurd hj (hjoined _),
    fun hj => absurd hj (hjoined _), fun hpos hle => ?_, fun hj => absurd hj (hjoined _),
    fun hj => absurd hj (hjoined _), fun hj => absurd hj (hjoined _),
    fun hj => absurd hj (hjoined _), fun hmem => absurd hmem List.not_mem_nil⟩
  exact absurd (Nat.lt_of_lt_of_le hpos hle) (Nat.lt_irrefl 0)

theorem invariant_meshed : ((routerSystem names).restrict Orderly).Invariant (Meshed names) where
  init hinit := by
    rw [hinit]
    exact meshed_empty
  step h hstep := h.step hstep.1 (step_of_next hstep.2)

/-- A machine that has an ID has joined, or it is the one that joins. -/
theorem Meshed.machineID_cases (h : net.Meshed names)
    (hall : ∀ host, net.Prepared names top host (net.hosts host).node (net.hosts host).stage)
    (hid : net.machineID host ≠ 0) : net.Joined host ∨
      (net.hosts host).stage.joining = true ∧ (net.machineID host).toNat = top.toNat + 1 := by
  have hprepared := hall host
  unfold Joined
  cases hstage : (net.hosts host).stage with
  | down => exact absurd (h.unnamed hstage) hid
  | connecting list =>
      rw [hstage] at hprepared
      exact absurd hprepared.machineID hid
  | checking =>
      rw [hstage] at hprepared
      exact hprepared.elim
  | asking rest max =>
      rw [hstage] at hprepared
      exact absurd hprepared.machineID hid
  | fetching rest =>
      rw [hstage] at hprepared
      exact Or.inr ⟨rfl, hprepared.1.machineID⟩
  | announcing =>
      rw [hstage] at hprepared
      exact Or.inr ⟨rfl, hprepared.1.machineID⟩
  | announced => exact Or.inl rfl
  | running => exact Or.inl rfl

theorem Meshed.machineID_inj (h : net.Meshed names) {other : Host}
    (hid : net.machineID host ≠ 0) (heq : net.machineID host = net.machineID other) :
    host = other := by
  obtain ⟨top, hcluster, hall⟩ := h.cluster
  have hnumber := congrArg UInt32.toNat heq
  rcases h.machineID_cases hall hid with hj | ⟨hj, hnew⟩ <;>
    rcases h.machineID_cases hall (heq ▸ hid) with hj' | ⟨hj', hnew'⟩
  · exact hcluster.inj hj hj' heq
  · have hle := hcluster.le hj
    omega
  · have hle := hcluster.le hj'
    omega
  · exact h.single hj hj'

/-- Machines that take their IDs one at a time have different IDs, and they build
different block IDs. -/
theorem unique_of_run {events : List RouterEvent}
    (hrun : ((routerSystem names).restrict Orderly).Run events net) :
    ∀ host other, host ≠ other → net.machineID host ≠ 0 →
      net.machineID host ≠ net.machineID other ∧
      ∀ local_ local', buildBlockID (net.machineID host) local_ ≠
        buildBlockID (net.machineID other) local' := by
  intro host other hne hid
  have hmachine : net.machineID host ≠ net.machineID other :=
    fun heq => hne ((invariant_meshed.run hrun).machineID_inj hid heq)
  refine ⟨hmachine, fun local_ local' heq => hmachine ?_⟩
  have hbuilt := congrArg getMachineIDFromBlockID heq
  rwa [getMachineIDFromBlockID_buildBlockID, getMachineIDFromBlockID_buildBlockID] at hbuilt

/-- Machine 2 joins machine 1, and machine 3 joins machine 2. -/
def joinsInOrder : List RouterEvent :=
  [.boot 1 [], .identify 1, .announce 1 fun _ => true, .start 1,
    .boot 2 [inetNtop 1], .connect 2, .identify 2, .ask 2, .ask 2, .fetch 2, .fetch 2,
    .announce 2 fun _ => true, .start 2, .deliver 1 0,
    .boot 3 [inetNtop 2], .connect 3, .identify 3, .ask 3, .ask 3, .fetch 3,
    .announce 3 fun _ => true, .start 3, .deliver 2 0, .deliver 1 0]

theorem unique_of_run_example :
    ∃ net, ((routerSystem numericNames).restrict Orderly).Run joinsInOrder net ∧
      net.machineID 1 = 1 ∧ net.machineID 2 = 2 ∧ net.machineID 3 = 3 ∧
      net.machineID 3 ≠ net.machineID 2 ∧
      buildBlockID (net.machineID 3) 1 ≠ buildBlockID (net.machineID 2) 1 := by
  have hids : (joinsInOrder.foldlM (fun (net : RouterNet) event =>
      if net.orderlyAmong [1, 2, 3] event then net.next numericNames event else none) empty).map
        (fun net => (net.machineID 1, net.machineID 2, net.machineID 3)) = some (1, 2, 3) := by
    decide +kernel
  obtain ⟨net, hfold, hids⟩ := Option.map_eq_some_iff.mp hids
  rw [Prod.mk.injEq, Prod.mk.injEq] at hids
  obtain ⟨hfirst, hsecond, hthird⟩ := hids
  have hrun : ((routerSystem numericNames).restrict Orderly).Run joinsInOrder net := by
    refine (run_of_foldlM_among (fun net event hidle hcheck => ⟨hidle.orderly hcheck, ?_⟩) hfold).1
    rintro host list rfl
    exact List.contains_iff_mem.mp hcheck
  have hid : net.machineID 3 ≠ 0 := by
    rw [hthird]
    decide
  obtain ⟨hne, hbuilt⟩ := unique_of_run hrun 3 2 (by decide) hid
  exact ⟨net, hrun, hfirst, hsecond, hthird, hne, hbuilt 1 1⟩

/-- Two machines join the first one at the same time. -/
def overlappingJoins : List RouterEvent :=
  [.boot 1 [], .identify 1, .announce 1 fun _ => true, .start 1,
    .boot 2 [inetNtop 1], .connect 2, .identify 2, .boot 3 [inetNtop 1], .connect 3, .identify 3,
    -- both hear of the ID 1
    .ask 2, .ask 3, .ask 2, .ask 3]

theorem exists_run_not_unique :
    ∃ net, (routerSystem numericNames).Run overlappingJoins net ∧
      net.machineID 2 = 2 ∧ net.machineID 3 = 2 ∧
      buildBlockID (net.machineID 2) 1 = buildBlockID (net.machineID 3) 1 := by
  have hids : (overlappingJoins.foldlM (next numericNames) empty).map
      (fun net => (net.machineID 2, net.machineID 3)) = some (2, 2) := by
    decide +kernel
  obtain ⟨net, hfold, hids⟩ := Option.map_eq_some_iff.mp hids
  obtain ⟨hsecond, hthird⟩ := Prod.mk.inj hids
  exact ⟨net, run_of_foldlM hfold, hsecond, hthird, by rw [hsecond, hthird]⟩

end RouterNet

end Doopey
