import Doopey.Network.SequentialJoins

/-!
# Machines that are shut down and start again

A machine keeps its ID in its snapshot, but the largest ID only in memory. A
machine that starts again gets its ID back; a machine that joins does not get an
ID that is in a snapshot, so long as it asks a machine that knows the largest one.
-/

namespace Doopey

open Foundation

namespace RouterNet

variable {names : Names} {net net' : RouterNet} {top : MachineID} {host : Host} {node : RouterNode}

/-- A machine that is running and knows the largest ID that the others have or had. -/
structure Leads (net : RouterNet) (host leader : Host) : Prop where
  ne : leader ≠ host
  running : (net.hosts leader).stage = .running
  le (other : Host) : other ≠ host → net.machineID other ≤ (net.hosts leader).node.machineIDMax

/-- Machines start and stop one after the other, with lists of addresses. Unless no machine
has had an ID before, the list of one without snapshot names a machine that knows the
largest one. -/
def Remembering (net : RouterNet) : RouterEvent → Prop
  | .boot host list => net.Settled ∧ (∀ ip ∈ list, ∃ other, ip = inetNtop other) ∧
      ((net.hosts host).snapshot ≠ 0 ∨ (∀ other, net.machineID other = 0) ∨
        ∃ leader, net.Leads host leader ∧ inetNtop leader ∈ list)
  | .stop _ => net.Settled
  | _ => True

/-- Every entry of a table has the address of the machine with its ID. -/
def Named (net : RouterNet) (host : Host) (table : Std.TreeMap MachineID RoutingEntry) : Prop :=
  ∀ (id : MachineID) (entry : RoutingEntry), table[id]? = some entry →
    id ≠ 0 ∧ ∃ other, other ≠ host ∧ net.machineID other = id ∧ entry.ip = inetNtop other

/-- The IDs of all machines, also of those that are down. -/
structure Owned (net : RouterNet) (top : MachineID) : Prop where
  zero : (net.hosts 0).stage = .down ∧ net.machineID 0 = 0
  snapshot {host : Host} : (net.hosts host).stage = .down ∨ (net.hosts host).snapshot ≠ 0 →
    net.machineID host = (net.hosts host).snapshot
  inj {host other : Host} : net.machineID host ≠ 0 → net.machineID host = net.machineID other →
    host = other
  le (host : Host) : (net.machineID host).toNat ≤ top.toNat
  onto {n : Nat} : 0 < n → n ≤ top.toNat →
    ∃ host, net.machineID host ≠ 0 ∧ (net.machineID host).toNat = n
  joined {host : Host} : net.Joined host → net.machineID host ≠ 0
  named (host : Host) : net.Named host (net.hosts host).node.routingTable
  max_le (host : Host) : (net.hosts host).node.machineIDMax.toNat ≤ top.toNat
  flight {host : Host} {src : MachineID} {data : Bytes} : (src, data) ∈ net.inFlight host →
    src ≠ 0 ∧ ∃ other, other ≠ host ∧ net.machineID other = src ∧ ∃ max : MachineID,
      max.toNat ≤ top.toNat ∧ data = addressData max (inetNtop other)

/-- The table of a machine has the others that it has reached. -/
def Nearby (net : RouterNet) (host : Host) (table : Std.TreeMap MachineID RoutingEntry) : Prop :=
  ∀ (id : MachineID) (entry : RoutingEntry), table[id]? = some entry →
    ∃ other, other ≠ host ∧ (net.hosts other).stage = .running ∧ net.machineID other = id ∧
      entry.ip = inetNtop other

/-- A machine that reads its list. -/
structure Reading (net : RouterNet) (host : Host) (node : RouterNode) (list : List Bytes) : Prop where
  nearby : net.Nearby host node.routingTable
  neighbors : node.neighbors.isEmpty = true ↔ node.addresses = []
  addresses {ip : Bytes} : ip ∈ list → ∃ other, ip = inetNtop other
  leads : node.machineID = 0 → (∀ other, other ≠ host → net.machineID other = 0) ∨
    ∃ leader, net.Leads host leader ∧
      (inetNtop leader ∈ list ∨ node.routingTable[net.machineID leader]? ≠ none)

/-- What holds of a machine that starts. -/
def Readied (net : RouterNet) (top : MachineID) (host : Host) (node : RouterNode) :
    JoinStage → Prop
  | .connecting list => net.Quiet ∧ net.Reading host node list
  | .checking => net.Quiet ∧ net.Nearby host node.routingTable ∧ node.machineID ≠ 0 ∧
      node.addresses ≠ []
  | .asking rest max => net.Quiet ∧ node.machineID = 0 ∧ max.toNat ≤ top.toNat ∧
      ∃ leader, net.Leads host leader ∧
        (inetNtop leader ∈ rest ∨ (net.hosts leader).node.machineIDMax ≤ max)
  | .fetching _ | .announcing => net.Quiet ∧ node.machineID ≠ 0
  | .down | .announced | .running => True

/-- The invariant of these runs. -/
structure Kept (net : RouterNet) : Prop where
  alone {host other : Host} : ¬ net.Resting host → other ≠ host → net.Resting other
  owned : ∃ top, net.Owned top ∧
    ∀ host, net.Readied top host (net.hosts host).node (net.hosts host).stage

/-! ## Steps of one machine -/

/-- Nothing changes for the other machines. -/
structure Others (net net' : RouterNet) (host : Host) : Prop where
  hosts {other : Host} : other ≠ host → net'.hosts other = net.hosts other
  inFlight : net'.inFlight = net.inFlight

theorem others_set (net : RouterNet) (host : Host) (stage : JoinStage) (node : RouterNode) :
    Others net (net.set host stage node) host :=
  ⟨fun hne => hosts_set_of_ne _ _ _ _ hne, rfl⟩

section Others

variable (h : Others net net' host)

include h

theorem Others.machineID {other : Host} (hne : other ≠ host) :
    net'.machineID other = net.machineID other := by
  unfold RouterNet.machineID
  rw [h.hosts hne]

theorem Others.leads {leader : Host} (hleads : net.Leads host leader) : net'.Leads host leader := by
  refine ⟨hleads.ne, ?_, fun other hne => ?_⟩
  · rw [h.hosts hleads.ne]
    exact hleads.running
  · rw [h.machineID hne, h.hosts hleads.ne]
    exact hleads.le other hne

theorem Others.quiet (hquiet : net.Quiet) : net'.Quiet := by
  intro other
  rw [h.inFlight]
  exact hquiet other

theorem Others.nearby {table : Std.TreeMap MachineID RoutingEntry}
    (hnearby : net.Nearby host table) : net'.Nearby host table := by
  intro id entry hentry
  obtain ⟨other, hne, hrunning, hid, hip⟩ := hnearby id entry hentry
  refine ⟨other, hne, ?_, (h.machineID hne).trans hid, hip⟩
  rw [h.hosts hne]
  exact hrunning

/-- What a machine needs while it starts is about the others. -/
theorem Others.readied {stage : JoinStage} (hreadied : net.Readied top host node stage) :
    net'.Readied top host node stage := by
  cases stage with
  | connecting list =>
      obtain ⟨hquiet, hreading⟩ := hreadied
      refine ⟨h.quiet hquiet, h.nearby hreading.nearby, hreading.neighbors, hreading.addresses,
        fun hid => (hreading.leads hid).imp (fun hnone other hne => ?_) ?_⟩
      · rw [h.machineID hne]
        exact hnone other hne
      · rintro ⟨leader, hleads, hnext⟩
        refine ⟨leader, h.leads hleads, ?_⟩
        rw [h.machineID hleads.ne]
        exact hnext
  | checking => exact ⟨h.quiet hreadied.1, h.nearby hreadied.2.1, hreadied.2.2⟩
  | asking rest max =>
      obtain ⟨hquiet, hid, hmax, leader, hleads, hnext⟩ := hreadied
      refine ⟨h.quiet hquiet, hid, hmax, leader, h.leads hleads, ?_⟩
      rw [h.hosts hleads.ne]
      exact hnext
  | fetching rest => exact ⟨h.quiet hreadied.1, hreadied.2⟩
  | announcing => exact ⟨h.quiet hreadied.1, hreadied.2⟩
  | down => exact trivial
  | announced => exact trivial
  | running => exact trivial

end Others

theorem readied_of_resting (h : net.Resting host) (node : RouterNode) :
    net.Readied top host node (net.hosts host).stage := by
  rcases h with h | h
  · rw [h]
    exact trivial
  · rw [h]
    exact trivial

/-- IDs that are not zero stay, so that entries go on to name their machines. -/
theorem Named.mono {table : Std.TreeMap MachineID RoutingEntry} (h : net.Named host table)
    (hid : ∀ other, net.machineID other ≠ 0 → net'.machineID other = net.machineID other) :
    net'.Named host table := by
  intro id entry hentry
  obtain ⟨hne, other, hother, heq, hip⟩ := h id entry hentry
  exact ⟨hne, other, hother, (hid other (heq ▸ hne)).trans heq, hip⟩

theorem Nearby.named {table : Std.TreeMap MachineID RoutingEntry} (h : net.Nearby host table)
    (howned : net.Owned top) : net.Named host table := by
  intro id entry hentry
  obtain ⟨other, hne, hrunning, hid, hip⟩ := h id entry hentry
  have hjoined : net.Joined other := by
    rw [Joined, hrunning]
    rfl
  exact ⟨hid ▸ howned.joined hjoined, other, hne, hid, hip⟩

/-- A machine takes a step and keeps its ID. -/
theorem Owned.set (h : net.Owned top) (hhost : host ≠ 0) {stage : JoinStage}
    (hid : node.machineID = net.machineID host) (hdown : stage ≠ .down)
    (hjoined : stage.joined = true → net.machineID host ≠ 0)
    (hnamed : net.Named host node.routingTable) (hmax : node.machineIDMax.toNat ≤ top.toNat) :
    (net.set host stage node).Owned top := by
  have hothers := others_set net host stage node
  have hids (other : Host) : (net.set host stage node).machineID other = net.machineID other := by
    by_cases heq : other = host
    · rw [heq, machineID, node_set_self, hid]
    · exact hothers.machineID heq
  refine ⟨?_, fun {other} hother => ?_, fun {a b} ha heq => ?_, fun other => ?_,
    fun {n} hpos hle => ?_, fun {other} hother => ?_, fun other => ?_, fun other => ?_,
    fun {other src data} hmem => ?_⟩
  · rw [hothers.hosts hhost.symm, hids]
    exact h.zero
  · rw [snapshot_set] at hother ⊢
    rw [hids]
    by_cases heq : other = host
    · subst heq
      rw [stage_set_self] at hother
      exact h.snapshot (Or.inr (hother.resolve_left hdown))
    · rw [hothers.hosts heq] at hother
      exact h.snapshot hother
  · rw [hids] at ha
    rw [hids, hids] at heq
    exact h.inj ha heq
  · rw [hids]
    exact h.le other
  · obtain ⟨owner, howner⟩ := h.onto hpos hle
    rw [← hids] at howner
    exact ⟨owner, howner⟩
  · rw [hids]
    by_cases heq : other = host
    · rw [heq, Joined, stage_set_self] at hother
      rw [heq]
      exact hjoined hother
    · rw [Joined, hothers.hosts heq] at hother
      exact h.joined hother
  · apply Named.mono _ fun other _ => hids other
    by_cases heq : other = host
    · rw [heq, node_set_self]
      exact hnamed
    · rw [hothers.hosts heq]
      exact h.named other
  · by_cases heq : other = host
    · rw [heq, node_set_self]
      exact hmax
    · rw [hothers.hosts heq]
      exact h.max_le other
  · obtain ⟨hsrc, owner, hne, howner, hdata⟩ := h.flight hmem
    exact ⟨hsrc, owner, hne, (hids owner).trans howner, hdata⟩

/-- A machine without ID takes the next one. -/
theorem Owned.set_new (h : net.Owned top) (hhost : host ≠ 0) {stage : JoinStage}
    (hold : net.machineID host = 0) (hid : node.machineID.toNat = top.toNat + 1)
    (hnode : node.machineIDMax = node.machineID)
    (htable : node.routingTable = (net.hosts host).node.routingTable)
    (hsnapshot : (net.hosts host).snapshot = 0) (hdown : stage ≠ .down) :
    (net.set host stage node).Owned node.machineID := by
  have hothers := others_set net host stage node
  have hself : (net.set host stage node).machineID host = node.machineID := by
    rw [machineID, node_set_self]
  have hids {other : Host} (hne : net.machineID other ≠ 0) :
      (net.set host stage node).machineID other = net.machineID other := by
    apply hothers.machineID
    rintro rfl
    exact hne hold
  have hnonzero : node.machineID ≠ 0 := by
    intro hzero
    rw [hzero] at hid
    exact absurd hid (Nat.succ_ne_zero _).symm
  have hlt {other : Host} (hne : other ≠ host) :
      ((net.set host stage node).machineID other).toNat < node.machineID.toNat := by
    rw [hothers.machineID hne, hid]
    exact Nat.lt_succ_of_le (h.le other)
  refine ⟨?_, fun {other} hother => ?_, fun {a b} ha heq => ?_, fun other => ?_,
    fun {n} hpos hle => ?_, fun {other} hother => ?_, fun other => ?_, fun other => ?_,
    fun {other src data} hmem => ?_⟩
  · rw [hothers.hosts hhost.symm, hothers.machineID hhost.symm]
    exact h.zero
  · rw [snapshot_set] at hother ⊢
    by_cases heq : other = host
    · subst heq
      rw [stage_set_self] at hother
      exact absurd hsnapshot (hother.resolve_left hdown)
    · rw [hothers.hosts heq] at hother
      rw [hothers.machineID heq]
      exact h.snapshot hother
  · by_cases ha' : a = host
    · by_contra hne
      have hb := hlt (fun heq => hne (ha'.trans heq.symm))
      rw [← heq, ha', hself] at hb
      exact absurd hb (Nat.lt_irrefl _)
    · by_cases hb' : b = host
      · have hb := hlt ha'
        rw [heq, hb', hself] at hb
        exact absurd hb (Nat.lt_irrefl _)
      · rw [hothers.machineID ha'] at ha
        rw [hothers.machineID ha', hothers.machineID hb'] at heq
        exact h.inj ha heq
  · by_cases heq : other = host
    · rw [heq, hself]
    · exact Nat.le_of_lt (hlt heq)
  · by_cases hn : n ≤ top.toNat
    · obtain ⟨owner, hne, howner⟩ := h.onto hpos hn
      rw [← hids hne] at howner
      exact ⟨owner, by rw [hids hne]; exact hne, howner⟩
    · refine ⟨host, ?_, ?_⟩
      · rw [hself]
        exact hnonzero
      · rw [hself]
        omega
  · by_cases heq : other = host
    · rw [heq, hself]
      exact hnonzero
    · rw [Joined, hothers.hosts heq] at hother
      rw [hothers.machineID heq]
      exact h.joined hother
  · apply Named.mono _ fun other hne => hids hne
    by_cases heq : other = host
    · rw [heq, node_set_self, htable]
      exact h.named host
    · rw [hothers.hosts heq]
      exact h.named other
  · by_cases heq : other = host
    · rw [heq, node_set_self, hnode]
    · rw [hothers.hosts heq, hid]
      exact Nat.le_succ_of_le (h.max_le other)
  · obtain ⟨hsrc, owner, hne, howner, max, hmax, hdata⟩ := h.flight hmem
    refine ⟨hsrc, owner, hne, (hids (howner ▸ hsrc)).trans howner, max, ?_, hdata⟩
    rw [hid]
    exact Nat.le_succ_of_le hmax

/-- A step of the machine that starts, up to its own part. -/
theorem Kept.set (h : net.Kept) {stage : JoinStage}
    (hresting : ∀ other, other ≠ host → net.Resting other)
    (hown : ∀ top, net.Owned top →
      net.Readied top host (net.hosts host).node (net.hosts host).stage →
      ∃ top', (net.set host stage node).Owned top' ∧ net.Readied top' host node stage) :
    (net.set host stage node).Kept := by
  have hothers := others_set net host stage node
  have hresting' {other : Host} (hne : other ≠ host) : (net.set host stage node).Resting other := by
    unfold Resting
    rw [hothers.hosts hne]
    exact hresting other hne
  obtain ⟨top, howned, hall⟩ := h.owned
  obtain ⟨top', howned', hreadied⟩ := hown top howned (hall host)
  refine ⟨fun {a b} ha hb => ?_, top', howned', fun other => ?_⟩
  · have heq : a = host := by
      by_contra hne
      exact ha (hresting' hne)
    exact hresting' (heq ▸ hb)
  · by_cases heq : other = host
    · rw [heq, stage_set_self, node_set_self]
      exact hothers.readied hreadied
    · exact readied_of_resting (hresting' heq) _

/-! ## Who is reached by an address -/

theorem reached_inetNtop {other : Host} (hrunning : (net.hosts other).stage = .running) :
    net.reached names (inetNtop other) = some other := by
  refine Option.filter_eq_some_iff.mpr ⟨names.gethostbyname_inetNtop other, ?_⟩
  rw [hrunning]
  rfl

theorem running_of_reached {other third : Host}
    (hreached : net.reached names (inetNtop other) = some third) :
    third = other ∧ (net.hosts other).stage = .running := by
  obtain ⟨hname, hanswers⟩ := Option.filter_eq_some_iff.mp hreached
  rw [names.gethostbyname_inetNtop] at hname
  obtain rfl := Option.some.inj hname
  refine ⟨rfl, ?_⟩
  cases hstage : (net.hosts other).stage with
  | running => rfl
  | _ => exact absurd (hstage ▸ hanswers) nofun

/-! ## The steps of a machine that starts -/

theorem Kept.ne_zero (h : net.Kept) {stage : JoinStage}
    (hstage : (net.hosts host).stage = stage) (hne : stage ≠ .down) : host ≠ 0 := by
  obtain ⟨_, howned, -⟩ := h.owned
  rintro rfl
  exact hne (hstage.symm.trans howned.zero.1)

theorem Kept.boot (h : net.Kept) (hhost : host ≠ 0) {list : List Bytes}
    (hremembering : net.Remembering (.boot host list)) (hstage : (net.hosts host).stage = .down) :
    (net.set host (.connecting list) (.new (net.hosts host).snapshot)).Kept := by
  obtain ⟨⟨hquiet, hresting⟩, hlist, hleads⟩ := hremembering
  apply h.set fun other _ => hresting other
  intro top howned _
  have hentry (id : MachineID) (entry : RoutingEntry) :
      (RouterNode.new (net.hosts host).snapshot).routingTable[id]? ≠ some entry := by
    intro hentry
    exact absurd (hentry.symm.trans Std.TreeMap.getElem?_emptyc) (Option.some_ne_none _)
  refine ⟨top, ?_, hquiet, ?_⟩
  · refine howned.set hhost (howned.snapshot (Or.inl hstage)).symm nofun nofun ?_ (Nat.zero_le _)
    exact fun id entry hmem => absurd hmem (hentry id entry)
  · refine ⟨fun id entry hmem => absurd hmem (hentry id entry), ?_, fun hip => hlist _ hip,
      fun hid => ?_⟩
    · exact iff_of_true (by simp [RouterNode.new]) rfl
    · rcases hleads with hsnapshot | hnone | ⟨leader, hleads, hmem⟩
      · exact absurd hid hsnapshot
      · exact Or.inl fun other _ => hnone other
      · exact Or.inr ⟨leader, hleads, Or.inl hmem⟩

/-- The machine that is next on the list is added if it is reached. -/
theorem Reading.connect {ip : Bytes} {list : List Bytes}
    (h : net.Reading host node (ip :: list)) (hself : (net.hosts host).stage ≠ .running) :
    net.Reading host (node.initConnectNeighbor (net.reachedNode names ip) ip) list := by
  obtain ⟨other, rfl⟩ := h.addresses List.mem_cons_self
  have haddresses {ip : Bytes} (hip : ip ∈ list) := h.addresses (List.mem_cons_of_mem _ hip)
  unfold reachedNode
  cases hreached : net.reached names (inetNtop other) with
  | none =>
      rw [Option.map_none, RouterNode.initConnectNeighbor_none]
      refine ⟨h.nearby, h.neighbors, haddresses, fun hid => (h.leads hid).imp_right ?_⟩
      rintro ⟨leader, hleads, hmem | hknown⟩
      · refine ⟨leader, hleads, Or.inl ((List.mem_cons.mp hmem).resolve_left fun heq => ?_)⟩
        rw [← heq, reached_inetNtop hleads.running] at hreached
        exact absurd hreached (Option.some_ne_none _)
      · exact ⟨leader, hleads, Or.inr hknown⟩
  | some third =>
      obtain ⟨rfl, hrunning⟩ := running_of_reached hreached
      have hne : third ≠ host := by
        rintro rfl
        exact hself hrunning
      rw [Option.map_some, RouterNode.initConnectNeighbor_some]
      refine ⟨fun id entry hentry => ?_, ?_, haddresses, fun hid => (h.leads hid).imp_right ?_⟩
      · rw [RouterNode.getElem?_addRoutingPath] at hentry
        split at hentry
        next heq =>
          obtain rfl := Option.some.inj hentry
          exact ⟨third, hne, hrunning, heq.symm, rfl⟩
        next => exact h.nearby id entry hentry
      · have haddresses : (node.addRoutingPath (net.hosts third).node.machineID
            (inetNtop third) 1).addresses ≠ [] :=
          RouterNode.addresses_ne_nil (RouterNode.addRoutingPath_ne_none _ _ _ _ (Or.inr rfl))
        refine iff_of_false ?_ haddresses
        simp [RouterNode.addRoutingPath]
      · rintro ⟨leader, hleads, hmem | hknown⟩
        · refine ⟨leader, hleads, (List.mem_cons.mp hmem).symm.imp_right fun heq => ?_⟩
          obtain rfl := inetNtop_inj heq
          exact RouterNode.addRoutingPath_ne_none _ _ _ _ (Or.inr rfl)
        · exact ⟨leader, hleads, Or.inr (RouterNode.addRoutingPath_ne_none _ _ _ _ (Or.inl hknown))⟩

theorem Kept.connect (h : net.Kept) {ip : Bytes} {list : List Bytes}
    (hstage : (net.hosts host).stage = .connecting (ip :: list)) :
    (net.set host (.connecting list)
      ((net.hosts host).node.initConnectNeighbor (net.reachedNode names ip) ip)).Kept := by
  apply h.set fun other => h.alone (not_resting hstage nofun nofun)
  intro top howned hreadied
  rw [hstage] at hreadied
  obtain ⟨hquiet, hreading⟩ := hreadied
  have hself : (net.hosts host).stage ≠ .running := by
    rw [hstage]
    exact nofun
  have hconnected : net.Reading host
      ((net.hosts host).node.initConnectNeighbor (net.reachedNode names ip) ip) list :=
    hreading.connect hself
  have hnode : ((net.hosts host).node.initConnectNeighbor (net.reachedNode names ip) ip).machineID =
        (net.hosts host).node.machineID ∧
      ((net.hosts host).node.initConnectNeighbor (net.reachedNode names ip) ip).machineIDMax =
        (net.hosts host).node.machineIDMax := by
    unfold RouterNode.initConnectNeighbor
    split
    next => exact ⟨rfl, rfl⟩
    next => exact ⟨rfl, rfl⟩
  refine ⟨top, ?_, hquiet, hconnected⟩
  refine howned.set (h.ne_zero hstage nofun) hnode.1 nofun nofun (hconnected.nearby.named howned) ?_
  rw [hnode.2]
  exact howned.max_le host

theorem Kept.identify (h : net.Kept) (hstage : (net.hosts host).stage = .connecting []) :
    (net.set host (RouterNet.identify (net.hosts host).node).1
      (RouterNet.identify (net.hosts host).node).2).Kept := by
  have hhost : host ≠ 0 := h.ne_zero hstage nofun
  apply h.set fun other => h.alone (not_resting hstage nofun nofun)
  intro top howned hreadied
  rw [hstage] at hreadied
  obtain ⟨hquiet, hreading⟩ := hreadied
  have hnamed : net.Named host (net.hosts host).node.routingTable := hreading.nearby.named howned
  unfold RouterNet.identify
  split
  next hid =>
    split
    next =>
      refine ⟨top, ?_, hquiet, hid⟩
      exact howned.set hhost rfl nofun nofun hnamed (howned.le host)
    next hneighbors =>
      refine ⟨top, ?_, hquiet, hreading.nearby, hid, fun hnil => ?_⟩
      · exact howned.set hhost rfl nofun nofun hnamed (howned.max_le host)
      · exact hneighbors (hreading.neighbors.mpr hnil)
  next hid =>
    have hzero : (net.hosts host).node.machineID = 0 := not_not.mp hid
    have hsnapshot : (net.hosts host).snapshot = 0 := by
      by_contra hne
      exact hne ((howned.snapshot (Or.inr hne)).symm.trans hzero)
    split
    next hneighbors =>
      -- a machine that reaches nobody is the first one
      have hnone : ∀ other, net.machineID other = 0 := by
        have hnil : (net.hosts host).node.addresses = [] := hreading.neighbors.mp hneighbors
        rcases hreading.leads hzero with hnone | ⟨leader, -, hmem | hknown⟩
        · intro other
          by_cases heq : other = host
          · rw [heq]
            exact hzero
          · exact hnone other heq
        · exact absurd hmem List.not_mem_nil
        · exact absurd hnil (RouterNode.addresses_ne_nil hknown)
      have htop : top.toNat = 0 := by
        by_contra hne
        obtain ⟨other, hother, -⟩ := howned.onto (Nat.pos_of_ne_zero hne) (Nat.le_refl _)
        exact hother (hnone other)
      refine ⟨1, ?_, hquiet, ?_⟩
      · refine howned.set_new hhost hzero ?_ rfl rfl hsnapshot nofun
        rw [htop]
        rfl
      · exact (by decide : (1 : MachineID) ≠ 0)
    next hneighbors =>
      refine ⟨top, ?_, hquiet, hzero, Nat.zero_le _, ?_⟩
      · exact howned.set hhost rfl nofun nofun hnamed (howned.max_le host)
      · have haddresses : (net.hosts host).node.addresses ≠ [] :=
          fun hnil => hneighbors (hreading.neighbors.mpr hnil)
        rcases hreading.leads hzero with hnone | ⟨leader, hleads, hmem | hknown⟩
        · -- a machine that answers has an ID
          obtain ⟨ip, hip⟩ := List.exists_mem_of_ne_nil _ haddresses
          obtain ⟨id, entry, hentry, -⟩ := (RouterNode.mem_addresses _ ip).mp hip
          obtain ⟨other, hne, hrunning, -⟩ := hreading.nearby id entry hentry
          refine absurd (hnone other hne) (howned.joined ?_)
          rw [Joined, hrunning]
          rfl
        · exact absurd hmem List.not_mem_nil
        · refine ⟨leader, hleads, Or.inl ?_⟩
          obtain ⟨entry, hentry⟩ := Option.ne_none_iff_exists'.mp hknown
          obtain ⟨hne, other, -, hid, hip⟩ := hnamed _ entry hentry
          obtain rfl := howned.inj hne hid.symm
          exact (RouterNode.mem_addresses _ _).mpr ⟨_, entry, hentry, hip⟩

/-- The neighbor that is asked has no other machine with the ID. -/
theorem Kept.check (h : net.Kept) {answer : Option RouterNode}
    (hstage : (net.hosts host).stage = .checking)
    (hcheck : (net.hosts host).node.checkMachineID (inetNtop host)
      ((net.hosts host).node.addresses.head?.bind (net.reachedNode names)) = .ok answer) :
    (match answer with
      | some node => net.set host (.fetching node.addresses) node
      | none => net.set host (.asking (net.hosts host).node.addresses 0)
          (net.hosts host).node).Kept := by
  have hhost : host ≠ 0 := h.ne_zero hstage (by simp)
  obtain ⟨top, howned, hall⟩ := h.owned
  have hreadied := hall host
  rw [hstage] at hreadied
  obtain ⟨hquiet, hnearby, hid, haddresses⟩ := hreadied
  obtain ⟨ip, hhead⟩ := Option.ne_none_iff_exists'.mp (mt List.head?_eq_none_iff.mp haddresses)
  obtain ⟨id, entry, hentry, rfl⟩ := (RouterNode.mem_addresses _ ip).mp (List.mem_of_head? hhead)
  obtain ⟨other, hne, hrunning, -, hip⟩ := hnearby id entry hentry
  have hlength : (inetNtop host).length < 2 ^ 64 :=
    Nat.lt_of_le_of_lt (length_inetNtop host) (by decide)
  rw [hhead, Option.bind_some, reachedNode, hip, reached_inetNtop hrunning, Option.map_some,
    RouterNode.checkMachineID_eq _ _ hlength] at hcheck
  have hfree : ¬ ((net.hosts other).node.machineID = (net.hosts host).node.machineID ∨
      ∃ entry, (net.hosts other).node.routingTable[(net.hosts host).node.machineID]? = some entry ∧
        inetNtop host ≠ entry.ip) := by
    rintro (heq | ⟨entry', hentry', hne'⟩)
    · exact hne (howned.inj hid heq.symm).symm
    · obtain ⟨-, owner, -, howner, hip'⟩ := howned.named other _ entry' hentry'
      obtain rfl := howned.inj hid howner.symm
      exact hne' hip'.symm
  rw [if_neg hfree] at hcheck
  obtain rfl := Except.ok.inj hcheck
  apply h.set fun other => h.alone (not_resting hstage (by simp) (by simp))
  intro top howned _
  refine ⟨top, ?_, hquiet, hid⟩
  refine howned.set hhost rfl (by simp) (absurd · Bool.false_ne_true) (hnearby.named howned) ?_
  dsimp only
  split
  next => exact howned.le host
  next => exact howned.max_le other

theorem Kept.ask (h : net.Kept) {ip : Bytes} {rest : List Bytes} {max : MachineID}
    (hstage : (net.hosts host).stage = .asking (ip :: rest) max) :
    (net.set host (.asking rest (RouterNode.askMachineIDMax (inetNtop host)
      (net.reachedNode names ip) ip max)) (net.hosts host).node).Kept := by
  apply h.set fun other => h.alone (not_resting hstage nofun nofun)
  intro top howned hreadied
  rw [hstage] at hreadied
  obtain ⟨hquiet, hid, hmax, leader, hleads, hnext⟩ := hreadied
  refine ⟨top, ?_, hquiet, hid, ?_, leader, hleads, ?_⟩
  · exact howned.set (h.ne_zero hstage nofun) rfl nofun nofun (howned.named host) (howned.max_le host)
  · apply RouterNode.askMachineIDMax_le hmax
    intro neighbor hneighbor
    obtain ⟨other, -, rfl⟩ := Option.map_eq_some_iff.mp hneighbor
    exact howned.max_le other
  · rcases hnext with hmem | hle
    · rcases List.mem_cons.mp hmem with rfl | hmem
      · have hne : inetNtop host ≠ inetNtop leader := fun heq => hleads.ne (inetNtop_inj heq).symm
        rw [reachedNode, reached_inetNtop hleads.running, Option.map_some,
          RouterNode.askMachineIDMax_some hne]
        refine Or.inr ?_
        split
        next => exact UInt32.le_refl _
        next hnot => exact UInt32.not_lt.mp hnot
      · exact Or.inl hmem
    · exact Or.inr (UInt32.le_trans hle (RouterNode.le_askMachineIDMax _ _ _ _))

theorem Kept.take (h : net.Kept) {max : MachineID}
    (hstage : (net.hosts host).stage = .asking [] max) :
    (net.set host (.fetching (net.hosts host).node.addresses)
      ((net.hosts host).node.takeMachineID max)).Kept := by
  have hhost : host ≠ 0 := h.ne_zero hstage nofun
  apply h.set fun other => h.alone (not_resting hstage nofun nofun)
  intro top howned hreadied
  rw [hstage] at hreadied
  obtain ⟨hquiet, hid, hmax, leader, hleads, hnext⟩ := hreadied
  have hle := hnext.resolve_left List.not_mem_nil
  -- the leader knows the largest ID, and so the machine does
  have htop : max = top := by
    apply UInt32.toNat_inj.mp (Nat.le_antisymm hmax _)
    by_contra hlt
    obtain ⟨owner, hne, howner⟩ := howned.onto (Nat.pos_of_ne_zero fun hzero => hlt (by omega))
      (Nat.le_refl top.toNat)
    have hother : owner ≠ host := by
      rintro rfl
      exact hne hid
    have hleader := hleads.le owner hother
    rw [UInt32.le_iff_toNat_le] at hleader hle
    omega
  have hlt : top.toNat + 1 < 2 ^ 32 :=
    succ_lt_of_onto howned.onto (not_not_intro howned.zero.2) hhost (not_not_intro hid)
  have hsnapshot : (net.hosts host).snapshot = 0 := by
    by_contra hne
    exact hne ((howned.snapshot (Or.inr hne)).symm.trans hid)
  have hnumber : ((net.hosts host).node.takeMachineID max).machineID.toNat = top.toNat + 1 := by
    rw [htop]
    exact toNat_succ hlt
  refine ⟨_, howned.set_new hhost hid hnumber rfl rfl hsnapshot nofun, hquiet, fun hzero => ?_⟩
  rw [hzero] at hnumber
  exact absurd hnumber (Nat.succ_ne_zero _).symm

theorem Kept.fetch (h : net.Kept) {ip : Bytes} {rest : List Bytes} {done : Bool}
    (hstage : (net.hosts host).stage = .fetching (ip :: rest))
    (hfetch : (net.hosts host).node.fetchTable (inetNtop host) (net.reachedNode names ip) =
      .ok (node, done)) :
    (net.set host (if done then .announcing else .fetching rest) node).Kept := by
  apply h.set fun other => h.alone (not_resting hstage nofun nofun)
  intro top howned hreadied
  rw [hstage] at hreadied
  obtain ⟨hquiet, hid⟩ := hreadied
  have hnode : node.machineID = (net.hosts host).node.machineID ∧
      node.machineIDMax = (net.hosts host).node.machineIDMax ∧ net.Named host node.routingTable := by
    unfold reachedNode at hfetch
    cases hreached : net.reached names ip with
    | none =>
        rw [hreached, Option.map_none] at hfetch
        obtain ⟨rfl, -⟩ := Prod.mk.inj (Except.ok.inj hfetch)
        exact ⟨rfl, rfl, howned.named host⟩
    | some other =>
        rw [hreached, Option.map_some, RouterNode.fetchTable_eq] at hfetch
        · obtain ⟨rfl, -⟩ := Prod.mk.inj (Except.ok.inj hfetch)
          obtain ⟨hid, hmax⟩ := RouterNode.machineID_addEntries (inetNtop host)
            (net.hosts other).node.routingTable.toList (net.hosts host).node
          refine ⟨hid, hmax, fun id entry hentry => ?_⟩
          rcases RouterNode.getElem?_addEntries _ _ _ hentry with hentry | ⟨entry', hmem, hne, hip⟩
          · exact howned.named host id entry hentry
          · obtain ⟨hid, owner, -, howner, hip'⟩ := howned.named other id entry'
              (Std.TreeMap.mem_toList_iff_getElem?_eq_some.mp hmem)
            rw [hip'] at hne
            exact ⟨hid, owner, fun heq => hne (heq ▸ rfl), howner, hip.trans hip'⟩
        · intro entry hmem
          obtain ⟨-, owner, -, -, hip⟩ := howned.named other entry.1 entry.2
            (Std.TreeMap.mem_toList_iff_getElem?_eq_some.mp hmem)
          rw [hip]
          exact Nat.lt_of_le_of_lt (length_inetNtop owner) (by decide)
  obtain ⟨hnodeID, hmax, hnamed⟩ := hnode
  have hhost : host ≠ 0 := h.ne_zero hstage nofun
  have howned' {stage : JoinStage} (hdown : stage ≠ .down) (hjoined : stage.joined = false) :
      (net.set host stage node).Owned top := by
    refine howned.set hhost hnodeID hdown (fun _ => hid) hnamed ?_
    rw [hmax]
    exact howned.max_le host
  cases done with
  | true => exact ⟨top, howned' nofun rfl, hquiet, hnodeID ▸ hid⟩
  | false => exact ⟨top, howned' nofun rfl, hquiet, hnodeID ▸ hid⟩

theorem Kept.fetched (h : net.Kept) (hstage : (net.hosts host).stage = .fetching []) :
    (net.set host .announcing (net.hosts host).node).Kept := by
  apply h.set fun other => h.alone (not_resting hstage nofun nofun)
  intro top howned hreadied
  rw [hstage] at hreadied
  refine ⟨top, ?_, hreadied⟩
  exact howned.set (h.ne_zero hstage nofun) rfl nofun nofun (howned.named host) (howned.max_le host)

theorem Kept.start (h : net.Kept) (hstage : (net.hosts host).stage = .announced) :
    (net.set host .running (net.hosts host).node).Kept := by
  apply h.set fun other => h.alone (not_resting hstage (by simp) (by simp))
  intro top howned _
  refine ⟨top, ?_, trivial⟩
  have hjoined : net.Joined host := by
    rw [Joined, hstage]
    rfl
  exact howned.set (h.ne_zero hstage (by simp)) rfl (by simp) (fun _ => howned.joined hjoined)
    (howned.named host) (howned.max_le host)

end RouterNet

end Doopey
