import Mathlib.Algebra.Order.Ring.Nat
import Mathlib.Data.Finset.Card
import Mathlib.Order.Interval.Finset.Nat
import Doopey.Network.RouterNet

/-!
# Machines that join one at a time

A machine that joins finds the largest ID and the table of a neighbor. So long as
no other machine asks for its ID meanwhile, the machines that have joined have
the IDs from 1 on, and every one has all others in its table or their
announcement before it.
-/

namespace Doopey

open Foundation

namespace JoinStage

/-- The machine has announced its ID. -/
def joined : JoinStage → Bool
  | announced | running => true
  | _ => false

/-- The machine has begun to look for its ID and does not answer requests yet. -/
def joining : JoinStage → Bool
  | checking | asking _ _ | fetching _ | announcing | announced => true
  | _ => false

end JoinStage

namespace RouterNet

/-- The ID of a machine. -/
def machineID (net : RouterNet) (host : Host) : MachineID := (net.hosts host).node.machineID

/-- The machine has announced its ID. -/
def Joined (net : RouterNet) (host : Host) : Prop := (net.hosts host).stage.joined = true

/-- No announcement is in flight. -/
def Quiet (net : RouterNet) : Prop := ∀ host, net.inFlight host = []

/-- A machine looks for its ID only when no other one does, and when everything
that was announced is handled; if it has reached no machine, none has an ID. No machine
is shut down. -/
def Orderly (net : RouterNet) : RouterEvent → Prop
  | .identify host => net.Quiet ∧
      (∀ other, other ≠ host → (net.hosts other).stage.joining = false) ∧
      ((net.hosts host).node.neighbors.isEmpty = true →
        ∀ other, other ≠ host → net.machineID other = 0)
  | .stop _ => False
  | _ => True

/-- Every entry of a table has the ID and an address of another machine that has joined. -/
def Entries (names : Names) (net : RouterNet) (host : Host)
    (table : Std.TreeMap MachineID RoutingEntry) : Prop :=
  ∀ (id : MachineID) entry, table[id]? = some entry → ∃ other, other ≠ host ∧ net.Joined other ∧
    net.machineID other = id ∧ names.gethostbyname entry.ip = some other

/-- A table has all other machines that have joined. -/
def Complete (net : RouterNet) (host : Host) (table : Std.TreeMap MachineID RoutingEntry) : Prop :=
  ∀ other, other ≠ host → net.Joined other → table[net.machineID other]? ≠ none

/-- The machines that have joined, with the largest ID. -/
structure Cluster (names : Names) (net : RouterNet) (top : MachineID) : Prop where
  zero : (net.hosts 0).stage = .down
  pos {host : Host} : net.Joined host → 0 < (net.machineID host).toNat
  le {host : Host} : net.Joined host → (net.machineID host).toNat ≤ top.toNat
  inj {host other : Host} : net.Joined host → net.Joined other →
    net.machineID host = net.machineID other → host = other
  onto {n : Nat} : 0 < n → n ≤ top.toNat → ∃ host, net.Joined host ∧ (net.machineID host).toNat = n
  entries {host : Host} : net.Joined host → Entries names net host (net.hosts host).node.routingTable
  max_le {host : Host} : net.Joined host → (net.hosts host).node.machineIDMax.toNat ≤ top.toNat
  max_eq {host : Host} : net.Joined host →
    (net.hosts host).node.machineIDMax = top ∨ net.inFlight host ≠ []
  complete {host other : Host} : net.Joined host → net.Joined other → other ≠ host →
    (net.hosts host).node.routingTable[net.machineID other]? ≠ none ∨
      ∃ data, (net.machineID other, data) ∈ net.inFlight host
  flight {host : Host} {src : MachineID} {data : Bytes} : (src, data) ∈ net.inFlight host →
    ∃ other, other ≠ host ∧ net.Joined other ∧ net.machineID other = top ∧ src = top ∧
      data = addressData top (inetNtop other)

/-- A machine that reads its list. -/
structure Connecting (names : Names) (net : RouterNet) (host : Host) (node : RouterNode) : Prop where
  machineID : node.machineID = 0
  entries : Entries names net host node.routingTable
  neighbors : node.neighbors.isEmpty = false → node.addresses ≠ []

/-- A machine that asks for the largest ID. -/
structure Asking (names : Names) (net : RouterNet) (top : MachineID) (host : Host)
    (node : RouterNode) (rest : List Bytes) (max : MachineID) : Prop where
  machineID : node.machineID = 0
  quiet : net.Quiet
  entries : Entries names net host node.routingTable
  addresses : node.addresses ≠ []
  subset {ip : Bytes} : ip ∈ rest → ip ∈ node.addresses
  max_le : max.toNat ≤ top.toNat
  eq_or_ne : max = top ∨ rest ≠ []

/-- A machine that has taken its ID. -/
structure Taken (names : Names) (net : RouterNet) (top : MachineID) (host : Host)
    (node : RouterNode) : Prop where
  machineID : node.machineID.toNat = top.toNat + 1
  machineIDMax : node.machineIDMax = node.machineID
  quiet : net.Quiet
  entries : Entries names net host node.routingTable

/-- What holds of a machine that has not joined yet. -/
def Prepared (names : Names) (net : RouterNet) (top : MachineID) (host : Host) (node : RouterNode) :
    JoinStage → Prop
  | .connecting _ => Connecting names net host node
  | .asking rest max => Asking names net top host node rest max
  | .fetching rest => Taken names net top host node ∧
      (∀ ip ∈ rest, ∃ other, other ≠ host ∧ net.Joined other ∧
        names.gethostbyname ip = some other ∧ node.routingTable[net.machineID other]? ≠ none) ∧
      (rest ≠ [] ∨ net.Complete host node.routingTable)
  | .announcing => Taken names net top host node ∧ net.Complete host node.routingTable
  | .checking => False
  | .down | .announced | .running => True

/-- The invariant of orderly runs. -/
structure Meshed (names : Names) (net : RouterNet) : Prop where
  snapshot (host : Host) : (net.hosts host).snapshot = 0
  unnamed {host : Host} : (net.hosts host).stage = .down → net.machineID host = 0
  single {host other : Host} : (net.hosts host).stage.joining = true →
    (net.hosts other).stage.joining = true → host = other
  cluster : ∃ top, net.Cluster names top ∧
    ∀ host, net.Prepared names top host (net.hosts host).node (net.hosts host).stage

/-! ## Machines that are not concerned -/

section Set

variable (net : RouterNet) (host : Host) (stage : JoinStage) (node : RouterNode)

@[simp] theorem stage_set_self : ((net.set host stage node).hosts host).stage = stage := by
  simp [set]

@[simp] theorem node_set_self : ((net.set host stage node).hosts host).node = node := by
  simp [set]

theorem hosts_set_of_ne {other : Host} (hother : other ≠ host) :
    (net.set host stage node).hosts other = net.hosts other :=
  Function.update_of_ne hother _ _

@[simp] theorem snapshot_set (other : Host) :
    ((net.set host stage node).hosts other).snapshot = (net.hosts other).snapshot := by
  by_cases heq : other = host
  · rw [heq]
    simp [set]
  · rw [hosts_set_of_ne _ _ _ _ heq]

@[simp] theorem inFlight_set : (net.set host stage node).inFlight = net.inFlight := rfl

end Set

variable {names : Names} {net net' : RouterNet} {top : MachineID} {host : Host} {node : RouterNode}

/-- The same machines have joined, and nothing has changed for them. -/
structure Agrees (net net' : RouterNet) : Prop where
  joined (host : Host) : net'.Joined host ↔ net.Joined host
  node {host : Host} : net.Joined host → (net'.hosts host).node = (net.hosts host).node
  inFlight : net'.inFlight = net.inFlight

theorem Agrees.machineID (h : Agrees net net') (hjoined : net.Joined host) :
    net'.machineID host = net.machineID host := congrArg RouterNode.machineID (h.node hjoined)

/-- A machine that has not joined yet takes a step and does not join. -/
theorem agrees_set (hold : ¬ net.Joined host) {stage : JoinStage} (hnew : stage.joined = false) :
    Agrees net (net.set host stage node) := by
  refine ⟨fun other => ?_, fun {other} hjoined => ?_, rfl⟩
  · by_cases heq : other = host
    · rw [heq, Joined, stage_set_self, hnew]
      simp [hold]
    · rw [Joined, hosts_set_of_ne _ _ _ _ heq]
      rfl
  · have heq : other ≠ host := fun heq => hold (heq ▸ hjoined)
    rw [hosts_set_of_ne _ _ _ _ heq]

theorem Entries.mono {table : Std.TreeMap MachineID RoutingEntry}
    (h : net.Entries names host table)
    (hjoined : ∀ other, net.Joined other → net'.Joined other ∧
      net'.machineID other = net.machineID other) : net'.Entries names host table := by
  intro id entry hentry
  obtain ⟨other, hne, hother, hid, hname⟩ := h id entry hentry
  exact ⟨other, hne, (hjoined other hother).1, (hjoined other hother).2.trans hid, hname⟩

theorem Agrees.entries (h : Agrees net net') {table : Std.TreeMap MachineID RoutingEntry}
    (hentries : net.Entries names host table) : net'.Entries names host table :=
  hentries.mono fun _ hother => ⟨(h.joined _).mpr hother, h.machineID hother⟩

theorem Agrees.quiet (h : Agrees net net') (hquiet : net.Quiet) : net'.Quiet := by
  intro other
  rw [h.inFlight]
  exact hquiet other

theorem Agrees.complete (h : Agrees net net') {table : Std.TreeMap MachineID RoutingEntry}
    (hcomplete : net.Complete host table) : net'.Complete host table := by
  intro other hne hother
  have hold := (h.joined other).mp hother
  rw [h.machineID hold]
  exact hcomplete other hne hold

theorem Agrees.cluster (h : Agrees net net') (hcluster : net.Cluster names top)
    (hzero : (net'.hosts 0).stage = .down) : net'.Cluster names top where
  zero := hzero
  pos hjoined := by
    have hold := (h.joined _).mp hjoined
    rw [h.machineID hold]
    exact hcluster.pos hold
  le hjoined := by
    have hold := (h.joined _).mp hjoined
    rw [h.machineID hold]
    exact hcluster.le hold
  inj hjoined hjoined' heq := by
    have hold := (h.joined _).mp hjoined
    have hold' := (h.joined _).mp hjoined'
    rw [h.machineID hold, h.machineID hold'] at heq
    exact hcluster.inj hold hold' heq
  onto hpos hle := by
    obtain ⟨other, hold, hid⟩ := hcluster.onto hpos hle
    exact ⟨other, (h.joined other).mpr hold, (congrArg UInt32.toNat (h.machineID hold)).trans hid⟩
  entries hjoined := by
    have hold := (h.joined _).mp hjoined
    rw [h.node hold]
    exact h.entries (hcluster.entries hold)
  max_le hjoined := by
    have hold := (h.joined _).mp hjoined
    rw [h.node hold]
    exact hcluster.max_le hold
  max_eq hjoined := by
    have hold := (h.joined _).mp hjoined
    rw [h.node hold, h.inFlight]
    exact hcluster.max_eq hold
  complete hjoined hjoined' hne := by
    have hold := (h.joined _).mp hjoined
    have hold' := (h.joined _).mp hjoined'
    rw [h.node hold, h.machineID hold', h.inFlight]
    exact hcluster.complete hold hold' hne
  flight hflight := by
    rw [h.inFlight] at hflight
    obtain ⟨other, hne, hother, hid, hsrc, hdata⟩ := hcluster.flight hflight
    exact ⟨other, hne, (h.joined other).mpr hother, (h.machineID hother).trans hid, hsrc, hdata⟩

theorem Agrees.taken (h : Agrees net net') (htaken : net.Taken names top host node) :
    net'.Taken names top host node :=
  { htaken with
    quiet := h.quiet htaken.quiet
    entries := h.entries htaken.entries }

/-- Nothing changes for the other machines that have not joined. -/
theorem Agrees.prepared (h : Agrees net net') {stage : JoinStage}
    (hprepared : net.Prepared names top host node stage) :
    net'.Prepared names top host node stage := by
  cases stage with
  | connecting list => exact { hprepared with entries := h.entries hprepared.entries }
  | asking rest max =>
      exact { hprepared with
        quiet := h.quiet hprepared.quiet
        entries := h.entries hprepared.entries }
  | fetching rest =>
      obtain ⟨htaken, hrest, hcomplete⟩ := hprepared
      refine ⟨h.taken htaken, fun ip hip => ?_, hcomplete.imp_right h.complete⟩
      obtain ⟨other, hne, hother, hname, hknown⟩ := hrest ip hip
      refine ⟨other, hne, (h.joined other).mpr hother, hname, ?_⟩
      rw [h.machineID hother]
      exact hknown
  | announcing => exact ⟨h.taken hprepared.1, h.complete hprepared.2⟩
  | checking => exact hprepared
  | down => exact trivial
  | announced => exact trivial
  | running => exact trivial

/-- A step of a machine that has not joined yet, up to its own part. -/
theorem Meshed.set (h : net.Meshed names) (hhost : host ≠ 0) (hold : ¬ net.Joined host)
    {stage : JoinStage} (hnew : stage.joined = false) (hdown : stage ≠ .down)
    (hsingle : stage.joining = true → ∀ other, other ≠ host →
      (net.hosts other).stage.joining = false)
    (hprepared : ∀ top, net.Cluster names top →
      net.Prepared names top host (net.hosts host).node (net.hosts host).stage →
      net.Prepared names top host node stage) : (net.set host stage node).Meshed names := by
  have hagrees : Agrees net (net.set host stage node) := agrees_set hold hnew
  obtain ⟨top, hcluster, hall⟩ := h.cluster
  refine ⟨fun other => ?_, fun {other} hother => ?_, fun {a b} ha hb => ?_, top, ?_, fun other => ?_⟩
  · rw [snapshot_set]
    exact h.snapshot other
  · by_cases heq : other = host
    · rw [heq, stage_set_self] at hother
      exact absurd hother hdown
    · rw [hosts_set_of_ne _ _ _ _ heq] at hother
      rw [machineID, hosts_set_of_ne _ _ _ _ heq]
      exact h.unnamed hother
  · by_cases haeq : a = host
    · by_cases hbeq : b = host
      · rw [haeq, hbeq]
      · rw [haeq, stage_set_self] at ha
        rw [hosts_set_of_ne _ _ _ _ hbeq, hsingle ha b hbeq] at hb
        exact absurd hb Bool.false_ne_true
    · rw [hosts_set_of_ne _ _ _ _ haeq] at ha
      by_cases hbeq : b = host
      · rw [hbeq, stage_set_self] at hb
        rw [hsingle hb a haeq] at ha
        exact absurd ha Bool.false_ne_true
      · rw [hosts_set_of_ne _ _ _ _ hbeq] at hb
        exact h.single ha hb
  · apply hagrees.cluster hcluster
    rw [hosts_set_of_ne _ _ _ _ hhost.symm]
    exact hcluster.zero
  · apply hagrees.prepared
    by_cases heq : other = host
    · rw [heq, stage_set_self, node_set_self]
      exact hprepared top hcluster (hall host)
    · rw [hosts_set_of_ne _ _ _ _ heq]
      exact hall other

/-! ## The steps of a machine that joins -/

theorem Meshed.ne_zero (h : net.Meshed names) {stage : JoinStage}
    (hstage : (net.hosts host).stage = stage) (hne : stage ≠ .down) : host ≠ 0 := by
  obtain ⟨_, hcluster, -⟩ := h.cluster
  intro heq
  rw [heq] at hstage
  exact hne (hstage.symm.trans hcluster.zero)

theorem not_joined_of_stage {stage : JoinStage} (hstage : (net.hosts host).stage = stage)
    (hjoined : stage.joined = false) : ¬ net.Joined host := by
  rw [Joined, hstage, hjoined]
  exact Bool.false_ne_true

theorem joining_of_stage {stage : JoinStage} (hstage : (net.hosts host).stage = stage)
    (hjoining : stage.joining = true) : (net.hosts host).stage.joining = true := by
  rw [hstage]
  exact hjoining

/-- No other machine joins at the same time. -/
theorem Meshed.others (h : net.Meshed names) (hjoining : (net.hosts host).stage.joining = true)
    (other : Host) (hne : other ≠ host) : (net.hosts other).stage.joining = false := by
  rw [Bool.eq_false_iff]
  exact fun hother => hne (h.single hother hjoining)

theorem joined_of_answers (h : (net.hosts host).stage.answers = true) : net.Joined host := by
  unfold Joined
  cases hstage : (net.hosts host).stage with
  | running => rfl
  | _ => exact absurd (hstage ▸ h) nofun

theorem reached_eq_some {ip : Bytes} {other : Host} (h : net.reached names ip = some other) :
    names.gethostbyname ip = some other ∧ net.Joined other := by
  obtain ⟨hname, hanswers⟩ := Option.filter_eq_some_iff.mp h
  exact ⟨hname, joined_of_answers hanswers⟩

/-- Who has joined answers the requests of the machine that joins now. -/
theorem Meshed.reached (h : net.Meshed names) (hjoining : (net.hosts host).stage.joining = true)
    {other : Host} (hne : other ≠ host) (hjoined : net.Joined other) {ip : Bytes}
    (hname : names.gethostbyname ip = some other) : net.reached names ip = some other := by
  refine Option.filter_eq_some_iff.mpr ⟨hname, ?_⟩
  unfold Joined at hjoined
  cases hstage : (net.hosts other).stage with
  | running => rfl
  | announced =>
      have hother := joining_of_stage hstage rfl
      exact absurd (h.single hother hjoining) hne
  | _ => exact absurd (hstage ▸ hjoined) nofun

/-- The address of another machine is not the own one. -/
theorem inetNtop_ne {ip : Bytes} {other : Host} (hne : other ≠ host)
    (hname : names.gethostbyname ip = some other) : inetNtop host ≠ ip := by
  intro heq
  rw [← heq, names.gethostbyname_inetNtop] at hname
  exact hne (Option.some.inj hname).symm

theorem Meshed.boot (h : net.Meshed names) (hhost : host ≠ 0) (list : List Bytes)
    (hstage : (net.hosts host).stage = .down) :
    (net.set host (.connecting list) (.new (net.hosts host).snapshot)).Meshed names := by
  have hold : ¬ net.Joined host := not_joined_of_stage hstage rfl
  refine h.set hhost hold rfl nofun nofun fun top _ _ => ?_
  refine ⟨h.snapshot host, fun id entry hentry => ?_, fun hne => ?_⟩
  · exact absurd (hentry.symm.trans Std.TreeMap.getElem?_emptyc) (Option.some_ne_none _)
  · exact absurd hne (by simp [RouterNode.new])

theorem Meshed.connect (h : net.Meshed names) {ip : Bytes} {list : List Bytes}
    (hstage : (net.hosts host).stage = .connecting (ip :: list)) :
    (net.set host (.connecting list)
      ((net.hosts host).node.initConnectNeighbor (net.reachedNode names ip) ip)).Meshed names := by
  have hhost : host ≠ 0 := h.ne_zero hstage nofun
  have hold : ¬ net.Joined host := not_joined_of_stage hstage rfl
  refine h.set hhost hold rfl nofun nofun fun top _ hprepared => ?_
  rw [hstage] at hprepared
  have hconnecting : Connecting names net host (net.hosts host).node := hprepared
  unfold reachedNode
  cases hreached : net.reached names ip with
  | none => exact hconnecting
  | some other =>
      obtain ⟨hname, hjoined⟩ := reached_eq_some hreached
      have hne : other ≠ host := fun heq => hold (heq ▸ hjoined)
      rw [Option.map_some, RouterNode.initConnectNeighbor_some]
      refine ⟨hconnecting.machineID, fun id entry hentry => ?_, fun _ => ?_⟩
      · rw [RouterNode.getElem?_addRoutingPath] at hentry
        split at hentry
        next heq =>
          obtain rfl := Option.some.inj hentry
          exact ⟨other, hne, hjoined, heq.symm, hname⟩
        next => exact hconnecting.entries id entry hentry
      · exact RouterNode.addresses_ne_nil (RouterNode.addRoutingPath_ne_none _ _ _ _ (Or.inr rfl))

theorem Meshed.identify (h : net.Meshed names) (hstage : (net.hosts host).stage = .connecting [])
    (horderly : net.Orderly (.identify host)) :
    (net.set host (RouterNet.identify (net.hosts host).node).1
      (RouterNet.identify (net.hosts host).node).2).Meshed names := by
  obtain ⟨hquiet, hsingle, hfirst⟩ := horderly
  obtain ⟨top, hcluster, hall⟩ := h.cluster
  have hhost : host ≠ 0 := h.ne_zero hstage nofun
  have hold : ¬ net.Joined host := not_joined_of_stage hstage rfl
  have hconnecting : Connecting names net host (net.hosts host).node := by
    have hprepared := hall host
    rw [hstage] at hprepared
    exact hprepared
  unfold RouterNet.identify
  rw [if_neg (not_not_intro hconnecting.machineID)]
  cases hneighbors : (net.hosts host).node.neighbors.isEmpty with
  | true =>
      -- the first machine takes the first ID
      have halone (other : Host) : ¬ net.Joined other := by
        intro hother
        have hne : other ≠ host := fun heq => hold (heq ▸ hother)
        have hpos := hcluster.pos hother
        rw [hfirst hneighbors other hne] at hpos
        exact absurd hpos (by decide)
      have hentries : Entries names net host (net.hosts host).node.routingTable := hconnecting.entries
      rw [if_pos rfl]
      refine h.set hhost hold rfl nofun (fun _ => hsingle) fun top hcluster _ => ?_
      have htop : top.toNat = 0 := by
        by_contra hne
        obtain ⟨other, hother, -⟩ := hcluster.onto (Nat.pos_of_ne_zero hne) (Nat.le_refl _)
        exact halone other hother
      refine ⟨⟨?_, rfl, hquiet, hentries⟩, fun other _ hother => absurd hother (halone other)⟩
      rw [htop]
      rfl
  | false =>
      rw [if_neg Bool.false_ne_true]
      refine h.set hhost hold rfl nofun (fun _ => hsingle) fun top _ _ => ?_
      have haddresses := hconnecting.neighbors hneighbors
      exact ⟨hconnecting.machineID, hquiet, hconnecting.entries, haddresses, fun hip => hip,
        Nat.zero_le _, Or.inr haddresses⟩

theorem Meshed.ask (h : net.Meshed names) {ip : Bytes} {rest : List Bytes} {max : MachineID}
    (hstage : (net.hosts host).stage = .asking (ip :: rest) max) :
    (net.set host (.asking rest (RouterNode.askMachineIDMax (inetNtop host)
      (net.reachedNode names ip) ip max)) (net.hosts host).node).Meshed names := by
  have hhost : host ≠ 0 := h.ne_zero hstage nofun
  have hold : ¬ net.Joined host := not_joined_of_stage hstage rfl
  have hjoining := joining_of_stage hstage rfl
  refine h.set hhost hold rfl nofun (fun _ => h.others hjoining) fun top hcluster hprepared => ?_
  rw [hstage] at hprepared
  have hasking : Asking names net top host (net.hosts host).node (ip :: rest) max := hprepared
  obtain ⟨id, entry, hentry, rfl⟩ :=
    (RouterNode.mem_addresses _ ip).mp (hasking.subset List.mem_cons_self)
  obtain ⟨other, hne, hjoined, -, hname⟩ := hasking.entries id entry hentry
  -- the machine that is asked knows the largest ID
  have hmax : (net.hosts other).node.machineIDMax = top :=
    (hcluster.max_eq hjoined).resolve_right (not_not_intro (hasking.quiet other))
  have heq : RouterNode.askMachineIDMax (inetNtop host) (net.reachedNode names entry.ip) entry.ip
      max = top := by
    rw [reachedNode, h.reached hjoining hne hjoined hname, Option.map_some,
      RouterNode.askMachineIDMax_some (inetNtop_ne hne hname), hmax]
    split
    next => rfl
    next hnot =>
      rw [UInt32.lt_iff_toNat_lt, Nat.not_lt] at hnot
      exact UInt32.toNat_inj.mp (Nat.le_antisymm hasking.max_le hnot)
  rw [heq]
  exact { hasking with
    subset := fun hip => hasking.subset (List.mem_cons_of_mem _ hip)
    max_le := Nat.le_refl _
    eq_or_ne := Or.inl rfl }

/-- There are fewer IDs than addresses when a machine has none. -/
theorem succ_lt_of_onto {owns : Host → Prop} {id : Host → MachineID}
    (honto : ∀ {n : Nat}, 0 < n → n ≤ top.toNat → ∃ owner, owns owner ∧ (id owner).toNat = n)
    (hzero : ¬ owns 0) (hhost : host ≠ 0) (hold : ¬ owns host) : top.toNat + 1 < 2 ^ 32 := by
  have howner (n : Nat) : ∃ owner : Host, n ∈ Finset.Icc 1 top.toNat →
      owns owner ∧ (id owner).toNat = n := by
    by_cases hn : n ∈ Finset.Icc 1 top.toNat
    · rw [Finset.mem_Icc] at hn
      obtain ⟨owner, howner⟩ := honto hn.1 hn.2
      exact ⟨owner, fun _ => howner⟩
    · exact ⟨0, fun hmem => absurd hmem hn⟩
  choose owner howner using howner
  have hmaps : Set.MapsTo (fun n => (owner n).toNat) (Finset.Icc 1 top.toNat)
      ((Finset.Icc 1 (2 ^ 32 - 1)).erase host.toNat) := by
    intro n hn
    obtain ⟨howns, -⟩ := howner n hn
    have hlt := (owner n).toNat_lt
    have hpos : (owner n).toNat ≠ 0 := by
      intro heq
      have howner : owner n = 0 := UInt32.toNat_inj.mp heq
      exact hzero (howner ▸ howns)
    have hne : (owner n).toNat ≠ host.toNat :=
      fun heq => hold (UInt32.toNat_inj.mp heq ▸ howns)
    rw [Finset.mem_coe, Finset.mem_erase, Finset.mem_Icc]
    dsimp only
    exact ⟨hne, Nat.pos_of_ne_zero hpos, Nat.le_sub_one_of_lt hlt⟩
  have hinj : Set.InjOn (fun n => (owner n).toNat) (Finset.Icc 1 top.toNat) := by
    intro m hm n hn heq
    have hsame : owner m = owner n := UInt32.toNat_inj.mp heq
    rw [← (howner m hm).2, ← (howner n hn).2, hsame]
  have hcard := Finset.card_le_card_of_injOn _ hmaps hinj
  have hmem : host.toNat ∈ Finset.Icc 1 (2 ^ 32 - 1) := by
    have hlt := host.toNat_lt
    have hpos : host.toNat ≠ 0 := fun hzero => hhost (UInt32.toNat_inj.mp hzero)
    rw [Finset.mem_Icc]
    omega
  rw [Finset.card_erase_of_mem hmem, Nat.card_Icc, Nat.card_Icc] at hcard
  omega

theorem toNat_succ (hlt : top.toNat + 1 < 2 ^ 32) : (top + 1).toNat = top.toNat + 1 := by
  rw [UInt32.toNat_add]
  exact Nat.mod_eq_of_lt hlt

theorem Meshed.take (h : net.Meshed names) {max : MachineID}
    (hstage : (net.hosts host).stage = .asking [] max) :
    (net.set host (.fetching (net.hosts host).node.addresses)
      ((net.hosts host).node.takeMachineID max)).Meshed names := by
  have hhost : host ≠ 0 := h.ne_zero hstage nofun
  have hold : ¬ net.Joined host := not_joined_of_stage hstage rfl
  have hjoining := joining_of_stage hstage rfl
  refine h.set hhost hold rfl nofun (fun _ => h.others hjoining) fun top hcluster hprepared => ?_
  rw [hstage] at hprepared
  have hasking : Asking names net top host (net.hosts host).node [] max := hprepared
  have hlt : top.toNat + 1 < 2 ^ 32 :=
    succ_lt_of_onto hcluster.onto (not_joined_of_stage hcluster.zero rfl) hhost hold
  have hnumber : (top + 1).toNat = top.toNat + 1 := toNat_succ hlt
  rw [hasking.eq_or_ne.resolve_right (not_not_intro rfl)]
  refine ⟨⟨hnumber, rfl, hasking.quiet, hasking.entries⟩, fun ip hip => ?_,
    Or.inl hasking.addresses⟩
  obtain ⟨id, entry, hentry, rfl⟩ := (RouterNode.mem_addresses _ ip).mp hip
  obtain ⟨other, hne, hjoined, rfl, hname⟩ := hasking.entries id entry hentry
  exact ⟨other, hne, hjoined, hname, Option.ne_none_iff_exists'.mpr ⟨entry, hentry⟩⟩

theorem Meshed.fetch (h : net.Meshed names) {ip : Bytes} {rest : List Bytes} {done : Bool}
    (hstage : (net.hosts host).stage = .fetching (ip :: rest))
    (hfetch : (net.hosts host).node.fetchTable (inetNtop host) (net.reachedNode names ip) =
      .ok (node, done)) :
    (net.set host (if done then .announcing else .fetching rest) node).Meshed names := by
  have hhost : host ≠ 0 := h.ne_zero hstage nofun
  have hold : ¬ net.Joined host := not_joined_of_stage hstage rfl
  have hjoining := joining_of_stage hstage rfl
  have hnew : (if done then JoinStage.announcing else .fetching rest).joined = false := by
    cases done <;> rfl
  have hdown : (if done then JoinStage.announcing else .fetching rest) ≠ .down := by
    cases done <;> exact nofun
  refine h.set hhost hold hnew hdown (fun _ => h.others hjoining) fun top hcluster hprepared => ?_
  rw [hstage] at hprepared
  obtain ⟨htaken, hrest, -⟩ := hprepared
  obtain ⟨other, hne, hjoined, hname, hknown⟩ := hrest ip List.mem_cons_self
  have hentries := hcluster.entries hjoined
  rw [reachedNode, h.reached hjoining hne hjoined hname, Option.map_some,
    RouterNode.fetchTable_eq] at hfetch
  · obtain ⟨rfl, -⟩ := Prod.mk.inj (Except.ok.inj hfetch)
    have hcomplete : net.Complete host ((net.hosts host).node.addEntries (inetNtop host)
        (net.hosts other).node.routingTable.toList).routingTable := by
      intro third hthird hjoined'
      apply RouterNode.addEntries_ne_none
      by_cases heq : third = other
      · rw [heq]
        exact Or.inl hknown
      · -- the neighbor has all other machines in its table
        have hentry := (hcluster.complete hjoined hjoined' heq).resolve_right
          (fun ⟨data, hflight⟩ => absurd (htaken.quiet other ▸ hflight) List.not_mem_nil)
        obtain ⟨entry, hentry⟩ := Option.ne_none_iff_exists'.mp hentry
        obtain ⟨owner, -, howner, -, hname'⟩ := hentries _ entry hentry
        have hne' : owner ≠ host := fun heq => hold (heq ▸ howner)
        exact Or.inr ⟨entry, Std.TreeMap.mem_toList_iff_getElem?_eq_some.mpr hentry,
          inetNtop_ne hne' hname'⟩
    have htaken' : net.Taken names top host ((net.hosts host).node.addEntries (inetNtop host)
        (net.hosts other).node.routingTable.toList) := by
      obtain ⟨hid, hmax⟩ := RouterNode.machineID_addEntries (inetNtop host)
        (net.hosts other).node.routingTable.toList (net.hosts host).node
      refine ⟨hid ▸ htaken.machineID, hmax.trans (htaken.machineIDMax.trans hid.symm), htaken.quiet,
        fun id entry hentry => ?_⟩
      rcases RouterNode.getElem?_addEntries _ _ _ hentry with hentry | ⟨entry', hmem, -, hip⟩
      · exact htaken.entries id entry hentry
      · obtain ⟨owner, -, howner, hid', hname'⟩ :=
          hentries id entry' (Std.TreeMap.mem_toList_iff_getElem?_eq_some.mp hmem)
        rw [hip]
        exact ⟨owner, fun heq => hold (heq ▸ howner), howner, hid', hname'⟩
    cases done with
    | true => exact ⟨htaken', hcomplete⟩
    | false =>
        refine ⟨htaken', fun ip' hip' => ?_, Or.inr hcomplete⟩
        obtain ⟨other', hne', hjoined', hname', hknown'⟩ := hrest ip' (List.mem_cons_of_mem _ hip')
        exact ⟨other', hne', hjoined', hname', RouterNode.addEntries_ne_none _ _ _ (Or.inl hknown')⟩
  · intro entry hmem
    obtain ⟨owner, -, -, -, hname'⟩ :=
      hentries entry.1 entry.2 (Std.TreeMap.mem_toList_iff_getElem?_eq_some.mp hmem)
    exact names.length_lt hname'

theorem Meshed.fetched (h : net.Meshed names) (hstage : (net.hosts host).stage = .fetching []) :
    (net.set host .announcing (net.hosts host).node).Meshed names := by
  have hjoining := joining_of_stage hstage rfl
  refine h.set (h.ne_zero hstage nofun) (not_joined_of_stage hstage rfl) rfl nofun
    (fun _ => h.others hjoining) fun top _ hprepared => ?_
  rw [hstage] at hprepared
  exact ⟨hprepared.1, hprepared.2.2.resolve_left (not_not_intro rfl)⟩

end RouterNet

end Doopey
