import Doopey.Foundation.Runs
import Doopey.Network.Broadcast
import Doopey.Network.TableExchange

/-!
# Neighbors

The neighbors of a machine are kept in a set of their own. `addRoutingPath` enters them
there if the distance is 1; nothing takes them out again, neither when `sendTo` erases
the entry of a machine nor when an entry is replaced by one with another distance.
-/

namespace Doopey

open Foundation

/-- What happens at a router. The machines that are reached, and what comes of a
connection, are parameters of a call. -/
inductive RouterCall
  | initTopology (list : List (Bytes × Option RouterNode))
  | initTable (reached : MachineID → Bytes → Option RouterNode)
  | updateMachineIDMax (src : MachineID) (data : Bytes)
  | sendTo (link : MachineID → Bytes → Delivery) (msg : Message) (id : MachineID)
  | broadcast (link : MachineID → Bytes → Delivery) (msg : Message)

namespace RouterNode

/-- `Router::pickNeighborMachine` -/
def pickNeighborMachine (node : RouterNode) : MachineID :=
  match node.neighbors.toList with
  | [] => 0
  | id :: _ => id

/-- `Router::initTopology` with the lines of the list of machines. -/
def initTopology (node : RouterNode) (list : List (Bytes × Option RouterNode)) : RouterNode :=
  list.foldl (fun node (ip, reached) => node.initConnectNeighbor reached ip) node

variable (localIP : Bytes) (reached : MachineID → Bytes → Option RouterNode)

/-- The loop of `Router::initTable` from an element of the table on. It is left after the
first table from which something was added. -/
def initTableLoop : List (MachineID × RoutingEntry) → RouterNode → Except Fault RouterNode
  | [], node => .ok node
  | (id, entry) :: rest, node =>
      match reached id entry.ip with
      | none => initTableLoop rest node
      | some neighbor => do
          let ack ← neighbor.routingTableACK
          let (node, done, _) ← walkTable localIP ack.data ack.data.length 0 node false
          -- a table without entries of other machines is read in vain
          if done then .ok node else initTableLoop rest node

/-- `Router::initTable` -/
def initTable (node : RouterNode) : Except Fault RouterNode :=
  if node.neighbors.isEmpty then .ok node
  else initTableLoop localIP reached node.routingTable.toList node

/-- A table has entries of other machines. -/
def offers (neighbor : RouterNode) : Bool :=
  neighbor.routingTable.toList.any fun (_, entry) => decide (localIP ≠ entry.ip)

/-- The machines of a table that are reached. -/
def answering (entries : List (MachineID × RoutingEntry)) : List RouterNode :=
  entries.filterMap fun (id, entry) => reached id entry.ip

/-- The machine whose table `initTable` takes. -/
def tableSource (node : RouterNode) : Option RouterNode :=
  if node.neighbors.isEmpty then none
  else (answering reached node.routingTable.toList).find? (offers localIP)

/-- The machines that are neighbors are those of the table that are one hop away. -/
def NeighborsMatch (node : RouterNode) : Prop :=
  ∀ id : MachineID, id ∈ node.neighbors ↔ ∃ ip, node.routingTable[id]? = some ⟨ip, 1⟩

/-- No machine that was one hop away is further away, or lost. -/
def KeepsDirect (before after : RouterNode) : Prop :=
  ∀ (id : MachineID) (ip : Bytes), before.routingTable[id]? = some ⟨ip, 1⟩ →
    ∃ entry, after.routingTable[id]? = some entry ∧ entry.d ≤ 1

/-- Any calls at a router, from the start without a table on. The sends of a broadcast that
does not come to an end are calls of `sendTo`. -/
def routing : System RouterNode RouterCall where
  init node := node.routingTable = ∅ ∧ node.neighbors = ∅
  step before call after :=
    match call with
    | .initTopology list => after = before.initTopology list
    | .initTable reached => before.initTable localIP reached = .ok after
    | .updateMachineIDMax src data => before.handleUpdateMachineIDMax src data = .ok after
    | .sendTo link msg id => after = (before.sendTo link msg id).1
    | .broadcast link msg => ∃ fuel attempts, before.broadcast link msg fuel = .ok (after, attempts)

/-- A neighbor that is sent to is connected to, and a table that is taken has neighbors of
this machine only at distance 0, which is counted up to 1. -/
def SparesNeighbors (node : RouterNode) : RouterCall → Prop
  | .sendTo link _ id =>
      id ∈ node.neighbors → ∀ entry, node.routingTable[id]? = some entry → link id entry.ip ≠ .refused
  | .initTable reached =>
      ∀ neighbor, node.tableSource localIP reached = some neighbor →
        ∀ (id : MachineID) (entry : RoutingEntry), id ∈ node.neighbors →
          neighbor.routingTable[id]? = some entry → localIP ≠ entry.ip → entry.d = 0
  | _ => True

variable {localIP reached} {node node' : RouterNode}

/-! ## The calls -/

/-- Entries of the machine itself are passed over. -/
theorem addEntries_of_local {entries : List (MachineID × RoutingEntry)}
    (hlocal : ∀ entry ∈ entries, localIP = entry.2.ip) : node.addEntries localIP entries = node := by
  induction entries with
  | nil => rfl
  | cons entry entries ih =>
      have hfirst : node.addEntries localIP (entry :: entries) = node.addEntries localIP entries := by
        rw [addEntries, List.foldl_cons]
        dsimp only
        rw [if_pos (hlocal entry List.mem_cons_self), addEntries]
      rw [hfirst]
      exact ih fun other hmem => hlocal other (List.mem_cons_of_mem _ hmem)

theorem addEntries_of_not_offers {neighbor : RouterNode} (h : neighbor.offers localIP = false) :
    node.addEntries localIP neighbor.routingTable.toList = node := by
  refine addEntries_of_local fun entry hmem => ?_
  have hnot := List.any_eq_false.mp h entry hmem
  simpa using hnot

theorem answering_cons (id : MachineID) (entry : RoutingEntry)
    (rest : List (MachineID × RoutingEntry)) :
    answering reached ((id, entry) :: rest) =
      (reached id entry.ip).toList ++ answering reached rest := by
  rw [answering, List.filterMap_cons]
  dsimp only
  cases reached id entry.ip with
  | none => rfl
  | some neighbor => rfl

theorem initTableLoop_eq {entries : List (MachineID × RoutingEntry)}
    (hrun : initTableLoop localIP reached entries node = .ok node') :
    node' = match (answering reached entries).find? (offers localIP) with
      | none => node
      | some neighbor => node.addEntries localIP neighbor.routingTable.toList := by
  induction entries with
  | nil => exact (Except.ok.inj hrun).symm
  | cons entry rest ih =>
      obtain ⟨id, entry⟩ := entry
      rw [initTableLoop] at hrun
      rw [answering_cons]
      cases hreached : reached id entry.ip with
      | none =>
          rw [hreached] at hrun
          exact ih hrun
      | some neighbor =>
          rw [hreached] at hrun
          obtain ⟨ack, hack, hrun⟩ := bind_eq_ok_iff.mp hrun
          rw [walkTable_routingTableACK hack node localIP (size_le_length_of_routingTableACK hack),
            ok_bind] at hrun
          rw [Option.toList_some, List.singleton_append, List.find?_cons]
          dsimp only at hrun
          cases hoffers : neighbor.offers localIP with
          | true =>
              rw [offers] at hoffers
              rw [hoffers, if_pos rfl] at hrun
              exact (Except.ok.inj hrun).symm
          | false =>
              rw [addEntries_of_not_offers hoffers] at hrun
              rw [offers] at hoffers
              rw [hoffers, if_neg (by simp)] at hrun
              exact ih hrun

/-- The table of one machine is taken, or none. -/
theorem initTable_eq (hrun : node.initTable localIP reached = .ok node') :
    node' = match node.tableSource localIP reached with
      | none => node
      | some neighbor => node.addEntries localIP neighbor.routingTable.toList := by
  unfold initTable at hrun
  unfold tableSource
  split at hrun
  next hempty =>
    rw [if_pos hempty]
    exact (Except.ok.inj hrun).symm
  next hempty =>
    rw [if_neg hempty]
    exact initTableLoop_eq hrun

/-- A broadcast that comes to an end has not changed the table. -/
theorem eq_of_broadcast {link : MachineID → Bytes → Delivery} {msg : Message} {fuel : Nat}
    {attempts : List (Bytes × Message)}
    (hrun : node.broadcast link msg fuel = .ok (node', attempts)) : node' = node := by
  have hall := allConnect_iff.mp (allConnect_of_broadcast hrun)
  have hmore := Extends.of_le (fun fuel => broadcastLoop_extends fuel node _)
    (Nat.le_max_left fuel node.routingTable.toList.length) _ hrun
  have heq := @broadcast_eq link node msg _ (Nat.le_max_right fuel node.routingTable.toList.length)
  rw [broadcast, hmore, if_pos hall] at heq
  exact (Prod.mk.inj (Except.ok.inj heq)).1

theorem mem_neighbors_addRoutingPath (node : RouterNode) (id : MachineID) (ip : Bytes) (d : UInt16)
    (id' : MachineID) : id' ∈ (node.addRoutingPath id ip d).neighbors ↔
      id' ∈ node.neighbors ∨ id' = id ∧ d = 1 := by
  unfold addRoutingPath
  dsimp only
  split
  next hone =>
    rw [Std.TreeSet.mem_insert, Std.LawfulEqCmp.compare_eq_iff_eq, Or.comm, @eq_comm _ id id']
    simp [hone]
  next hne => simp [hne]

/-- The neighbors of a table that is taken are those at distance 0. -/
theorem mem_neighbors_addEntries {entries : List (MachineID × RoutingEntry)} {id : MachineID} :
    id ∈ (node.addEntries localIP entries).neighbors ↔ id ∈ node.neighbors ∨
      ∃ entry, (id, entry) ∈ entries ∧ localIP ≠ entry.ip ∧ entry.d + 1 = 1 := by
  induction entries using List.reverseRecOn with
  | nil => simp [addEntries]
  | append_singleton entries last ih =>
      obtain ⟨id', entry⟩ := last
      rw [addEntries_concat]
      dsimp only
      split
      next hlocal =>
        rw [ih]
        refine or_congr_right (exists_congr fun other => ?_)
        rw [List.mem_append, List.mem_singleton, Prod.mk.injEq]
        constructor
        · rintro ⟨hmem, h⟩
          exact ⟨Or.inl hmem, h⟩
        · rintro ⟨hmem | ⟨-, rfl⟩, hip, hd⟩
          · exact ⟨hmem, hip, hd⟩
          · exact absurd hlocal hip
      next hip =>
        rw [mem_neighbors_addRoutingPath, ih, or_assoc]
        refine or_congr_right ⟨?_, ?_⟩
        · rintro (⟨other, hmem, h⟩ | ⟨rfl, hd⟩)
          · exact ⟨other, List.mem_append_left _ hmem, h⟩
          · exact ⟨entry, List.mem_append_right _ List.mem_cons_self, hip, hd⟩
        · rintro ⟨other, hmem, hother, hd⟩
          rcases List.mem_append.mp hmem with hmem | hmem
          · exact Or.inl ⟨other, hmem, hother, hd⟩
          · obtain ⟨rfl, rfl⟩ := Prod.mk.inj (List.mem_singleton.mp hmem)
            exact Or.inr ⟨rfl, hd⟩

/-! ## Neighbors and distances -/

theorem add_one_eq_one_iff {d : UInt16} : d + 1 = 1 ↔ d = 0 := by
  constructor
  · intro h
    have hsub := congrArg (· - 1) h
    simpa using hsub
  · rintro rfl
    rfl

/-- A machine that is one hop away is entered on both sides. -/
theorem NeighborsMatch.addRoutingPath (h : node.NeighborsMatch) (id : MachineID) (ip : Bytes) :
    (node.addRoutingPath id ip 1).NeighborsMatch := by
  intro id'
  rw [mem_neighbors_addRoutingPath, getElem?_addRoutingPath, h id']
  by_cases heq : id' = id
  · rw [if_pos heq]
    exact ⟨fun _ => ⟨ip, rfl⟩, fun _ => Or.inr ⟨heq, rfl⟩⟩
  · rw [if_neg heq]
    exact ⟨fun hold => hold.resolve_right fun hnew => heq hnew.1, Or.inl⟩

theorem NeighborsMatch.initTopology (h : node.NeighborsMatch)
    (list : List (Bytes × Option RouterNode)) : (node.initTopology list).NeighborsMatch := by
  induction list generalizing node with
  | nil => exact h
  | cons line list ih =>
      obtain ⟨ip, reached⟩ := line
      have hconnect : (node.initConnectNeighbor reached ip).NeighborsMatch := by
        cases reached with
        | none => exact h
        | some neighbor =>
            rw [initConnectNeighbor_some]
            exact h.addRoutingPath _ ip
      exact ih hconnect

theorem NeighborsMatch.updateMachineIDMax (h : node.NeighborsMatch) {src : MachineID} {data : Bytes}
    (hrun : node.handleUpdateMachineIDMax src data = .ok node') : node'.NeighborsMatch := by
  obtain ⟨⟨max, ip⟩, -, hrun⟩ := bind_eq_ok_iff.mp hrun
  obtain rfl := Except.ok.inj hrun
  split
  next => exact h.addRoutingPath src ip
  next => exact @NeighborsMatch.addRoutingPath { node with machineIDMax := max } h src ip

/-- The table of another machine leaves both sides alike exactly if the neighbors in it are
at distance 0. -/
theorem NeighborsMatch.addEntries_iff (h : node.NeighborsMatch) (localIP : Bytes)
    (neighbor : RouterNode) :
    (node.addEntries localIP neighbor.routingTable.toList).NeighborsMatch ↔
      ∀ (id : MachineID) (entry : RoutingEntry), id ∈ node.neighbors →
        neighbor.routingTable[id]? = some entry → localIP ≠ entry.ip → entry.d = 0 := by
  constructor
  · intro hafter id entry hmem hentry hip
    obtain ⟨ip, hget⟩ := (hafter id).mp (mem_neighbors_addEntries.mpr (Or.inl hmem))
    rw [getElem?_addEntries_toList, hentry] at hget
    dsimp only at hget
    rw [if_neg hip] at hget
    exact add_one_eq_one_iff.mp (RoutingEntry.mk.inj (Option.some.inj hget)).2
  · intro hspares id
    rw [mem_neighbors_addEntries, getElem?_addEntries_toList]
    simp only [Std.TreeMap.mem_toList_iff_getElem?_eq_some]
    cases hentry : neighbor.routingTable[id]? with
    | none => simp [h id]
    | some entry =>
        dsimp only
        split
        next hlocal => simp [h id, hlocal]
        next hip =>
          constructor
          · rintro (hmem | ⟨other, hother, -, hd⟩)
            · refine ⟨entry.ip, ?_⟩
              rw [hspares id entry hmem hentry hip]
              rfl
            · obtain rfl := Option.some.inj hother
              exact ⟨entry.ip, by rw [hd]⟩
          · rintro ⟨ip, hget⟩
            exact Or.inr ⟨entry, rfl, hip, (RoutingEntry.mk.inj (Option.some.inj hget)).2⟩

/-- The entry of a neighbor must not be erased. -/
theorem NeighborsMatch.sendTo_iff (h : node.NeighborsMatch) (link : MachineID → Bytes → Delivery)
    (msg : Message) (id : MachineID) :
    (node.sendTo link msg id).1.NeighborsMatch ↔
      (id ∈ node.neighbors → ∀ entry, node.routingTable[id]? = some entry →
        link id entry.ip ≠ .refused) := by
  cases hentry : node.routingTable[id]? with
  | none =>
      rw [sendTo, hentry]
      exact ⟨fun _ _ entry hget => absurd hget (by simp), fun _ => h⟩
  | some entry =>
      by_cases hlink : link id entry.ip = .refused
      · rw [sendTo_of_refused hentry hlink]
        constructor
        · intro hafter hmem
          obtain ⟨ip, hget⟩ := (hafter id).mp hmem
          rw [Std.TreeMap.getElem?_erase_self] at hget
          exact absurd hget (by simp)
        · intro hspares id'
          dsimp only
          by_cases heq : id' = id
          · -- the entry that is erased is that of no neighbor
            have hnot : id ∉ node.neighbors := fun hmem => hspares hmem entry rfl hlink
            rw [heq, Std.TreeMap.getElem?_erase_self]
            simp [hnot]
          · rw [Std.TreeMap.getElem?_erase, if_neg fun hcompare =>
              heq (Std.LawfulEqCmp.eq_of_compare hcompare).symm]
            exact h id'
      · obtain ⟨success, hsend⟩ := @sendTo_of_ne _ _ msg _ _ hentry hlink
        rw [hsend]
        refine ⟨fun _ _ other hother => ?_, fun _ => h⟩
        rwa [← Option.some.inj hother]

/-- The state after any call, compared with the condition on it. -/
theorem NeighborsMatch.step_iff (h : node.NeighborsMatch) {call : RouterCall}
    (hstep : (routing localIP).step node call node') :
    node'.NeighborsMatch ↔ node.SparesNeighbors localIP call := by
  cases call with
  | initTopology list =>
      obtain rfl := hstep
      exact ⟨fun _ => trivial, fun _ => h.initTopology list⟩
  | initTable reached =>
      rw [initTable_eq hstep]
      cases hsource : node.tableSource localIP reached with
      | none =>
          refine ⟨fun _ neighbor hneighbor => ?_, fun _ => h⟩
          exact absurd (hsource.symm.trans hneighbor) (by simp)
      | some neighbor =>
          dsimp only
          rw [h.addEntries_iff localIP neighbor]
          constructor
          · intro hspares other hother
            rwa [← Option.some.inj (hsource.symm.trans hother)]
          · exact fun hspares => hspares neighbor hsource
  | updateMachineIDMax src data => exact ⟨fun _ => trivial, fun _ => h.updateMachineIDMax hstep⟩
  | sendTo link msg id =>
      obtain rfl := hstep
      exact h.sendTo_iff link msg id
  | broadcast link msg =>
      obtain ⟨fuel, attempts, hrun⟩ := hstep
      rw [eq_of_broadcast hrun]
      exact ⟨fun _ => trivial, fun _ => h⟩

/-- A table that may be taken leaves the neighbors where they are. -/
theorem NeighborsMatch.keepsDirect (h : node.NeighborsMatch) {neighbor : RouterNode}
    (hspares : ∀ (id : MachineID) (entry : RoutingEntry), id ∈ node.neighbors →
      neighbor.routingTable[id]? = some entry → localIP ≠ entry.ip → entry.d = 0) :
    node.KeepsDirect (node.addEntries localIP neighbor.routingTable.toList) := by
  intro id ip hdirect
  -- a machine that is one hop away is a neighbor, and stays one
  have hmem : id ∈ node.neighbors := (h id).mpr ⟨ip, hdirect⟩
  have hafter := (h.addEntries_iff localIP neighbor).mpr hspares
  obtain ⟨ip', hget⟩ := (hafter id).mp (mem_neighbors_addEntries.mpr (Or.inl hmem))
  exact ⟨_, hget, UInt16.le_refl _⟩

/-- A neighbor is picked that is in the table. -/
theorem NeighborsMatch.pickNeighborMachine_mem (h : node.NeighborsMatch)
    (hne : node.neighbors.isEmpty = false) : node.pickNeighborMachine ∈ node.routingTable := by
  have hmem : node.pickNeighborMachine ∈ node.neighbors := by
    unfold pickNeighborMachine
    split
    next hnil =>
      rw [← Std.TreeSet.isEmpty_toList, hnil] at hne
      exact absurd hne (by simp)
    next id rest hcons => exact Std.TreeSet.mem_toList.mp (hcons ▸ List.mem_cons_self)
  obtain ⟨ip, hget⟩ := (h _).mp hmem
  rw [Std.TreeMap.mem_iff_isSome_getElem?, hget]
  rfl

/-- The neighbors match the table, as long as no call of a run concerns them. -/
theorem neighborsMatch_spared (localIP : Bytes) :
    ((routing localIP).restrict fun node call => node.SparesNeighbors localIP call).Invariant
      NeighborsMatch where
  init := by
    rintro node ⟨htable, hneighbors⟩ id
    rw [htable, hneighbors]
    simp
  step h hstep := (h.step_iff hstep.2).mpr hstep.1

/-- In a run in which no neighbor refuses a connection or is found in a table that is taken,
the neighbors match the table, and a machine that is picked is in it. The next call keeps
that, and the neighbors where they are, exactly if it meets the condition, too. -/
theorem neighbors_match {calls : List RouterCall}
    (hrun : ((routing localIP).restrict fun node call => node.SparesNeighbors localIP call).Run
      calls node) :
    node.NeighborsMatch ∧
      (node.neighbors.isEmpty = false → node.pickNeighborMachine ∈ node.routingTable) ∧
      ∀ call after, (routing localIP).step node call after →
        ((after.NeighborsMatch ∧ ∀ reached, call = .initTable reached → node.KeepsDirect after) ↔
          node.SparesNeighbors localIP call) := by
  have h := (neighborsMatch_spared localIP).run hrun
  refine ⟨h, h.pickNeighborMachine_mem, fun call after hstep => ?_⟩
  rw [h.step_iff hstep]
  refine ⟨And.left, fun hspares => ⟨hspares, ?_⟩⟩
  rintro reached rfl
  rw [initTable_eq hstep]
  cases hsource : node.tableSource localIP reached with
  | none => exact fun id ip hdirect => ⟨_, hdirect, UInt16.le_refl _⟩
  | some neighbor => exact h.keepsDirect (hspares neighbor hsource)

/-- Two machines are connected to, and the one that refuses a connection later was not
connected to in the beginning. -/
theorem neighbors_match_example : ∃ calls node, calls.length = 3 ∧
    ((routing []).restrict fun node call => node.SparesNeighbors [] call).Run calls node ∧
    node.NeighborsMatch ∧ node.pickNeighborMachine = 2 ∧ (2 : MachineID) ∈ node.routingTable := by
  have hrun : ((routing []).restrict fun node call => node.SparesNeighbors [] call).Run
      [.initTopology [([2], some (new 2))],
        .initTable fun _ _ => some ((new 2).addRoutingPath 3 [3] 1),
        .sendTo (fun _ _ => .refused) (.new .block .deleteBlock) 3]
      (sendTo (fun _ _ => .refused) (addEntries [] [(3, ⟨[3], 1⟩)] ((new 1).addRoutingPath 2 [2] 1))
        (.new .block .deleteBlock) 3).1 := by
    refine ⟨new 1, ⟨rfl, rfl⟩, .cons ⟨trivial, rfl⟩ (.cons ⟨?_, rfl⟩ (.cons ⟨?_, rfl⟩ (.nil _)))⟩
    · intro neighbor hsource id entry hmem hentry
      obtain rfl : (new 2).addRoutingPath 3 [3] 1 = neighbor := Option.some.inj hsource
      rcases (mem_neighbors_addRoutingPath (new 1) 2 [2] 1 id).mp hmem with hold | ⟨rfl, -⟩
      · exact absurd hold Std.TreeSet.not_mem_emptyc
      · rw [getElem?_addRoutingPath, if_neg (by decide)] at hentry
        exact absurd hentry (by simp [new])
    · exact fun hmem => absurd hmem (by decide)
  obtain ⟨hmatch, hpick, -⟩ := neighbors_match hrun
  exact ⟨_, _, rfl, hrun, hmatch, rfl, hpick rfl⟩

/-- The only neighbor refuses a connection, and is still picked. -/
theorem exists_lost_neighbor : ∃ calls node, (routing []).Run calls node ∧
    node.pickNeighborMachine = 2 ∧ (2 : MachineID) ∈ node.neighbors ∧
    (2 : MachineID) ∉ node.routingTable := by
  refine ⟨[.initTopology [([2], some (new 2))],
      .sendTo (fun _ _ => .refused) (.new .block .deleteBlock) 2], _,
    ⟨new 1, ⟨rfl, rfl⟩, .cons rfl (.cons rfl (.nil _))⟩, rfl, by decide, by decide⟩

/-- Two machines are connected to, and the table of the first one has the second one at
distance 1. -/
theorem exists_further_neighbor : ∃ calls node, (routing []).Run calls node ∧
    (3 : MachineID) ∈ node.neighbors ∧ node.routingTable[(3 : MachineID)]? = some ⟨[3], 2⟩ := by
  refine ⟨[.initTopology [([2], some (new 2)), ([3], some (new 3))],
      .initTable fun _ _ => some ((new 2).addRoutingPath 3 [3] 1)], _,
    ⟨new 1, ⟨rfl, rfl⟩, .cons rfl (.cons rfl (.nil _))⟩, by decide, rfl⟩

end RouterNode

end Doopey
