import Doopey.Common.Message
import Doopey.Foundation.MapCursor
import Doopey.Network.Router

/-!
# Broadcasts

`broadcast` walks through the routing table and sends to one machine after the
other. `sendTo` erases the entry of a machine that cannot be connected to, and with
it the position of the walk.

What comes of the connection to a machine is a parameter.
-/

namespace Doopey

open Foundation

/-- What comes of sending a message to a machine. -/
inductive Delivery
  /-- `connect` fails. -/
  | refused
  /-- `send` fails. -/
  | broken
  | sent
  deriving DecidableEq

namespace RouterNode

variable (link : MachineID → Bytes → Delivery) (node : RouterNode) (msg : Message)

/-- The message to a machine of the table, and the address that it goes to. -/
def addressed (id : MachineID) (entry : RoutingEntry) : Bytes × Message :=
  (entry.ip, { msg with src := node.machineID, dest := id })

/-- `Router::sendTo`: the new state, what was to be sent where, and whether a socket
is returned. -/
def sendTo (id : MachineID) : RouterNode × Option (Bytes × Message) × Bool :=
  match node.routingTable[id]? with
  | none => (node, none, false)
  | some entry =>
      match link id entry.ip with
      | .refused => ({ node with routingTable := node.routingTable.erase id },
          some (node.addressed msg id entry), false)
      | .broken => (node, some (node.addressed msg id entry), false)
      | .sent => (node, some (node.addressed msg id entry), true)

/-- The loop of `Router::broadcast` from the iterator `it` on. Without an element it
is at the end, and an iterator whose element was erased cannot be advanced. -/
def broadcastLoop : Nat → RouterNode → Option MachineID →
    Except Fault (RouterNode × List (Bytes × Message))
  | _, node, none => .ok (node, [])
  | 0, _, some _ => .error .divergence
  | fuel + 1, node, some id =>
      let (node, attempt, _) := node.sendTo link msg id
      match advance node.routingTable id with
      | none => .error .badPointer
      | some it => do
          let (node, attempts) ← broadcastLoop fuel node it
          .ok (node, attempt.toList ++ attempts)

/-- `Router::broadcast` -/
def broadcast (fuel : Nat) : Except Fault (RouterNode × List (Bytes × Message)) :=
  broadcastLoop link msg fuel node (firstKey node.routingTable)

/-- Every machine of the table was tried once, and those that could not be connected
to are no longer in it. -/
structure Reached (node' : RouterNode) (attempts : List (Bytes × Message)) : Prop where
  attempts : attempts = node.routingTable.toList.map fun (id, entry) => node.addressed msg id entry
  table (id : MachineID) : node'.routingTable[id]? =
    node.routingTable[id]?.filter fun entry => link id entry.ip ≠ .refused

/-- Every machine of the table can be connected to. -/
def AllConnect : Prop :=
  ∀ (id : MachineID) (entry : RoutingEntry), node.routingTable[id]? = some entry →
    link id entry.ip ≠ .refused

variable {link node msg}

theorem sendTo_of_refused {id : MachineID} {entry : RoutingEntry}
    (hentry : node.routingTable[id]? = some entry) (hlink : link id entry.ip = .refused) :
    node.sendTo link msg id = ({ node with routingTable := node.routingTable.erase id },
      some (node.addressed msg id entry), false) := by
  rw [sendTo, hentry]
  dsimp only
  rw [hlink]

/-- A send that fails leaves the table as it is. -/
theorem sendTo_of_ne {id : MachineID} {entry : RoutingEntry}
    (hentry : node.routingTable[id]? = some entry) (hlink : link id entry.ip ≠ .refused) :
    ∃ success, node.sendTo link msg id = (node, some (node.addressed msg id entry), success) := by
  rw [sendTo, hentry]
  dsimp only
  cases hcase : link id entry.ip with
  | refused => exact absurd hcase hlink
  | broken => exact ⟨false, rfl⟩
  | sent => exact ⟨true, rfl⟩

/-- The walk over the rest of the table. -/
theorem broadcastLoop_eq {passed left : List (MachineID × RoutingEntry)}
    (htable : node.routingTable.toList = passed ++ left) {fuel : Nat} (hfuel : left.length ≤ fuel) :
    broadcastLoop link msg fuel node (left.map Prod.fst).head? =
      if ∀ entry ∈ left, link entry.1 entry.2.ip ≠ .refused then
        .ok (node, left.map fun (id, entry) => node.addressed msg id entry)
      else .error .badPointer := by
  induction left generalizing passed fuel with
  | nil =>
      cases fuel with
      | zero => rfl
      | succ fuel => rfl
  | cons first left ih =>
      obtain ⟨id, entry⟩ := first
      cases fuel with
      | zero => exact absurd hfuel (Nat.not_succ_le_zero _)
      | succ fuel =>
          have hentry : node.routingTable[id]? = some entry := by
            apply Std.TreeMap.mem_toList_iff_getElem?_eq_some.mp
            rw [htable]
            exact List.mem_append_right _ List.mem_cons_self
          have hkeys : node.routingTable.keys =
              passed.map Prod.fst ++ id :: left.map Prod.fst := by
            rw [← Std.TreeMap.map_fst_toList_eq_keys, htable, List.map_append, List.map_cons]
          rw [List.map_cons, List.head?_cons, broadcastLoop]
          by_cases hlink : link id entry.ip = .refused
          · have hnot : ¬ ∀ other ∈ (id, entry) :: left, link other.1 other.2.ip ≠ .refused :=
              fun hall => hall _ List.mem_cons_self hlink
            -- the entry that the iterator is at has been erased
            dsimp only
            rw [sendTo_of_refused hentry hlink, if_neg hnot]
            dsimp only
            rw [advance_erase]
          · -- the table is as it was, and the walk goes on with the next of its keys
            obtain ⟨success, hsend⟩ := @sendTo_of_ne _ _ msg _ _ hentry hlink
            have hrest := @ih (passed ++ [(id, entry)]) (by rw [htable, List.append_assoc]; rfl) fuel
              (Nat.le_of_succ_le_succ hfuel)
            dsimp only
            rw [hsend]
            dsimp only
            rw [advance_eq hkeys]
            dsimp only
            rw [hrest]
            have hiff : (∀ other ∈ (id, entry) :: left, link other.1 other.2.ip ≠ .refused) ↔
                ∀ other ∈ left, link other.1 other.2.ip ≠ .refused := by
              simp [hlink]
            by_cases hall : ∀ other ∈ left, link other.1 other.2.ip ≠ .refused
            · rw [if_pos hall, if_pos (hiff.mpr hall)]
              rfl
            · rw [if_neg hall, if_neg (mt hiff.mp hall)]
              rfl

theorem broadcastLoop_extends (fuel : Nat) (node : RouterNode) (it : Option MachineID) :
    Extends (broadcastLoop link msg fuel node it) (broadcastLoop link msg (fuel + 1) node it) := by
  induction fuel generalizing node it with
  | zero =>
      cases it with
      | none => exact .refl _
      | some id => exact .of_error _ _
  | succ fuel ih =>
      cases it with
      | none => exact .refl _
      | some id =>
          rw [broadcastLoop, broadcastLoop]
          dsimp only
          cases advance (node.sendTo link msg id).1.routingTable id with
          | none => exact .refl _
          | some it => exact .bind (ih _ _) fun _ => .refl _

theorem allConnect_iff : node.AllConnect link ↔
    ∀ entry ∈ node.routingTable.toList, link entry.1 entry.2.ip ≠ .refused := by
  constructor
  · intro hall entry hmem
    exact hall entry.1 entry.2 (Std.TreeMap.mem_toList_iff_getElem?_eq_some.mp hmem)
  · intro hall id entry hentry
    exact hall (id, entry) (Std.TreeMap.mem_toList_iff_getElem?_eq_some.mpr hentry)

/-- With a step for every machine of the table, the walk comes to an end. -/
theorem broadcast_eq {fuel : Nat} (hfuel : node.routingTable.toList.length ≤ fuel) :
    node.broadcast link msg fuel =
      if ∀ entry ∈ node.routingTable.toList, link entry.1 entry.2.ip ≠ .refused then
        .ok (node, node.routingTable.toList.map fun (id, entry) => node.addressed msg id entry)
      else .error .badPointer := by
  have hloop := @broadcastLoop_eq link node msg [] node.routingTable.toList rfl fuel hfuel
  rwa [Std.TreeMap.map_fst_toList_eq_keys] at hloop

/-- No broadcast ends that comes to a machine that cannot be connected to. -/
theorem allConnect_of_broadcast {fuel : Nat} {result : RouterNode × List (Bytes × Message)}
    (hrun : node.broadcast link msg fuel = .ok result) : node.AllConnect link := by
  have hmore := Extends.of_le (fun fuel => broadcastLoop_extends fuel node _)
    (Nat.le_max_left fuel node.routingTable.toList.length) _ hrun
  have heq := @broadcast_eq link node msg _ (Nat.le_max_right fuel node.routingTable.toList.length)
  rw [broadcast, hmore] at heq
  by_contra hnot
  rw [if_neg (mt allConnect_iff.mpr hnot)] at heq
  exact absurd heq (by simp)

/-- A broadcast ends, having tried every machine and forgotten those that could not be
connected to, exactly if every machine can be connected to. -/
theorem broadcast_iff (link : MachineID → Bytes → Delivery) (node : RouterNode) (msg : Message) :
    (∃ fuel node' attempts, node.broadcast link msg fuel = .ok (node', attempts) ∧
      node.Reached link msg node' attempts) ↔ node.AllConnect link := by
  constructor
  · rintro ⟨fuel, node', attempts, hrun, -⟩
    exact allConnect_of_broadcast hrun
  · intro hall
    have hrun := @broadcast_eq link node msg _ (Nat.le_refl _)
    rw [if_pos (allConnect_iff.mp hall)] at hrun
    refine ⟨_, node, _, hrun, rfl, ?_⟩
    intro id
    cases hentry : node.routingTable[id]? with
    | none => rfl
    | some entry => rw [Option.filter_some, if_pos (decide_eq_true (hall id entry hentry))]

/-- One machine that does not answer. -/
theorem not_forall_broadcast : ¬ ∀ (link : MachineID → Bytes → Delivery) (node : RouterNode)
    (msg : Message), ∃ fuel node' attempts, node.broadcast link msg fuel = .ok (node', attempts) ∧
      node.Reached link msg node' attempts := by
  intro hall
  obtain ⟨fuel, node', attempts, hrun, -⟩ := hall (fun _ _ => .refused)
    ((new 1).addRoutingPath 2 (ascii "10.0.0.2") 1) (.new .block .deleteBlock)
  have hentry : ((new 1).addRoutingPath 2 (ascii "10.0.0.2") 1).routingTable[(2 : MachineID)]? =
      some ⟨ascii "10.0.0.2", 1⟩ := by
    rw [getElem?_addRoutingPath, if_pos rfl]
  exact allConnect_of_broadcast hrun 2 _ hentry rfl

end RouterNode

end Doopey
