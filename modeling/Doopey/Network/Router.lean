import Mathlib.Data.List.Induction
import Std.Data.TreeMap
import Std.Data.TreeSet
import Doopey.Foundation.Decimal
import Doopey.Foundation.Fields
import Doopey.Block.LocationAttr

/-!
# Routing tables

The table of a machine has the addresses of the other ones by their IDs. A
machine that starts fills it from its list of machines and from the table of one
neighbor; the others learn of it from its announcement.

The handlers are functions from the state of a machine and a payload. Reading
behind the end of a payload is an access out of bounds.
-/

namespace Doopey

open Foundation

/-- `class RoutingEntry` -/
structure RoutingEntry where
  ip : Bytes
  d : UInt16
  deriving DecidableEq

/-- `class Router`, with the numbers that `class Server` keeps for it. -/
structure RouterNode where
  machineID : MachineID
  machineIDMax : MachineID
  routingTable : Std.TreeMap MachineID RoutingEntry
  neighbors : Std.TreeSet MachineID

/-- Reading bytes from the front of a payload. -/
def readFront (size : Nat) (data : Bytes) : Except Fault (Bytes × Bytes) :=
  if size ≤ data.length then .ok (data.take size, data.drop size) else .error .outOfBounds

/-- The bytes of an entry of a routing table in a message. -/
def entryBytes (id : MachineID) (entry : RoutingEntry) : Bytes :=
  machineBytes id ++ bytesOf (.ofNat entry.ip.length) ++ entry.ip ++ le 2 entry.d.toNat

/-- One round of the loop that reads a routing table: the entry, and what is left. -/
def readEntry (data : Bytes) : Except Fault ((MachineID × RoutingEntry) × Bytes) := do
  let (id, data) ← readFront 4 data
  let (len, data) ← readFront 8 data
  let (ip, data) ← readFront (ofLE len) data
  let (d, data) ← readFront 2 data
  .ok ((.ofNat (ofLE id), ⟨ip, .ofNat (ofLE d)⟩), data)

/-- The payload with an address behind an ID. -/
def addressData (id : MachineID) (ip : Bytes) : Bytes :=
  machineBytes id ++ bytesOf (.ofNat ip.length) ++ ip

/-- Reading an ID and an address. -/
def readAddress (data : Bytes) : Except Fault (MachineID × Bytes) := do
  let (id, data) ← readFront 4 data
  let (len, data) ← readFront 8 data
  let (ip, _) ← readFront (ofLE len) data
  .ok (.ofNat (ofLE id), ip)

namespace RouterNode

/-- A machine that starts with the ID of its snapshot. -/
def new (machineID : MachineID) : RouterNode := ⟨machineID, 0, ∅, ∅⟩

/-- `Router::addRoutingPath` -/
def addRoutingPath (node : RouterNode) (id : MachineID) (ip : Bytes) (d : UInt16) : RouterNode :=
  { node with
    routingTable := node.routingTable.insert id ⟨ip, d⟩
    neighbors := if d = 1 then node.neighbors.insert id else node.neighbors }

/-! ## Answering requests -/

/-- `Router::handleNeighborInit` -/
def handleNeighborInit (node : RouterNode) : Bytes := machineBytes node.machineID

/-- `Router::handleMachineIDMax` -/
def handleMachineIDMax (node : RouterNode) : Bytes := machineBytes node.machineIDMax

/-- `Router::handleUpdateMachineIDMax` of a message from `src`. -/
def handleUpdateMachineIDMax (node : RouterNode) (src : MachineID) (data : Bytes) :
    Except Fault RouterNode := do
  let (max, ip) ← readAddress data
  -- an older number is ignored, the path of its sender is not
  let node := if max ≤ node.machineIDMax then node else { node with machineIDMax := max }
  .ok (node.addRoutingPath src ip 1)

/-- `Router::handleRequestRoutingTable` -/
def handleRequestRoutingTable (node : RouterNode) : Bytes :=
  node.routingTable.toList.flatMap fun (id, entry) => entryBytes id entry

/-- `Router::handleCheckRepeatMachineID` -/
def handleCheckRepeatMachineID (node : RouterNode) (data : Bytes) : Except Fault Bytes := do
  let (req, ip) ← readAddress data
  -- an ID in use, unless it is that of a machine with the same address
  let repeated := decide (node.machineID = req) || match node.routingTable[req]? with
    | none => false
    | some entry => decide (ip ≠ entry.ip)
  .ok ((if repeated then 0 else 1) :: machineBytes node.machineIDMax)

/-! ## Starting -/

/-- Reading the ID of an answer that has nothing else. -/
def readID (data : Bytes) : Option MachineID :=
  if data.length ≠ 4 then none else some (.ofNat (ofLE data))

/-- `Router::initConnectNeighbor`, with the machine that is reached if there is one. -/
def initConnectNeighbor (node : RouterNode) (reached : Option RouterNode) (ip : Bytes) :
    RouterNode :=
  match reached.bind fun neighbor => readID neighbor.handleNeighborInit with
  | none => node
  | some id => node.addRoutingPath id ip 1

/-- The answer to the check of an old ID: whether it is free, and the largest ID. -/
def readCheck (data : Bytes) : Except Fault (Bool × MachineID) := do
  let (ans, data) ← readFront 1 data
  let (max, _) ← readFront 4 data
  .ok (ans ≠ [0], .ofNat (ofLE max))

/-- The part of `initMachineID` that asks a neighbor for an old ID. The ID is taken
up again, or another one is to be found. -/
def checkMachineID (node : RouterNode) (localIP : Bytes) (reached : Option RouterNode) :
    Except Fault (Option RouterNode) :=
  match reached with
  | none => .ok none
  | some neighbor => do
      let ack ← neighbor.handleCheckRepeatMachineID (addressData node.machineID localIP)
      let (ans, max) ← readCheck ack
      let max := if max < node.machineID then node.machineID else max
      .ok (if ans then some { node with machineIDMax := max } else none)

/-- One round of the loop of `initMachineID` that looks for the largest ID. -/
def askMachineIDMax (localIP : Bytes) (reached : Option RouterNode) (ip : Bytes)
    (max : MachineID) : MachineID :=
  if localIP = ip then max
  else match reached.bind fun neighbor => readID neighbor.handleMachineIDMax with
    | none => max
    | some id => if max < id then id else max

/-- The end of `initMachineID`: the ID behind the largest one is taken. -/
def takeMachineID (node : RouterNode) (max : MachineID) : RouterNode :=
  { node with machineID := max + 1, machineIDMax := max + 1 }

/-- The addresses in the table, by increasing IDs. -/
def addresses (node : RouterNode) : List Bytes := node.routingTable.toList.map fun (_, entry) => entry.ip

/-- `Router::initMachineID`, with the machine that is asked about the old ID, and those that are
asked for the largest one. Only the first machine has no neighbors. -/
def initMachineID (node : RouterNode) (localIP : Bytes) (checked : Option RouterNode)
    (reached : Bytes → Option RouterNode) : Except Fault RouterNode := do
  let kept ← (if node.machineID = 0 then .ok none
    else if node.neighbors.isEmpty then .ok (some { node with machineIDMax := node.machineID })
    else node.checkMachineID localIP checked)
  match kept with
  | some node => .ok node
  | none =>
      if node.neighbors.isEmpty then .ok { node with machineID := 1, machineIDMax := 1 }
      else .ok (node.takeMachineID (node.addresses.foldl
        (fun max ip => askMachineIDMax localIP (reached ip) ip max) 0))

/-- The loop of `initTable` that reads a table, and whether it has added entries. -/
def readTable (localIP : Bytes) :
    Nat → Bytes → RouterNode → Bool → Except Fault (RouterNode × Bool)
  | 0, data, node, done => if data = [] then .ok (node, done) else .error .divergence
  | fuel + 1, data, node, done =>
      if data = [] then .ok (node, done)
      else do
        let ((id, entry), rest) ← readEntry data
        if localIP = entry.ip then readTable localIP fuel rest node done
        else readTable localIP fuel rest (node.addRoutingPath id entry.ip (entry.d + 1)) true

/-- One round of the loop of `initTable`. -/
def fetchTable (node : RouterNode) (localIP : Bytes) (reached : Option RouterNode) :
    Except Fault (RouterNode × Bool) :=
  match reached with
  | none => .ok (node, false)
  | some neighbor =>
      let data := neighbor.handleRequestRoutingTable
      readTable localIP data.length data node false

/-- The payload of `Router::updateMachineIDMax`. -/
def updateData (node : RouterNode) (localIP : Bytes) : Bytes :=
  addressData node.machineIDMax localIP

end RouterNode

/-! ## Reading back what was written -/

theorem readFront_append (data rest : Bytes) :
    readFront data.length (data ++ rest) = .ok (data, rest) := by
  have hle : data.length ≤ (data ++ rest).length := by
    rw [List.length_append]
    exact Nat.le_add_right _ _
  rw [readFront, if_pos hle, List.take_left, List.drop_left]

theorem length_machineBytes (id : MachineID) : (machineBytes id).length = 4 := length_le ..

theorem ofNat_ofLE_machineBytes (id : MachineID) : UInt32.ofNat (ofLE (machineBytes id)) = id := by
  rw [machineBytes, ofLE_le_of_lt id.toNat_lt, UInt32.ofNat_toNat]

theorem readID_machineBytes (id : MachineID) : RouterNode.readID (machineBytes id) = some id := by
  rw [RouterNode.readID, if_neg (not_not_intro (length_machineBytes id)), ofNat_ofLE_machineBytes]

/-- The length in front of an address. -/
theorem ofLE_bytesOf_length {ip : Bytes} (hlength : ip.length < 2 ^ 64) :
    ofLE (bytesOf (.ofNat ip.length)) = ip.length := by
  rw [bytesOf, UInt64.toNat_ofNat', Nat.mod_eq_of_lt hlength]
  exact ofLE_le_of_lt hlength

theorem readAddress_addressData (id : MachineID) {ip : Bytes} (hlength : ip.length < 2 ^ 64) :
    readAddress (addressData id ip) = .ok (id, ip) := by
  have hid := readFront_append (machineBytes id) (bytesOf (.ofNat ip.length) ++ (ip ++ []))
  have hlen := readFront_append (bytesOf (.ofNat ip.length)) (ip ++ [])
  rw [length_machineBytes] at hid
  rw [length_bytesOf] at hlen
  rw [readAddress, addressData, ← List.append_nil (machineBytes id ++ _ ++ ip), List.append_assoc,
    List.append_assoc, hid, ok_bind]
  dsimp only
  rw [hlen, ok_bind]
  dsimp only
  rw [ofLE_bytesOf_length hlength, readFront_append, ok_bind, ofNat_ofLE_machineBytes]

theorem readEntry_entryBytes (id : MachineID) {entry : RoutingEntry}
    (hlength : entry.ip.length < 2 ^ 64) (rest : Bytes) :
    readEntry (entryBytes id entry ++ rest) = .ok ((id, entry), rest) := by
  have hid := readFront_append (machineBytes id)
    (bytesOf (.ofNat entry.ip.length) ++ (entry.ip ++ (le 2 entry.d.toNat ++ rest)))
  have hlen := readFront_append (bytesOf (.ofNat entry.ip.length))
    (entry.ip ++ (le 2 entry.d.toNat ++ rest))
  have hd := readFront_append (le 2 entry.d.toNat) rest
  rw [length_machineBytes] at hid
  rw [length_bytesOf] at hlen
  rw [length_le] at hd
  rw [readEntry, entryBytes, List.append_assoc, List.append_assoc, List.append_assoc, hid, ok_bind]
  dsimp only
  rw [hlen, ok_bind]
  dsimp only
  rw [ofLE_bytesOf_length hlength, readFront_append, ok_bind]
  dsimp only
  rw [hd, ok_bind]
  dsimp only
  rw [ofNat_ofLE_machineBytes, ofLE_le_of_lt entry.d.toNat_lt, UInt16.ofNat_toNat]

namespace RouterNode

/-- What `initTable` does with the entries of a table. -/
def addEntries (localIP : Bytes) (entries : List (MachineID × RoutingEntry)) (node : RouterNode) :
    RouterNode :=
  entries.foldl (fun node (id, entry) =>
    if localIP = entry.ip then node else node.addRoutingPath id entry.ip (entry.d + 1)) node

/-- A table that was sent is read back entry by entry. -/
theorem readTable_flatMap {localIP : Bytes} {entries : List (MachineID × RoutingEntry)}
    (hlength : ∀ entry ∈ entries, entry.2.ip.length < 2 ^ 64) {fuel : Nat}
    (hfuel : entries.length ≤ fuel) (node : RouterNode) (done : Bool) :
    readTable localIP fuel (entries.flatMap fun (id, entry) => entryBytes id entry) node done =
      .ok (node.addEntries localIP entries,
        done || entries.any fun (_, entry) => decide (localIP ≠ entry.ip)) := by
  induction entries generalizing fuel node done with
  | nil => cases fuel <;> simp [readTable, addEntries]
  | cons entry entries ih =>
      obtain ⟨id, entry⟩ := entry
      cases fuel with
      | zero => exact absurd hfuel (Nat.not_succ_le_zero _)
      | succ fuel =>
          have hne : entryBytes id entry ++
              (entries.flatMap fun (id, entry) => entryBytes id entry) ≠ [] := by
            apply List.append_ne_nil_of_left_ne_nil
            apply List.ne_nil_of_length_pos
            rw [entryBytes, List.length_append, length_le]
            omega
          have hrest := fun node done => ih (fun other hmem =>
            hlength other (List.mem_cons_of_mem _ hmem)) (Nat.le_of_succ_le_succ hfuel) node done
          rw [List.flatMap_cons, readTable]
          dsimp only
          rw [if_neg hne, readEntry_entryBytes id (hlength (id, entry) List.mem_cons_self), ok_bind]
          dsimp only
          by_cases hlocal : localIP = entry.ip
          · rw [if_pos hlocal, hrest]
            simp [addEntries, hlocal]
          · rw [if_neg hlocal, hrest]
            simp [addEntries, hlocal]

theorem length_flatMap_entryBytes (entries : List (MachineID × RoutingEntry)) :
    entries.length ≤ (entries.flatMap fun (id, entry) => entryBytes id entry).length := by
  induction entries with
  | nil => exact Nat.le_refl _
  | cons entry entries ih =>
      obtain ⟨id, entry⟩ := entry
      have hpos : 1 ≤ (entryBytes id entry).length := by
        rw [entryBytes, List.length_append, length_le]
        omega
      rw [List.flatMap_cons, List.length_cons, List.length_append, Nat.add_comm]
      exact Nat.add_le_add hpos ih

/-- The table of a neighbor is added to the own one. -/
theorem fetchTable_eq (node neighbor : RouterNode) (localIP : Bytes)
    (hlength : ∀ entry ∈ neighbor.routingTable.toList, entry.2.ip.length < 2 ^ 64) :
    node.fetchTable localIP (some neighbor) =
      .ok (node.addEntries localIP neighbor.routingTable.toList,
        neighbor.routingTable.toList.any fun (_, entry) => decide (localIP ≠ entry.ip)) := by
  have hfuel := length_flatMap_entryBytes neighbor.routingTable.toList
  rw [fetchTable]
  dsimp only
  rw [handleRequestRoutingTable, readTable_flatMap hlength hfuel, Bool.false_or]

/-- The answer to the check of an ID. -/
theorem checkMachineID_eq (node neighbor : RouterNode) {localIP : Bytes}
    (hlength : localIP.length < 2 ^ 64) :
    node.checkMachineID localIP (some neighbor) =
      .ok (if neighbor.machineID = node.machineID ∨
          (∃ entry, neighbor.routingTable[node.machineID]? = some entry ∧ localIP ≠ entry.ip) then none
        else some { node with
          machineIDMax := if neighbor.machineIDMax < node.machineID then node.machineID
            else neighbor.machineIDMax }) := by
  have hmax (b : UInt8) : readCheck (b :: machineBytes neighbor.machineIDMax) =
      .ok (decide ([b] ≠ [0]), neighbor.machineIDMax) := by
    have hfront := readFront_append [b] (machineBytes neighbor.machineIDMax ++ [])
    have hnumber := readFront_append (machineBytes neighbor.machineIDMax) []
    rw [length_machineBytes] at hnumber
    rw [List.append_nil] at hfront hnumber
    rw [readCheck]
    change (readFront [b].length ([b] ++ machineBytes neighbor.machineIDMax) >>= _) = _
    rw [hfront, ok_bind]
    dsimp only
    rw [hnumber, ok_bind, ofNat_ofLE_machineBytes]
  have hack : neighbor.handleCheckRepeatMachineID (addressData node.machineID localIP) =
      .ok ((if decide (neighbor.machineID = node.machineID) ||
          (match neighbor.routingTable[node.machineID]? with
            | none => false
            | some entry => decide (localIP ≠ entry.ip)) then 0 else 1) ::
        machineBytes neighbor.machineIDMax) := by
    rw [handleCheckRepeatMachineID, readAddress_addressData _ hlength, ok_bind]
  rw [checkMachineID]
  dsimp only
  rw [hack, ok_bind, hmax, ok_bind]
  dsimp only
  cases hentry : neighbor.routingTable[node.machineID]? with
  | none => by_cases hid : neighbor.machineID = node.machineID <;> simp [hid]
  | some entry =>
      by_cases hid : neighbor.machineID = node.machineID <;> by_cases hip : localIP = entry.ip <;>
        simp [hid, hip]

/-- A machine without neighbors keeps its ID, or is the first one. -/
theorem initMachineID_of_isEmpty {node : RouterNode} (hneighbors : node.neighbors.isEmpty = true)
    (localIP : Bytes) (checked : Option RouterNode) (reached : Bytes → Option RouterNode) :
    node.initMachineID localIP checked reached = .ok (if node.machineID = 0 then
      { node with machineID := 1, machineIDMax := 1 }
      else { node with machineIDMax := node.machineID }) := by
  unfold initMachineID
  by_cases hzero : node.machineID = 0
  · rw [if_pos hzero, if_pos hzero, ok_bind]
    dsimp only
    rw [if_pos hneighbors]
  · rw [if_neg hzero, if_pos hneighbors, if_neg hzero, ok_bind]

/-- A machine with neighbors keeps its ID, or takes the one behind the largest. -/
theorem exists_kept_of_initMachineID {node given : RouterNode}
    (hneighbors : ¬ node.neighbors.isEmpty = true) {localIP : Bytes} {checked : Option RouterNode}
    {reached : Bytes → Option RouterNode}
    (hgiven : node.initMachineID localIP checked reached = .ok given) :
    ∃ kept, (if node.machineID = 0 then .ok none else node.checkMachineID localIP checked) =
        .ok kept ∧
      given = kept.getD (node.takeMachineID (node.addresses.foldl
        (fun max ip => askMachineIDMax localIP (reached ip) ip max) 0)) := by
  obtain ⟨kept, hkept, hgiven⟩ := bind_eq_ok_iff.mp hgiven
  rw [if_neg hneighbors] at hkept
  refine ⟨kept, hkept, ?_⟩
  cases kept with
  | some node => exact (Except.ok.inj hgiven).symm
  | none =>
      dsimp only at hgiven
      rw [if_neg hneighbors] at hgiven
      exact (Except.ok.inj hgiven).symm

/-! ## Tables and their entries -/

theorem getElem?_addRoutingPath (node : RouterNode) (id : MachineID) (ip : Bytes) (d : UInt16)
    (id' : MachineID) : (node.addRoutingPath id ip d).routingTable[id']? =
      if id' = id then some ⟨ip, d⟩ else node.routingTable[id']? := by
  unfold addRoutingPath
  dsimp only
  rw [Std.TreeMap.getElem?_insert]
  by_cases heq : id' = id
  · rw [heq, if_pos Std.ReflCmp.compare_self, if_pos rfl]
  · rw [if_neg heq, if_neg]
    exact fun hcompare => heq (Std.LawfulEqCmp.eq_of_compare hcompare).symm

theorem addRoutingPath_ne_none (node : RouterNode) (id : MachineID) (ip : Bytes) (d : UInt16)
    {id' : MachineID} (h : node.routingTable[id']? ≠ none ∨ id' = id) :
    (node.addRoutingPath id ip d).routingTable[id']? ≠ none := by
  rw [getElem?_addRoutingPath]
  split
  next => exact Option.some_ne_none _
  next hne => exact h.resolve_right hne

theorem mem_addresses (node : RouterNode) (ip : Bytes) :
    ip ∈ node.addresses ↔
      ∃ (id : MachineID) (entry : RoutingEntry), node.routingTable[id]? = some entry ∧ entry.ip = ip := by
  unfold addresses
  rw [List.mem_map]
  constructor
  · rintro ⟨⟨id, entry⟩, hmem, rfl⟩
    exact ⟨id, entry, Std.TreeMap.mem_toList_iff_getElem?_eq_some.mp hmem, rfl⟩
  · rintro ⟨id, entry, hentry, rfl⟩
    exact ⟨⟨id, entry⟩, Std.TreeMap.mem_toList_iff_getElem?_eq_some.mpr hentry, rfl⟩

theorem addresses_ne_nil {node : RouterNode} {id : MachineID}
    (h : node.routingTable[id]? ≠ none) : node.addresses ≠ [] := by
  obtain ⟨entry, hentry⟩ := Option.ne_none_iff_exists'.mp h
  exact List.ne_nil_of_mem ((node.mem_addresses entry.ip).mpr ⟨id, entry, hentry, rfl⟩)

section Entries

variable (localIP : Bytes) (entries : List (MachineID × RoutingEntry)) (node : RouterNode)

theorem addEntries_concat (entry : MachineID × RoutingEntry) :
    node.addEntries localIP (entries ++ [entry]) =
      if localIP = entry.2.ip then node.addEntries localIP entries
      else (node.addEntries localIP entries).addRoutingPath entry.1 entry.2.ip (entry.2.d + 1) := by
  unfold addEntries
  rw [List.foldl_append]
  rfl

theorem machineID_addEntries : (node.addEntries localIP entries).machineID = node.machineID ∧
    (node.addEntries localIP entries).machineIDMax = node.machineIDMax := by
  induction entries using List.reverseRecOn with
  | nil => exact ⟨rfl, rfl⟩
  | append_singleton entries entry ih =>
      rw [addEntries_concat]
      split
      next => exact ih
      next => exact ih

/-- An entry of the new table is an old one or comes from the other table. -/
theorem getElem?_addEntries {id : MachineID} {entry : RoutingEntry}
    (hentry : (node.addEntries localIP entries).routingTable[id]? = some entry) :
    node.routingTable[id]? = some entry ∨
      ∃ other, (id, other) ∈ entries ∧ localIP ≠ other.ip ∧ entry.ip = other.ip := by
  induction entries using List.reverseRecOn with
  | nil => exact Or.inl hentry
  | append_singleton entries last ih =>
      have hold (h : (node.addEntries localIP entries).routingTable[id]? = some entry) :
          node.routingTable[id]? = some entry ∨ ∃ other, (id, other) ∈ entries ++ [last] ∧
            localIP ≠ other.ip ∧ entry.ip = other.ip := by
        apply (ih h).imp_right
        rintro ⟨other, hmem, hip⟩
        exact ⟨other, List.mem_append_left _ hmem, hip⟩
      rw [addEntries_concat] at hentry
      split at hentry
      next => exact hold hentry
      next hne =>
        rw [getElem?_addRoutingPath] at hentry
        split at hentry
        next heq =>
          subst heq
          obtain rfl := Option.some.inj hentry
          exact Or.inr ⟨last.2, List.mem_append_right _ (List.mem_singleton.mpr rfl), hne, rfl⟩
        next => exact hold hentry

/-- The old entries and the other table are in the new one. -/
theorem addEntries_ne_none {id : MachineID} (h : node.routingTable[id]? ≠ none ∨
      ∃ entry, (id, entry) ∈ entries ∧ localIP ≠ entry.ip) :
    (node.addEntries localIP entries).routingTable[id]? ≠ none := by
  induction entries using List.reverseRecOn with
  | nil =>
      apply h.resolve_right
      rintro ⟨entry, hmem, -⟩
      exact List.not_mem_nil hmem
  | append_singleton entries last ih =>
      have hcases : (node.routingTable[id]? ≠ none ∨
          ∃ entry, (id, entry) ∈ entries ∧ localIP ≠ entry.ip) ∨
            (id = last.1 ∧ localIP ≠ last.2.ip) := by
        rcases h with hold | ⟨entry, hmem, hip⟩
        · exact Or.inl (Or.inl hold)
        · rcases List.mem_append.mp hmem with hmem | hmem
          · exact Or.inl (Or.inr ⟨entry, hmem, hip⟩)
          · obtain rfl := List.mem_singleton.mp hmem
            exact Or.inr ⟨rfl, hip⟩
      rw [addEntries_concat]
      split
      next hlocal =>
        rcases hcases with hold | ⟨-, hip⟩
        · exact ih hold
        · exact absurd hlocal hip
      next =>
        apply addRoutingPath_ne_none
        exact hcases.imp ih And.left

end Entries

/-! ## What the requests of a machine that starts lead to -/

theorem initConnectNeighbor_none (node : RouterNode) (ip : Bytes) :
    node.initConnectNeighbor none ip = node := rfl

theorem initConnectNeighbor_some (node neighbor : RouterNode) (ip : Bytes) :
    node.initConnectNeighbor (some neighbor) ip = node.addRoutingPath neighbor.machineID ip 1 := by
  rw [initConnectNeighbor, Option.bind_some, handleNeighborInit, readID_machineBytes]

theorem askMachineIDMax_some {localIP ip : Bytes} (hip : localIP ≠ ip) (neighbor : RouterNode)
    (max : MachineID) : askMachineIDMax localIP (some neighbor) ip max =
      if max < neighbor.machineIDMax then neighbor.machineIDMax else max := by
  rw [askMachineIDMax, if_neg hip, Option.bind_some, handleMachineIDMax, readID_machineBytes]

/-- Asking a machine does not lose what is known. -/
theorem le_askMachineIDMax (localIP : Bytes) (reached : Option RouterNode) (ip : Bytes)
    (max : MachineID) : max ≤ askMachineIDMax localIP reached ip max := by
  unfold askMachineIDMax
  split
  next => exact UInt32.le_refl _
  next =>
    split
    next => exact UInt32.le_refl _
    next =>
      split
      next hlt => exact UInt32.le_of_lt hlt
      next => exact UInt32.le_refl _

theorem askMachineIDMax_le {localIP : Bytes} {reached : Option RouterNode} {ip : Bytes}
    {max top : MachineID} (hmax : max.toNat ≤ top.toNat)
    (hreached : ∀ neighbor, reached = some neighbor → neighbor.machineIDMax.toNat ≤ top.toNat) :
    (askMachineIDMax localIP reached ip max).toNat ≤ top.toNat := by
  cases hcase : reached with
  | none =>
      rw [askMachineIDMax, Option.bind_none, ite_self]
      exact hmax
  | some neighbor =>
      by_cases hip : localIP = ip
      · rw [askMachineIDMax, if_pos hip]
        exact hmax
      · rw [askMachineIDMax_some hip]
        split
        next => exact hreached neighbor hcase
        next => exact hmax

/-- The announcement of a machine. -/
theorem handleUpdateMachineIDMax_addressData (node : RouterNode) (src max : MachineID) {ip : Bytes}
    (hlength : ip.length < 2 ^ 64) :
    node.handleUpdateMachineIDMax src (addressData max ip) =
      .ok ({ node with
        machineIDMax := if max ≤ node.machineIDMax then node.machineIDMax else max
        }.addRoutingPath src ip 1) := by
  rw [handleUpdateMachineIDMax, readAddress_addressData _ hlength, ok_bind]
  dsimp only
  split
  next => rfl
  next => rfl

end RouterNode

end Doopey
