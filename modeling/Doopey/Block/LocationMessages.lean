import Doopey.Block.OrderedLists
import Doopey.Network.TableExchange

/-!
# Messages with location lists

Four functions write the ID of a block and a list of machines into a message, three handlers
read them, each with an offset of its own and until that is behind the end of the data. Two of
the handlers add the machines one by one to a list that is sorted and bounded all the time.

The handlers below are those of `BlockNode` with the offsets at which they stop.
-/

namespace Doopey

open Foundation

namespace LocationMessage

/-- The loop that writes machines, with the offset of the next one. -/
def writeMachines : List MachineID → UInt64 → Message → Except Fault Message
  | [], _, msg => .ok msg
  | m :: rest, off, msg => do
      let msg ← msg.addDataAt (machineBytes m) off
      writeMachines rest (off + 4) msg

/-- The ID of a block and a list of machines are written into a new message. -/
def writeLocation (cmd : MessageCmd) (id : BlockID) (machines : List MachineID) :
    Except Fault Message := do
  let msg ← (Message.new .block cmd).addDataAt (bytesOf id) 0
  writeMachines machines 8 msg

/-- The message of `BlockUpdater::updateRemoteBlockInfo` -/
def updateRemoteBlockInfo (attr : BlockLocationAttr) : Except Fault Message :=
  writeLocation .updateReplica attr.block attr.machine

/-- The request of `BlockResolver::checkReplica`, with the machines that it has left. -/
def checkReplica (attr : BlockLocationAttr) : Except Fault Message :=
  writeLocation .doReplica attr.block attr.machine

/-- The request of `BlockResolver::checkAllReplica`, which the machine handles itself. -/
def checkAllReplica (attr : BlockLocationAttr) : Except Fault Message :=
  writeLocation .doReplica attr.block attr.machine

/-- The answer of `BlockResolver::handleRequestBlockLocation` -/
def handleRequestBlockLocation (node : BlockNode) (id : BlockID) : Except Fault Message :=
  match node.localIDs[id]? with
  | none => .ok (.new .block .requestBlockLocationACK)
  | some attr => writeLocation .requestBlockLocationACK id (node.attrs attr).machine

/-- The loop that reads machines while the offset is in front of the end of the data, with what
is done for each of them. The result has the offset behind the loop. -/
def readLoop {σ : Type} (add : σ → MachineID → σ) (data : Bytes) :
    Nat → UInt64 → σ → Except Fault (σ × UInt64)
  | 0, off, state =>
      if off < .ofNat data.length then .error .divergence else .ok (state, off)
  | fuel + 1, off, state =>
      if off < .ofNat data.length then do
        let mid ← copyAt data off 4
        readLoop add data fuel (off + 4) (add state (.ofNat (ofLE mid)))
      else .ok (state, off)

/-- The list of an entry is replaced. -/
def setList (node : BlockNode) (mids : List MachineID) : Option Nat → BlockNode
  | none => node
  | some attr => node.modify attr fun attr => { attr with machine := mids }

/-- `BlockResolver::handleUpdateReplica` -/
def handleUpdateReplica (node : BlockNode) (data : Bytes) : Except Fault (BlockNode × UInt64) := do
  let id ← copyAt data 0 8
  let id := UInt64.ofNat (ofLE id)
  let (mids, off) ← readLoop (fun mids mid => mids ++ [mid]) data data.length 8 []
  let node := setList node mids node.localIDs[id]?
  .ok (setList node mids node.remoteIDs[id]?, off)

variable (blockReplica : UInt64)

/-- Add a machine to a list in its place. -/
def addTo (attr : Nat) (node : BlockNode) (m : MachineID) : BlockNode :=
  node.modify attr (·.addMachine blockReplica m)

/-- `BlockManager::handleDoReplica` up to the point where it waits for the first copy. There is
an offset if it comes to the list. -/
def handleDoReplica (pick : List MachineID → UInt64 → List MachineID) (node : BlockNode)
    (data : Bytes) : Except Fault (BlockNode × Option UInt64) := do
  let id ← copyAt data 0 8
  let id := UInt64.ofNat (ofLE id)
  match node.askBlockDetail id with
  | none => .ok (node, none)
  | some attr =>
      if (node.attrs attr).state ≠ .available then .ok (node, none)
      else do
        let node := node.modify attr fun attr => { attr with machine := [] }
        let (node, off) ← readLoop (addTo blockReplica attr) data data.length 8 node
        let machine := (node.attrs attr).machine
        let candidate := pick machine (blockReplica - .ofNat machine.length)
        .ok ({ node with replicas := ⟨id, attr, candidate, false⟩ :: node.replicas }, some off)

/-- The entry that `handleRequestBlockLocationACK` adds to, with its first machine. -/
def enterFirst (node : BlockNode) (id : BlockID) (m : MachineID) : BlockNode × Nat :=
  match node.remoteIDs[id]? with
  | some attr => (addTo blockReplica attr node m, attr)
  | none =>
      let node := if remoteSizeMax ≤ node.remoteIDs.size then node.cleanCache else node
      (node.forceAddRemoteID blockReplica m id, node.brk)

/-- `BlockResolver::handleRequestBlockLocationACK`. There is an offset if there is a list. -/
def handleRequestBlockLocationACK (node : BlockNode) (data : Bytes) :
    Except Fault (BlockNode × Option UInt64) :=
  if data = [] then .ok (node, none)
  else do
    let id ← copyAt data 0 8
    let m ← copyAt data 8 4
    let (node, attr) := enterFirst blockReplica node (.ofNat (ofLE id)) (.ofNat (ofLE m))
    let (node, off) ← readLoop (addTo blockReplica attr) data data.length 12 node
    .ok (node, some off)

/-! ## Writing -/

theorem length_flatMap_machineBytes (machines : List MachineID) :
    (machines.flatMap machineBytes).length = 4 * machines.length := by
  induction machines with
  | nil => rfl
  | cons m machines ih =>
      rw [List.flatMap_cons, List.length_append, length_machineBytes, ih, List.length_cons]
      omega

theorem length_locationData (id : BlockID) (machines : List MachineID) :
    (locationData id machines).length = 8 + 4 * machines.length := by
  rw [locationData, List.length_append, length_bytesOf, length_flatMap_machineBytes]

/-- Each machine is written at the end of the data so far. -/
theorem writeMachines_eq {machines : List MachineID} {off : UInt64} {msg : Message}
    (hoff : off = .ofNat msg.data.length)
    (hend : msg.data.length + 4 * machines.length < Socket.maxVector) :
    writeMachines machines off msg = .ok (msg.addData (machines.flatMap machineBytes)) := by
  induction machines generalizing off msg with
  | nil => simp [writeMachines, Message.addData]
  | cons m machines ih =>
      rw [List.length_cons] at hend
      have hlength := length_addData msg (machineBytes m)
      rw [length_machineBytes] at hlength
      have hnext := @off_add msg (machineBytes m) off 4 hoff (by rw [length_machineBytes]; rfl)
      have hwrite : msg.addDataAt (machineBytes m) off = .ok (msg.addData (machineBytes m)) := by
        rw [hoff]
        exact Message.addDataAt_length (by rw [length_machineBytes]; omega)
      rw [writeMachines, hwrite, ok_bind, ih hnext (by omega), addData_addData, List.flatMap_cons]

theorem writeLocation_eq (cmd : MessageCmd) (id : BlockID) {machines : List MachineID}
    (hend : 8 + 4 * machines.length < Socket.maxVector) :
    writeLocation cmd id machines =
      .ok ((Message.new .block cmd).addData (locationData id machines)) := by
  have hwrite : (Message.new .block cmd).addDataAt (bytesOf id) 0 =
      .ok ((Message.new .block cmd).addData (bytesOf id)) :=
    Message.addDataAt_length (by
      rw [length_bytesOf]
      exact (by decide : 0 + 8 < Socket.maxVector))
  have hlength := length_addData (Message.new .block cmd) (bytesOf id)
  rw [length_bytesOf, show (Message.new .block cmd).data.length = 0 from rfl] at hlength
  rw [writeLocation, hwrite, ok_bind, writeMachines_eq (by rw [hlength]; rfl) (by omega),
    addData_addData, locationData]

/-! ## Reading -/

section Reading

variable {data : Bytes} {off : UInt64}

/-- Four bytes in front are a machine. -/
theorem readMachines_of_le (hlong : 4 ≤ data.length) : readMachines data =
    (readMachines (data.drop 4)).map (.ofNat (ofLE (data.take 4)) :: ·) := by
  match data with
  | b₀ :: b₁ :: b₂ :: b₃ :: rest =>
      change (do
        let machines ← readMachines rest
        Except.ok (UInt32.ofNat (ofLE [b₀, b₁, b₂, b₃]) :: machines)) = _
      cases h : readMachines rest with
      | error fault => simp [h, bind, Except.bind, Except.map]
      | ok machines => simp [h, bind, Except.bind, Except.map]

/-- A rest of less than four bytes is not read. -/
theorem readMachines_of_lt (hne : data ≠ []) (hshort : data.length < 4) :
    readMachines data = .error .outOfBounds := by
  match data with
  | [] => exact absurd rfl hne
  | [_] => rfl
  | [_, _] => rfl
  | [_, _, _] => rfl
  | b₀ :: b₁ :: b₂ :: b₃ :: rest => simp at hshort; omega

/-- The first machine of a list is in front. -/
theorem readMachines_eq_cons {m : MachineID} {rest : List MachineID}
    (hread : readMachines data = .ok (m :: rest)) :
    4 ≤ data.length ∧ UInt32.ofNat (ofLE (data.take 4)) = m ∧
      readMachines (data.drop 4) = .ok rest := by
  have hlong : 4 ≤ data.length := by
    by_contra hshort
    have hne : data ≠ [] := by
      rintro rfl
      exact absurd (Except.ok.inj hread) (List.cons_ne_nil m rest).symm
    rw [readMachines_of_lt hne (Nat.lt_of_not_le hshort)] at hread
    exact absurd hread (by simp)
  rw [readMachines_of_le hlong] at hread
  cases hdrop : readMachines (data.drop 4) with
  | error fault =>
      rw [hdrop] at hread
      exact absurd hread (by simp [Except.map])
  | ok machines =>
      rw [hdrop] at hread
      obtain ⟨hfirst, hrest⟩ := List.cons.inj (Except.ok.inj hread)
      exact ⟨hlong, hfirst, congrArg _ hrest⟩

/-- The loop reads the machines behind the offset, and stops at the end of the data. -/
theorem readLoop_eq {σ : Type} (add : σ → MachineID → σ) {fuel : Nat} {state : σ}
    (hsize : data.length < 2 ^ 64) (hoff : off.toNat ≤ data.length)
    (hfuel : data.length ≤ off.toNat + fuel) :
    readLoop add data fuel off state = (readMachines (data.drop off.toNat)).map
      fun machines => (machines.foldl add state, .ofNat data.length) := by
  have hlt (off : UInt64) : off < .ofNat data.length ↔ off.toNat < data.length := by
    rw [UInt64.lt_iff_toNat_lt, UInt64.toNat_ofNat', Nat.mod_eq_of_lt hsize]
  have hend (state : σ) {off : UInt64} (hoff : off.toNat = data.length) :
      (readMachines (data.drop off.toNat)).map
        (fun machines => (machines.foldl add state, UInt64.ofNat data.length)) = .ok (state, off) := by
    rw [hoff, List.drop_length, ← hoff, UInt64.ofNat_toNat]
    rfl
  induction fuel generalizing off state with
  | zero =>
      have hdone : off.toNat = data.length := by omega
      rw [readLoop, if_neg (by rw [hlt]; omega), hend state hdone]
  | succ fuel ih =>
      rw [readLoop]
      by_cases hmore : off.toNat < data.length
      · have hdrop : (data.drop off.toNat).length = data.length - off.toNat := List.length_drop
        rw [if_pos ((hlt off).mpr hmore), copyAt]
        by_cases hfits : off.toNat + 4 ≤ data.length
        · have hnext : (off + 4).toNat = off.toNat + 4 := by
            rw [UInt64.toNat_add]
            exact Nat.mod_eq_of_lt (Nat.lt_of_le_of_lt hfits hsize)
          have hfirst := readMachines_of_le (by omega : 4 ≤ (data.drop off.toNat).length)
          rw [List.drop_drop] at hfirst
          rw [if_pos hfits, ok_bind, ih (by omega) (by omega), hnext, hfirst, part]
          cases readMachines (data.drop (off.toNat + 4)) <;> rfl
        · have hne : data.drop off.toNat ≠ [] := List.ne_nil_of_length_pos (by omega)
          rw [if_neg hfits, readMachines_of_lt hne (by omega)]
          rfl
      · have hdone : off.toNat = data.length := by omega
        rw [if_neg (by rw [hlt]; omega), hend state hdone]

end Reading

/-! ## The handlers -/

section Handlers

variable {blockReplica : UInt64} {node node' : BlockNode} {data : Bytes} {id : BlockID}
  {machines : List MachineID}

theorem foldl_addTo (attr : Nat) (node : BlockNode) (machines : List MachineID) :
    machines.foldl (addTo blockReplica attr) node =
      node.modify attr (·.addMachines blockReplica machines) := by
  induction machines generalizing node with
  | nil =>
      unfold BlockNode.modify BlockLocationAttr.addMachines
      dsimp only [List.foldl_nil]
      rw [Function.update_eq_self]
  | cons m machines ih =>
      rw [List.foldl_cons, ih, addTo]
      unfold BlockNode.modify BlockLocationAttr.addMachines
      dsimp only [List.foldl_cons]
      rw [Function.update_idem, Function.update_self]

theorem foldl_append_singleton (front machines : List MachineID) :
    machines.foldl (fun mids mid => mids ++ [mid]) front = front ++ machines := by
  induction machines generalizing front with
  | nil => exact (List.append_nil front).symm
  | cons m machines ih => rw [List.foldl_cons, ih, List.append_assoc, List.singleton_append]

/-- The ID and the machines of a payload, read one after the other. -/
theorem readLocation_eq_ok_iff : readLocation data = .ok (id, machines) ↔
    readUInt64 data 0 = .ok id ∧ readMachines (data.drop 8) = .ok machines := by
  rw [readLocation]
  cases readUInt64 data 0 with
  | error fault => simp [bind, Except.bind]
  | ok other =>
      rw [ok_bind]
      cases readMachines (data.drop 8) with
      | error fault => simp [bind, Except.bind]
      | ok others => simp [bind, Except.bind]

theorem copyAt_of_readLocation (hread : readLocation data = .ok (id, machines)) :
    8 ≤ data.length ∧ copyAt data 0 8 = .ok (bytesOf id) := by
  obtain ⟨hinside, hpart⟩ := readUInt64_eq_ok_iff.mp (readLocation_eq_ok_iff.mp hread).1
  refine ⟨hinside, ?_⟩
  rw [← hpart]
  exact if_pos hinside

/-- The loop behind the ID reads the machines of the location. -/
theorem readLoop_of_readLocation {σ : Type} (add : σ → MachineID → σ) (state : σ)
    (hsize : data.length < 2 ^ 64) (hread : readLocation data = .ok (id, machines)) :
    readLoop add data data.length 8 state =
      .ok (machines.foldl add state, .ofNat data.length) := by
  have hloop := @readLoop_eq data 8 σ add data.length state hsize
    (copyAt_of_readLocation hread).1 (Nat.le_add_left _ _)
  rw [show (8 : UInt64).toNat = 8 from rfl, (readLocation_eq_ok_iff.mp hread).2] at hloop
  exact hloop

@[simp] theorem remoteIDs_setList (node : BlockNode) (mids : List MachineID) (attr : Option Nat) :
    (setList node mids attr).remoteIDs = node.remoteIDs := by
  cases attr <;> rfl

theorem handleUpdateReplica_eq (hsize : data.length < 2 ^ 64)
    (hread : readLocation data = .ok (id, machines)) : handleUpdateReplica node data =
      .ok (setList (setList node machines node.localIDs[id]?) machines node.remoteIDs[id]?,
        .ofNat data.length) := by
  rw [handleUpdateReplica, (copyAt_of_readLocation hread).2, ok_bind, ofNat_ofLE_bytesOf]
  dsimp only
  rw [readLoop_of_readLocation _ _ hsize hread, ok_bind, foldl_append_singleton, List.nil_append]
  dsimp only
  rw [remoteIDs_setList]

/-- The offsets do not matter for what becomes of the entries. -/
theorem fst_handleUpdateReplica (hsize : data.length < 2 ^ 64)
    (hread : readLocation data = .ok (id, machines)) :
    (handleUpdateReplica node data).map Prod.fst = node.handleUpdateReplica data := by
  rw [handleUpdateReplica_eq hsize hread, BlockNode.handleUpdateReplica, hread, ok_bind]
  dsimp only
  cases node.localIDs[id]? with
  | none => cases node.remoteIDs[id]? <;> rfl
  | some attr => cases node.remoteIDs[id]? <;> rfl

section DoReplica

variable {pick : List MachineID → UInt64 → List MachineID} {attr : Nat}

/-- The list of an entry is rebuilt, and the candidates are picked for it. -/
theorem node_handleDoReplica (hread : readLocation data = .ok (id, machines))
    (hattr : node.askBlockDetail id = some attr) (hstate : (node.attrs attr).state = .available) :
    let rebuilt := { node.attrs attr with machine := [] }.addMachines blockReplica machines
    node.handleDoReplica blockReplica pick data =
      .ok { node.modify attr (fun _ => rebuilt) with
        replicas := ⟨id, attr, pick rebuilt.machine (blockReplica - .ofNat rebuilt.machine.length),
          false⟩ :: node.replicas } := by
  rw [BlockNode.handleDoReplica, hread, ok_bind]
  dsimp only
  rw [hattr]
  dsimp only
  rw [if_neg (not_not_intro hstate)]
  unfold BlockNode.modify
  dsimp only
  rw [Function.update_self]

theorem handleDoReplica_eq (hsize : data.length < 2 ^ 64)
    (hread : readLocation data = .ok (id, machines))
    (hattr : node.askBlockDetail id = some attr) (hstate : (node.attrs attr).state = .available) :
    handleDoReplica blockReplica pick node data = (node.handleDoReplica blockReplica pick data).map
      fun node => (node, some (.ofNat data.length)) := by
  have hrebuild : (node.modify attr fun attr => { attr with machine := [] }).modify attr
      (·.addMachines blockReplica machines) =
        node.modify attr fun attr =>
          { attr with machine := [] }.addMachines blockReplica machines := by
    unfold BlockNode.modify
    dsimp only
    rw [Function.update_idem, Function.update_self]
  rw [handleDoReplica, (copyAt_of_readLocation hread).2, ok_bind, ofNat_ofLE_bytesOf,
    BlockNode.handleDoReplica, hread, ok_bind]
  dsimp only
  rw [hattr]
  dsimp only
  rw [if_neg (not_not_intro hstate), if_neg (not_not_intro hstate),
    readLoop_of_readLocation _ _ hsize hread, ok_bind, foldl_addTo, hrebuild]
  rfl

end DoReplica

theorem handleRequestBlockLocationACK_eq {m : MachineID} {rest : List MachineID}
    (hsize : data.length < 2 ^ 64) (hread : readLocation data = .ok (id, m :: rest)) :
    handleRequestBlockLocationACK blockReplica node data =
      (node.handleRequestBlockLocationACK blockReplica data).map
        fun node => (node, some (.ofNat data.length)) := by
  obtain ⟨hlong, hfirst, hrest⟩ := readMachines_eq_cons (readLocation_eq_ok_iff.mp hread).2
  rw [List.length_drop] at hlong
  rw [List.drop_drop] at hrest
  have hne : data ≠ [] := List.ne_nil_of_length_pos (by omega)
  have hcopy : copyAt data 8 4 = .ok ((data.drop 8).take 4) :=
    if_pos (by change 8 + 4 ≤ data.length; omega)
  have hloop {state : BlockNode} {attr : Nat} :
      readLoop (addTo blockReplica attr) data data.length 12 state =
        .ok (state.modify attr (·.addMachines blockReplica rest), .ofNat data.length) := by
    rw [readLoop_eq _ hsize (by change 12 ≤ data.length; omega) (Nat.le_add_left _ _),
      show (12 : UInt64).toNat = 8 + 4 from rfl, hrest, Except.map, foldl_addTo]
  rw [handleRequestBlockLocationACK, if_neg hne, (copyAt_of_readLocation hread).2, ok_bind, hcopy,
    ok_bind, ofNat_ofLE_bytesOf, hfirst, BlockNode.handleRequestBlockLocationACK, if_neg hne, hread,
    ok_bind]
  dsimp only
  rw [hloop, ok_bind]
  cases hremote : node.remoteIDs[id]? with
  | none => simp only [enterFirst, hremote, Except.map]
  | some attr =>
      simp only [enterFirst, hremote, Except.map]
      rw [← foldl_addTo attr _ rest, ← List.foldl_cons, foldl_addTo]

end Handlers

end LocationMessage

/-! ## The lists of the entries -/

namespace BlockNode

/-- The list of an entry of `localIDs`. -/
def localList (node : BlockNode) (id : BlockID) : Option (List MachineID) :=
  node.localIDs[id]?.map fun attr => (node.attrs attr).machine

/-- The list of an entry of `remoteIDs`. -/
def remoteList (node : BlockNode) (id : BlockID) : Option (List MachineID) :=
  node.remoteIDs[id]?.map fun attr => (node.attrs attr).machine

end BlockNode

namespace LocationMessage

open BlockLocationAttr

section Lists

variable {blockReplica : UInt64} {node node' : BlockNode} {id : BlockID} {machines : List MachineID}

@[simp] theorem localIDs_setList (node : BlockNode) (mids : List MachineID) (attr : Option Nat) :
    (setList node mids attr).localIDs = node.localIDs := by
  cases attr <;> rfl

theorem machine_setList (node : BlockNode) (mids : List MachineID) (attr : Option Nat) (other : Nat) :
    ((setList node mids attr).attrs other).machine =
      if attr = some other then mids else (node.attrs other).machine := by
  cases attr with
  | none => rfl
  | some attr =>
      unfold setList BlockNode.modify
      dsimp only
      rw [Function.update_apply]
      by_cases heq : other = attr
      · rw [if_pos heq, if_pos (congrArg some heq.symm)]
      · rw [if_neg heq, if_neg fun h => heq (Option.some.inj h).symm]

/-- The lists of the block are replaced, and no other entry has one of them. -/
theorem machine_of_update (h : node.Ordered blockReplica) {other : BlockID} {attr : Nat}
    (hentry : node.Entry other attr) :
    ((setList (setList node machines node.localIDs[id]?) machines node.remoteIDs[id]?).attrs
      attr).machine = if other = id then machines else (node.attrs attr).machine := by
  rw [machine_setList, machine_setList]
  by_cases hid : other = id
  · subst hid
    rw [if_pos rfl]
    rcases hentry with hlocal | hremote
    · rw [if_pos hlocal, ite_self]
    · rw [if_pos hremote]
  · -- a list that both entries had would be for both blocks
    have hother (hentry' : node.Entry id attr) : False :=
      hid ((h.entry hentry).2.symm.trans (h.entry hentry').2)
    rw [if_neg hid, if_neg fun hremote => hother (Or.inr hremote),
      if_neg fun hlocal => hother (Or.inl hlocal)]

/-- Adding to an entry that there is merges its list with the machines. -/
theorem remoteList_of_some {attr : Nat} (hattr : node.remoteIDs[id]? = some attr) :
    (node.modify attr (·.addMachines blockReplica machines)).remoteList id =
      some ((node.attrs attr).addMachines blockReplica machines).machine := by
  unfold BlockNode.remoteList BlockNode.modify
  dsimp only
  rw [hattr, Option.map_some, Function.update_self]

/-- A new entry has exactly the machines that are added. -/
theorem remoteList_of_none {m : MachineID} {rest : List MachineID}
    (hmachines : WellFormed blockReplica (m :: rest)) (node : BlockNode) :
    ((node.forceAddRemoteID blockReplica m id).modify node.brk
      (·.addMachines blockReplica rest)).remoteList id = some (m :: rest) := by
  have hrebuilt := machine_addMachines_nil hmachines ⟨id, [], .available⟩
  unfold BlockNode.remoteList BlockNode.modify BlockNode.forceAddRemoteID
  dsimp only
  rw [getElem?_insert_id, if_pos rfl, Option.map_some, Function.update_self, Function.update_self]
  exact congrArg some hrebuilt

end Lists

/-! ## Round trips -/

/-- There are not more machines than IDs. -/
theorem length_le_of_increasing {machines : List MachineID} (h : machines.Pairwise (· < ·)) :
    machines.length ≤ 2 ^ 32 := by
  have hnodup : (machines.map UInt32.toNat).Nodup := by
    rw [List.Nodup, List.pairwise_map]
    exact h.imp fun hlt => Nat.ne_of_lt (UInt32.lt_iff_toNat_lt.mp hlt)
  have hsub : machines.map UInt32.toNat ⊆ List.range (2 ^ 32) := by
    intro number hnumber
    obtain ⟨m, -, rfl⟩ := List.mem_map.mp hnumber
    exact List.mem_range.mpr m.toNat_lt
  have hlength := (List.subperm_of_subset hnodup hsub).length_le
  rwa [List.length_map, List.length_range] at hlength

section RoundTrip

variable {blockReplica : UInt64} {node : BlockNode} {id : BlockID} {machines : List MachineID}

/-- Whoever writes a list sends the payload that the handlers read. -/
theorem writeLocation_of_wellFormed (hmachines : WellFormed blockReplica machines)
    (cmd : MessageCmd) (id : BlockID) : ∃ msg, writeLocation cmd id machines = .ok msg ∧
      readLocation msg.data = .ok (id, machines) ∧ msg.data.length < 2 ^ 64 := by
  have hlength := length_le_of_increasing hmachines.increasing
  have hend : 8 + 4 * machines.length < Socket.maxVector :=
    Nat.lt_of_le_of_lt (by omega : _ ≤ 8 + 4 * 2 ^ 32) (by decide)
  refine ⟨_, writeLocation_eq cmd id hend, readLocation_locationData id machines, ?_⟩
  change (locationData id machines).length < 2 ^ 64
  rw [length_locationData]
  omega

theorem update_round_trip (h : node.Ordered blockReplica)
    (hmachines : WellFormed blockReplica machines) {attr : BlockLocationAttr} (hid : attr.block = id)
    (hlist : attr.machine = machines) :
    ∃ msg node' off, updateRemoteBlockInfo attr = .ok msg ∧
      handleUpdateReplica node msg.data = .ok (node', off) ∧ off.toNat = msg.data.length ∧
      ∀ other, node'.localList other =
          (if other = id then (node.localList other).map fun _ => machines else node.localList other) ∧
        node'.remoteList other =
          if other = id then (node.remoteList other).map fun _ => machines
          else node.remoteList other := by
  obtain ⟨msg, hwrite, hread, hsize⟩ := writeLocation_of_wellFormed hmachines .updateReplica id
  refine ⟨msg, _, _, ?_, handleUpdateReplica_eq hsize hread, UInt64.toNat_ofNat_of_lt' hsize,
    fun other => ⟨?_, ?_⟩⟩
  · rw [updateRemoteBlockInfo, hid, hlist, hwrite]
  · unfold BlockNode.localList
    rw [localIDs_setList, localIDs_setList]
    cases hget : node.localIDs[other]? with
    | none => simp
    | some attr =>
        rw [Option.map_some, Option.map_some, machine_of_update h (Or.inl hget)]
        split <;> rfl
  · unfold BlockNode.remoteList
    rw [remoteIDs_setList, remoteIDs_setList]
    cases hget : node.remoteIDs[other]? with
    | none => simp
    | some attr =>
        rw [Option.map_some, Option.map_some, machine_of_update h (Or.inr hget)]
        split <;> rfl

theorem doReplica_round_trip (hmachines : WellFormed blockReplica machines)
    {attr : BlockLocationAttr} (hid : attr.block = id) (hlist : attr.machine = machines) :
    ∃ msg, checkReplica attr = .ok msg ∧ checkAllReplica attr = .ok msg ∧
      ∀ pick entry, node.askBlockDetail id = some entry → (node.attrs entry).state = .available →
        ∃ node' off, handleDoReplica blockReplica pick node msg.data = .ok (node', some off) ∧
          off.toNat = msg.data.length ∧ (node'.attrs entry).machine = machines ∧
          node'.replicas = ⟨id, entry, pick machines (blockReplica - .ofNat machines.length),
            false⟩ :: node.replicas := by
  obtain ⟨msg, hwrite, hread, hsize⟩ := writeLocation_of_wellFormed hmachines .doReplica id
  refine ⟨msg, ?_, ?_, fun pick entry hentry hstate => ?_⟩
  · rw [checkReplica, hid, hlist, hwrite]
  · rw [checkAllReplica, hid, hlist, hwrite]
  · have hrebuilt := machine_addMachines_nil hmachines (node.attrs entry)
    have hrun := @node_handleDoReplica blockReplica node msg.data id machines pick entry hread hentry
      hstate
    dsimp only at hrun
    rw [hrebuilt] at hrun
    have hread := @handleDoReplica_eq blockReplica node msg.data id machines pick entry hsize hread
      hentry hstate
    rw [hrun] at hread
    refine ⟨_, _, hread, UInt64.toNat_ofNat_of_lt' hsize, ?_, rfl⟩
    unfold BlockNode.modify
    dsimp only
    rw [Function.update_self]
    exact hrebuilt

theorem locationACK_round_trip (h : node.Ordered blockReplica)
    (hmachines : WellFormed blockReplica machines) {holder : BlockNode}
    (hholder : holder.localList id = some machines) :
    ∃ msg node' off, handleRequestBlockLocation holder id = .ok msg ∧
      handleRequestBlockLocationACK blockReplica node msg.data = .ok (node', some off) ∧
      off.toNat = msg.data.length ∧
      (node.remoteList id = none → node'.remoteList id = some machines) ∧
      ∀ old, node.remoteList id = some old → ∃ merged, node'.remoteList id = some merged ∧
        InOrder blockReplica merged ∧
        ∀ m, m ∈ merged ↔ m ∈ old ∨ m ∈ newMachines blockReplica old machines := by
  obtain ⟨msg, hwrite, hread, hsize⟩ :=
    writeLocation_of_wellFormed hmachines .requestBlockLocationACK id
  have hsend : handleRequestBlockLocation holder id = .ok msg := by
    obtain ⟨entry, hentry, hlist⟩ := Option.map_eq_some_iff.mp hholder
    rw [handleRequestBlockLocation, hentry]
    dsimp only
    rw [hlist, hwrite]
  have hne : msg.data ≠ [] :=
    List.ne_nil_of_length_pos (Nat.lt_of_lt_of_le (by decide) (copyAt_of_readLocation hread).1)
  obtain ⟨m, rest, rfl⟩ := List.exists_cons_of_ne_nil hmachines.nonempty
  have hnodup : (m :: rest).Nodup := hmachines.increasing.imp fun hlt => UInt32.ne_of_lt hlt
  have hrun := @handleRequestBlockLocationACK_eq blockReplica node msg.data id m rest hsize hread
  rw [BlockNode.handleRequestBlockLocationACK, if_neg hne, hread, ok_bind] at hrun
  dsimp only at hrun
  cases hremote : node.remoteIDs[id]? with
  | none =>
      have hnone : node.remoteList id = none := by simp [BlockNode.remoteList, hremote]
      rw [hremote] at hrun
      refine ⟨msg, _, _, hsend, hrun, UInt64.toNat_ofNat_of_lt' hsize,
        fun _ => remoteList_of_none hmachines _, fun old hold => ?_⟩
      exact absurd (hnone.symm.trans hold) (by simp)
  | some entry =>
      have hold : node.remoteList id = some (node.attrs entry).machine := by
        simp [BlockNode.remoteList, hremote]
      rw [hremote] at hrun
      refine ⟨msg, _, _, hsend, hrun, UInt64.toNat_ofNat_of_lt' hsize, fun hnone => ?_,
        fun old hlist => ⟨_, remoteList_of_some hremote, ?_, fun other => ?_⟩⟩
      · exact absurd (hnone.symm.trans hold) (by simp)
      · exact inOrder_addMachines (h.list entry) _
      · rw [mem_addMachines_iff_new hnodup, Option.some.inj (hold.symm.trans hlist)]

end RoundTrip

/-- Location lists arrive as they were sent, at every machine of every run, and each handler
stops at the end of the payload. -/
theorem lists_round_trip {blockReplica : UInt64} {events : List BlockEvent} {net : BlockNet}
    (hrun : (blockSystem blockReplica).Run events net) (n : MachineID) (id : BlockID)
    {machines : List MachineID} (hmachines : WellFormed blockReplica machines) :
    let node := net.nodes n
    (∀ attr : BlockLocationAttr, attr.block = id → attr.machine = machines →
      ∃ msg node' off, updateRemoteBlockInfo attr = .ok msg ∧
        handleUpdateReplica node msg.data = .ok (node', off) ∧ off.toNat = msg.data.length ∧
        ∀ other, node'.localList other =
            (if other = id then (node.localList other).map fun _ => machines
              else node.localList other) ∧
          node'.remoteList other =
            if other = id then (node.remoteList other).map fun _ => machines
            else node.remoteList other) ∧
    (∀ attr : BlockLocationAttr, attr.block = id → attr.machine = machines →
      ∃ msg, checkReplica attr = .ok msg ∧ checkAllReplica attr = .ok msg ∧
        ∀ pick entry, node.askBlockDetail id = some entry → (node.attrs entry).state = .available →
          ∃ node' off, handleDoReplica blockReplica pick node msg.data = .ok (node', some off) ∧
            off.toNat = msg.data.length ∧ (node'.attrs entry).machine = machines ∧
            node'.replicas = ⟨id, entry, pick machines (blockReplica - .ofNat machines.length),
              false⟩ :: node.replicas) ∧
    ∀ holder : BlockNode, holder.localList id = some machines →
      ∃ msg node' off, handleRequestBlockLocation holder id = .ok msg ∧
        handleRequestBlockLocationACK blockReplica node msg.data = .ok (node', some off) ∧
        off.toNat = msg.data.length ∧
        (node.remoteList id = none → node'.remoteList id = some machines) ∧
        ∀ old, node.remoteList id = some old → ∃ merged, node'.remoteList id = some merged ∧
          InOrder blockReplica merged ∧
          ∀ m, m ∈ merged ↔ m ∈ old ∨ m ∈ newMachines blockReplica old machines := by
  have hordered := (BlockNet.invariant_ordered.run hrun).node n
  exact ⟨fun attr => update_round_trip hordered hmachines,
    fun attr => doReplica_round_trip hmachines,
    fun holder => locationACK_round_trip hordered hmachines⟩

/-- Machine 1 has the only block of a cluster, and hears of a copy on machine 2. -/
theorem lists_round_trip_example : ∃ msg node' off,
    updateRemoteBlockInfo ⟨buildBlockID 1 1, [1, 2], .available⟩ = .ok msg ∧
      handleUpdateReplica (BlockNet.oneBlock.nodes 1) msg.data = .ok (node', off) ∧
      node'.localList (buildBlockID 1 1) = some [1, 2] := by
  have hmachines : WellFormed 2 ([1, 2] : List MachineID) := ⟨by decide, by decide, by decide⟩
  have hrun : (blockSystem 2).Run [.save 1 allocateMem true] BlockNet.oneBlock :=
    ⟨.empty, rfl, .cons BlockNet.step_oneBlock (.nil _)⟩
  obtain ⟨msg, node', off, hwrite, hread, -, hlists⟩ :=
    (lists_round_trip hrun 1 (buildBlockID 1 1) hmachines).1
      ⟨buildBlockID 1 1, [1, 2], .available⟩ rfl rfl
  refine ⟨msg, node', off, hwrite, hread, ?_⟩
  have hlocal : (BlockNet.oneBlock.nodes 1).localList (buildBlockID 1 1) = some [1] := by decide
  rw [(hlists _).1, if_pos rfl, hlocal]
  rfl

end LocationMessage

end Doopey
