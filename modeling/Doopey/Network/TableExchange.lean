import Doopey.Common.MessageData
import Doopey.Network.Router

/-!
# Exchanging routing tables

A machine writes its table entry by entry to the end of a message, and counts the bytes
as an offset. Another one reads it with an offset of its own until that is the size of
the data.
-/

namespace Doopey

open Foundation

/-- Copying bytes of a payload. -/
def copyAt (data : Bytes) (off : UInt64) (size : Nat) : Except Fault Bytes :=
  if off.toNat + size ≤ data.length then .ok (part data off.toNat size) else .error .outOfBounds

/-- One round of the loop that reads a routing table: the entry, and the offset behind it. -/
def readEntryAt (data : Bytes) (off : UInt64) :
    Except Fault ((MachineID × RoutingEntry) × UInt64) := do
  let id ← copyAt data off 4
  let off := off + 4
  let len ← copyAt data off 8
  let off := off + 8
  let ip ← copyAt data off (ofLE len)
  let off := off + .ofNat (ofLE len)
  let d ← copyAt data off 2
  .ok ((.ofNat (ofLE id), ⟨ip, .ofNat (ofLE d)⟩), off + 2)

namespace RouterNode

/-- The loop of `handleRequestRoutingTable` -/
def writeEntries : List (MachineID × RoutingEntry) → UInt64 → Message → Except Fault Message
  | [], _, ack => .ok ack
  | (id, entry) :: rest, off, ack => do
      let ack ← ack.addDataAt (machineBytes id) off
      let off := off + 4
      let len := UInt64.ofNat entry.ip.length
      let ack ← ack.addDataAt (bytesOf len) off
      let off := off + 8
      let ack ← ack.addDataAt entry.ip off
      let off := off + len
      let ack ← ack.addDataAt (le 2 entry.d.toNat) off
      writeEntries rest (off + 2) ack

/-- The message that `handleRequestRoutingTable` sends. -/
def routingTableACK (node : RouterNode) : Except Fault Message :=
  writeEntries node.routingTable.toList 0 (.new .router .routerACK)

/-- The loop of `initTable` that walks through a table, with the offset at its end. -/
def walkTable (localIP data : Bytes) :
    Nat → UInt64 → RouterNode → Bool → Except Fault (RouterNode × Bool × UInt64)
  | 0, off, node, done =>
      if .ofNat data.length = off then .ok (node, done, off) else .error .divergence
  | fuel + 1, off, node, done =>
      if .ofNat data.length = off then .ok (node, done, off)
      else do
        let ((id, entry), off) ← readEntryAt data off
        -- `continue` behind the offset: the entry of the machine itself is passed over
        if localIP = entry.ip then walkTable localIP data fuel off node done
        else walkTable localIP data fuel off (node.addRoutingPath id entry.ip (entry.d + 1)) true

end RouterNode

/-! ## Writing -/

theorem length_addData (msg : Message) (data : Bytes) :
    (msg.addData data).data.length = msg.data.length + data.length := List.length_append

theorem addData_addData (msg : Message) (data data' : Bytes) :
    (msg.addData data).addData data' = msg.addData (data ++ data') := by
  simp [Message.addData]

/-- A write at the end of the data is carried out exactly if the vector can be that long. -/
theorem bind_addDataAt_iff {msg msg' : Message} {data : Bytes} {off : UInt64}
    {next : Message → Except Fault Message} (hoff : off = .ofNat msg.data.length)
    (hsize : msg.data.length < Socket.maxVector) :
    msg.addDataAt data off >>= next = .ok msg' ↔
      msg.data.length + data.length < Socket.maxVector ∧ next (msg.addData data) = .ok msg' := by
  subst hoff
  by_cases hend : msg.data.length + data.length < Socket.maxVector
  · rw [Message.addDataAt_length hend, ok_bind]
    exact ⟨fun h => ⟨hend, h⟩, And.right⟩
  · have hs : (UInt64.ofNat msg.data.length).toNat = msg.data.length :=
      UInt64.toNat_ofNat_of_lt' (Nat.lt_trans hsize (by decide))
    obtain ⟨fault, hfault⟩ := @Message.addDataAt_of_ge msg hsize data (.ofNat msg.data.length)
      (by rw [hs]; exact Nat.le_of_not_lt hend)
    rw [hfault]
    exact ⟨fun h => absurd h (by simp [bind, Except.bind]), fun h => absurd h.1 hend⟩

/-- The offset behind a write. -/
theorem off_add {msg : Message} {data : Bytes} {off size : UInt64}
    (hoff : off = .ofNat msg.data.length) (hlength : size = .ofNat data.length) :
    off + size = .ofNat (msg.addData data).data.length := by
  rw [length_addData, hoff, hlength, UInt64.ofNat_add]

theorem length_entryBytes (id : MachineID) (entry : RoutingEntry) :
    (entryBytes id entry).length = 4 + 8 + entry.ip.length + 2 := by
  rw [entryBytes, List.length_append, List.length_append, List.length_append, length_machineBytes,
    length_bytesOf, length_le]

namespace RouterNode

/-- The entry in front is written exactly if the vector can be that long. -/
theorem writeEntries_cons_iff {id : MachineID} {entry : RoutingEntry}
    {rest : List (MachineID × RoutingEntry)} {off : UInt64} {ack ack' : Message}
    (hoff : off = .ofNat ack.data.length) (hsize : ack.data.length < Socket.maxVector) :
    writeEntries ((id, entry) :: rest) off ack = .ok ack' ↔
      ack.data.length + (entryBytes id entry).length < Socket.maxVector ∧
        writeEntries rest (.ofNat (ack.addData (entryBytes id entry)).data.length)
          (ack.addData (entryBytes id entry)) = .ok ack' := by
  -- each offset is the end of the data so far
  have hoff₁ := @off_add ack (machineBytes id) off 4 hoff (by rw [length_machineBytes]; rfl)
  have hoff₂ := @off_add _ (bytesOf (.ofNat entry.ip.length)) _ 8 hoff₁
    (by rw [length_bytesOf]; rfl)
  have hoff₃ := @off_add _ entry.ip _ _ hoff₂ rfl
  have hoff₄ := @off_add _ (le 2 entry.d.toNat) _ 2 hoff₃ (by rw [length_le]; rfl)
  have hlength₁ := length_addData ack (machineBytes id)
  have hlength₂ := length_addData (ack.addData (machineBytes id)) (bytesOf (.ofNat entry.ip.length))
  have hlength₃ := length_addData
    ((ack.addData (machineBytes id)).addData (bytesOf (.ofNat entry.ip.length))) entry.ip
  have hall : (((ack.addData (machineBytes id)).addData (bytesOf (.ofNat entry.ip.length))).addData
      entry.ip).addData (le 2 entry.d.toNat) = ack.addData (entryBytes id entry) := by
    simp only [addData_addData, entryBytes, List.append_assoc]
  have hparts := length_entryBytes id entry
  have hid := length_machineBytes id
  have hlen := length_bytesOf (.ofNat entry.ip.length)
  have hd := length_le 2 entry.d.toNat
  rw [hall] at hoff₄
  constructor
  · intro hrun
    obtain ⟨hend₁, hrun⟩ := (bind_addDataAt_iff hoff hsize).mp hrun
    obtain ⟨hend₂, hrun⟩ := (bind_addDataAt_iff hoff₁ (by omega)).mp hrun
    obtain ⟨hend₃, hrun⟩ := (bind_addDataAt_iff hoff₂ (by omega)).mp hrun
    obtain ⟨hend₄, hrun⟩ := (bind_addDataAt_iff hoff₃ (by omega)).mp hrun
    rw [hoff₄, hall] at hrun
    exact ⟨by omega, hrun⟩
  · rintro ⟨hend, hrun⟩
    rw [← hoff₄, ← hall] at hrun
    refine (bind_addDataAt_iff hoff hsize).mpr ⟨by omega, ?_⟩
    refine (bind_addDataAt_iff hoff₁ (by omega)).mpr ⟨by omega, ?_⟩
    refine (bind_addDataAt_iff hoff₂ (by omega)).mpr ⟨by omega, ?_⟩
    exact (bind_addDataAt_iff hoff₃ (by omega)).mpr ⟨by omega, hrun⟩

/-- The bytes of several entries. -/
def entriesBytes (entries : List (MachineID × RoutingEntry)) : Bytes :=
  entries.flatMap fun (id, entry) => entryBytes id entry

theorem entriesBytes_cons (id : MachineID) (entry : RoutingEntry)
    (rest : List (MachineID × RoutingEntry)) :
    entriesBytes ((id, entry) :: rest) = entryBytes id entry ++ entriesBytes rest := rfl

/-- The entries are written one behind the other, if the vector can be that long. -/
theorem writeEntries_iff {entries : List (MachineID × RoutingEntry)} {off : UInt64}
    {ack ack' : Message} (hoff : off = .ofNat ack.data.length)
    (hsize : ack.data.length < Socket.maxVector) :
    writeEntries entries off ack = .ok ack' ↔
      ack.data.length + (entriesBytes entries).length < Socket.maxVector ∧
        ack' = ack.addData (entriesBytes entries) := by
  induction entries generalizing off ack with
  | nil =>
      rw [writeEntries, Except.ok.injEq, entriesBytes, List.flatMap_nil, Message.addData,
        List.append_nil]
      exact ⟨fun h => ⟨hsize, h.symm⟩, fun h => h.2.symm⟩
  | cons entry entries ih =>
      obtain ⟨id, entry⟩ := entry
      have hlength := length_addData ack (entryBytes id entry)
      rw [writeEntries_cons_iff hoff hsize, entriesBytes_cons, List.length_append, ← addData_addData]
      constructor
      · rintro ⟨hend, hrun⟩
        obtain ⟨hrest, hack⟩ := (ih rfl (by omega)).mp hrun
        exact ⟨by omega, hack⟩
      · rintro ⟨hend, hack⟩
        refine ⟨by omega, (ih rfl ?_).mpr ⟨?_, hack⟩⟩
        · omega
        · omega

/-- The table is sent exactly if a vector can be that long. -/
theorem routingTableACK_iff {node : RouterNode} {ack : Message} :
    node.routingTableACK = .ok ack ↔
      node.handleRequestRoutingTable.length < Socket.maxVector ∧
        ack = (Message.new .router .routerACK).addData node.handleRequestRoutingTable := by
  have hiff := @writeEntries_iff node.routingTable.toList 0 (.new .router .routerACK) ack rfl
    (by decide)
  rwa [show (Message.new .router .routerACK).data.length = 0 from rfl, Nat.zero_add] at hiff

end RouterNode

/-! ## Reading -/

section Reading

variable {data : Bytes} {off : UInt64}

/-- Copying from an offset is reading from the front of what is behind it. -/
theorem bind_copyAt {α β : Type} {next : Bytes → Except Fault β}
    {next' : Bytes × Bytes → Except Fault α} {f : α → β} {step : UInt64} {size : Nat}
    (hsize : data.length < 2 ^ 64) (hoff : off.toNat ≤ data.length) (hstep : step = .ofNat size)
    (h : ∀ bytes, (off + step).toNat ≤ data.length →
      next bytes = (next' (bytes, data.drop (off + step).toNat)).map f) :
    (copyAt data off size >>= next) = (readFront size (data.drop off.toNat) >>= next').map f := by
  unfold copyAt readFront
  rw [List.length_drop]
  by_cases hfits : off.toNat + size ≤ data.length
  · have hnext : (off + step).toNat = off.toNat + size := by
      rw [hstep, UInt64.toNat_add, UInt64.toNat_ofNat', Nat.mod_eq_of_lt (by omega),
        Nat.mod_eq_of_lt (by omega)]
    rw [if_pos hfits, if_pos (by omega), ok_bind, ok_bind, h _ (by omega), hnext, List.drop_drop, part]
  · rw [if_neg hfits, if_neg (by omega)]
    rfl

theorem readEntryAt_eq (hsize : data.length < 2 ^ 64) (hoff : off.toNat ≤ data.length) :
    readEntryAt data off = (readEntry (data.drop off.toNat)).map
      fun (entry, rest) => (entry, .ofNat (data.length - rest.length)) := by
  refine bind_copyAt hsize hoff (by rfl) fun id hoff => ?_
  refine bind_copyAt hsize hoff (by rfl) fun len hoff => ?_
  refine bind_copyAt hsize hoff rfl fun ip hoff => ?_
  refine bind_copyAt hsize hoff (by rfl) fun d hoff => ?_
  simp only [Except.map, List.length_drop, Nat.sub_sub_self hoff, UInt64.ofNat_toNat]
  rfl

/-- What is behind an entry is the end of the data. -/
theorem readEntry_suffix {data rest : Bytes} {entry : MachineID × RoutingEntry}
    (hread : readEntry data = .ok (entry, rest)) : rest <:+ data := by
  have hfront {size : Nat} {data bytes rest : Bytes}
      (hread : readFront size data = .ok (bytes, rest)) : rest <:+ data := by
    unfold readFront at hread
    split at hread
    next =>
      rw [← (Prod.mk.inj (Except.ok.inj hread)).2]
      exact List.drop_suffix _ _
    next => exact absurd hread (by simp)
  obtain ⟨⟨id, data₁⟩, hid, hread⟩ := bind_eq_ok_iff.mp hread
  obtain ⟨⟨len, data₂⟩, hlen, hread⟩ := bind_eq_ok_iff.mp hread
  obtain ⟨⟨ip, data₃⟩, hip, hread⟩ := bind_eq_ok_iff.mp hread
  obtain ⟨⟨d, data₄⟩, hd, hread⟩ := bind_eq_ok_iff.mp hread
  rw [← (Prod.mk.inj (Except.ok.inj hread)).2]
  exact (hfront hd).trans ((hfront hip).trans ((hfront hlen).trans (hfront hid)))

end Reading

namespace RouterNode

/-- The offset is the size of the data exactly if nothing is left. -/
theorem ofNat_length_eq_iff {data : Bytes} {off : UInt64} (hsize : data.length < 2 ^ 64)
    (hoff : off.toNat ≤ data.length) : .ofNat data.length = off ↔ data.drop off.toNat = [] := by
  rw [List.drop_eq_nil_iff, ← UInt64.toNat_inj, UInt64.toNat_ofNat', Nat.mod_eq_of_lt hsize]
  omega

/-- Walking through a payload is reading it from the front, and ends behind its last byte. -/
theorem walkTable_eq {localIP data : Bytes} {fuel : Nat} {off : UInt64}
    (hsize : data.length < 2 ^ 64) (hoff : off.toNat ≤ data.length) (node : RouterNode)
    (done : Bool) :
    walkTable localIP data fuel off node done =
      (readTable localIP fuel (data.drop off.toNat) node done).map
        fun (node, done) => (node, done, .ofNat data.length) := by
  induction fuel generalizing off node done with
  | zero =>
      rw [walkTable, readTable]
      by_cases hend : .ofNat data.length = off
      · rw [if_pos hend, if_pos ((ofNat_length_eq_iff hsize hoff).mp hend), hend]
        rfl
      · rw [if_neg hend, if_neg fun h => hend ((ofNat_length_eq_iff hsize hoff).mpr h)]
        rfl
  | succ fuel ih =>
      rw [walkTable, readTable]
      by_cases hend : .ofNat data.length = off
      · rw [if_pos hend, if_pos ((ofNat_length_eq_iff hsize hoff).mp hend), hend]
        rfl
      · rw [if_neg hend, if_neg fun h => hend ((ofNat_length_eq_iff hsize hoff).mpr h),
          readEntryAt_eq hsize hoff]
        cases hread : readEntry (data.drop off.toNat) with
        | error fault => rfl
        | ok next =>
            obtain ⟨⟨id, entry⟩, rest⟩ := next
            -- what is left is the end of the data behind the new offset
            have hsuffix := (readEntry_suffix hread).trans (List.drop_suffix _ _)
            have hrest : (UInt64.ofNat (data.length - rest.length)).toNat =
                data.length - rest.length := by
              rw [UInt64.toNat_ofNat', Nat.mod_eq_of_lt (by omega)]
            have hdrop : data.drop (UInt64.ofNat (data.length - rest.length)).toNat = rest := by
              rw [hrest]
              exact (List.suffix_iff_eq_drop.mp hsuffix).symm
            rw [Except.map, ok_bind, ok_bind]
            dsimp only
            split
            next => rw [ih (by omega), hdrop]
            next => rw [ih (by omega), hdrop]

/-! ## The table of the receiver -/

/-- An address is a part of what is sent. -/
theorem length_ip_le {entries : List (MachineID × RoutingEntry)}
    {entry : MachineID × RoutingEntry} (hmem : entry ∈ entries) :
    entry.2.ip.length ≤ (entriesBytes entries).length := by
  obtain ⟨front, back, rfl⟩ := List.append_of_mem hmem
  obtain ⟨id, entry⟩ := entry
  have hlength := length_entryBytes id entry
  rw [entriesBytes, List.flatMap_append, List.flatMap_cons, List.length_append, List.length_append]
  dsimp only
  omega

section Entries

variable {localIP : Bytes} {entries : List (MachineID × RoutingEntry)} {id : MachineID}

/-- An entry of another machine replaces the old one. -/
theorem getElem?_addEntries_of_mem {entry : RoutingEntry}
    (hdistinct : entries.Pairwise fun first second => first.1 ≠ second.1)
    (hmem : (id, entry) ∈ entries) (hip : localIP ≠ entry.ip) (node : RouterNode) :
    (node.addEntries localIP entries).routingTable[id]? = some ⟨entry.ip, entry.d + 1⟩ := by
  induction entries using List.reverseRecOn with
  | nil => exact absurd hmem List.not_mem_nil
  | append_singleton entries last ih =>
      obtain ⟨hfront, -, hlast⟩ := List.pairwise_append.mp hdistinct
      rw [addEntries_concat]
      rcases List.mem_append.mp hmem with hmem | hmem
      · -- no other entry has its ID
        have hne : id ≠ last.1 := hlast (id, entry) hmem last List.mem_cons_self
        split
        next => exact ih hfront hmem
        next =>
          rw [getElem?_addRoutingPath, if_neg hne]
          exact ih hfront hmem
      · obtain rfl := List.mem_singleton.mp hmem
        rw [if_neg hip, getElem?_addRoutingPath, if_pos rfl]

/-- An ID that is only found with the address of the machine keeps its entry. -/
theorem getElem?_addEntries_of_forall
    (hlocal : ∀ entry, (id, entry) ∈ entries → localIP = entry.ip) (node : RouterNode) :
    (node.addEntries localIP entries).routingTable[id]? = node.routingTable[id]? := by
  induction entries using List.reverseRecOn with
  | nil => rfl
  | append_singleton entries last ih =>
      have hfront := ih fun entry hmem => hlocal entry (List.mem_append_left _ hmem)
      rw [addEntries_concat]
      split
      next => exact hfront
      next hip =>
        have hne : id ≠ last.1 := by
          rintro rfl
          exact hip (hlocal last.2 (List.mem_append_right _ List.mem_cons_self))
        rw [getElem?_addRoutingPath, if_neg hne, hfront]

end Entries

/-- The table of one machine over that of another one. -/
theorem getElem?_addEntries_toList (sender receiver : RouterNode) (localIP : Bytes)
    (id : MachineID) :
    (receiver.addEntries localIP sender.routingTable.toList).routingTable[id]? =
      match sender.routingTable[id]? with
      | some entry =>
          if localIP = entry.ip then receiver.routingTable[id]?
          else some ⟨entry.ip, entry.d + 1⟩
      | none => receiver.routingTable[id]? := by
  have hdistinct : sender.routingTable.toList.Pairwise fun first second => first.1 ≠ second.1 := by
    refine Std.TreeMap.distinct_keys_toList.imp fun hne heq => hne ?_
    rw [heq]
    exact Std.ReflCmp.compare_self
  have hentry {entry : RoutingEntry} (hmem : (id, entry) ∈ sender.routingTable.toList) :
      sender.routingTable[id]? = some entry := Std.TreeMap.mem_toList_iff_getElem?_eq_some.mp hmem
  cases hget : sender.routingTable[id]? with
  | none =>
      refine getElem?_addEntries_of_forall (fun entry hmem => ?_) receiver
      exact absurd (hget.symm.trans (hentry hmem)) (by simp)
  | some entry =>
      dsimp only
      split
      next hlocal =>
        refine getElem?_addEntries_of_forall (fun other hmem => ?_) receiver
        rw [hlocal, Option.some.inj (hget.symm.trans (hentry hmem))]
      next hip =>
        exact getElem?_addEntries_of_mem hdistinct
          (Std.TreeMap.mem_toList_iff_getElem?_eq_some.mpr hget) hip receiver

/-- Walking through the table of another machine. -/
theorem walkTable_routingTableACK {sender : RouterNode} {ack : Message}
    (hack : sender.routingTableACK = .ok ack) (receiver : RouterNode) (localIP : Bytes) {fuel : Nat}
    (hfuel : sender.routingTable.size ≤ fuel) :
    walkTable localIP ack.data fuel 0 receiver false =
      .ok (receiver.addEntries localIP sender.routingTable.toList,
        sender.routingTable.toList.any fun (_, entry) => decide (localIP ≠ entry.ip),
        .ofNat ack.data.length) := by
  obtain ⟨hsize, rfl⟩ := routingTableACK_iff.mp hack
  have hdata : ((Message.new .router .routerACK).addData sender.handleRequestRoutingTable).data =
      entriesBytes sender.routingTable.toList := rfl
  have hbound : (entriesBytes sender.routingTable.toList).length < 2 ^ 64 :=
    Nat.lt_trans hsize (by decide)
  have hlength (entry : MachineID × RoutingEntry) (hmem : entry ∈ sender.routingTable.toList) :
      entry.2.ip.length < 2 ^ 64 := Nat.lt_of_le_of_lt (length_ip_le hmem) hbound
  rw [← Std.TreeMap.length_toList] at hfuel
  have hread := @readTable_flatMap localIP _ hlength _ hfuel receiver false
  rw [Bool.false_or] at hread
  rw [hdata, walkTable_eq hbound (Nat.zero_le _)]
  exact congrArg (Except.map _) hread

/-- There are enough bytes for a round each. -/
theorem size_le_length_of_routingTableACK {sender : RouterNode} {ack : Message}
    (hack : sender.routingTableACK = .ok ack) : sender.routingTable.size ≤ ack.data.length := by
  obtain ⟨-, rfl⟩ := routingTableACK_iff.mp hack
  rw [← Std.TreeMap.length_toList]
  exact length_flatMap_entryBytes sender.routingTable.toList

/-- The table that a machine sends is walked through to its end, in as many rounds as it has
entries. Those of other machines are found one further away, and the rest of the table of
the receiver is kept. -/
theorem exchange_lossless {sender : RouterNode} {ack : Message}
    (hack : sender.routingTableACK = .ok ack) (receiver : RouterNode) (localIP : Bytes) :
    ∃ receiver' done,
      (∀ fuel, sender.routingTable.size ≤ fuel →
        walkTable localIP ack.data fuel 0 receiver false =
          .ok (receiver', done, .ofNat ack.data.length)) ∧
      ∀ id : MachineID, receiver'.routingTable[id]? =
        match sender.routingTable[id]? with
        | some entry =>
            if localIP = entry.ip then receiver.routingTable[id]?
            else some ⟨entry.ip, entry.d + 1⟩
        | none => receiver.routingTable[id]? :=
  ⟨_, _, fun _ => walkTable_routingTableACK hack receiver localIP,
    getElem?_addEntries_toList sender receiver localIP⟩

/-- A table with the address of the receiver and with the largest distance. -/
theorem exchange_lossless_example : ∃ ack receiver' done,
    (addEntries [9] [(2, ⟨[7], 0⟩), (3, ⟨[8, 8], 65534⟩)] (new 1)).routingTableACK = .ok ack ∧
      walkTable [7] ack.data 2 0 ((new 4).addRoutingPath 2 [6] 1) false =
        .ok (receiver', done, .ofNat ack.data.length) ∧
      receiver'.routingTable[(2 : MachineID)]? = some ⟨[6], 1⟩ ∧
      receiver'.routingTable[(3 : MachineID)]? = some ⟨[8, 8], 0⟩ := by
  obtain ⟨receiver', done, hwalk, htable⟩ := @exchange_lossless
    (addEntries [9] [(2, ⟨[7], 0⟩), (3, ⟨[8, 8], 65534⟩)] (new 1)) _ rfl
    ((new 4).addRoutingPath 2 [6] 1) [7]
  exact ⟨_, receiver', done, rfl, hwalk 2 (by decide), htable 2, htable 3⟩

end RouterNode

end Doopey
