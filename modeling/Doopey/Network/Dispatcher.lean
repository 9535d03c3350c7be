import Doopey.Block.BlockManager
import Doopey.Common.Socket
import Doopey.Network.Router

/-!
# What the handlers read of a message

`Dispatcher::dispatch` receives the first message of a connection and hands it to the handler
of its command, which walks through the payload with offsets of its own. Some handlers receive
further messages from the connection.

The functions below are the part of the handlers that reads messages. The only answer of the
state that they depend on is a parameter: whether the block of `MC_DoReplica` is known and
available.
-/

namespace Doopey

open Foundation

namespace Message

/-- The type, if the number is that of one. -/
def kind (msg : Message) : Option MessageType :=
  if msg.type.toNat < 5 then some (.ofNat msg.type.toNat) else none

/-- The command, if the number is that of one. -/
def command (msg : Message) : Option MessageCmd :=
  if msg.cmd.toNat < 36 then some (.ofNat msg.cmd.toNat) else none

end Message

/-- What is read of a message. -/
inductive Decoded
  | nothing
  | block (id : BlockID)
  | query (m : MachineID) (id : BlockID)
  | machines (id : BlockID) (machines : List MachineID)
  | address (id : MachineID) (ip : Bytes)
  | path (path : Bytes)
  | newFile (name : Bytes) (id : BlockID)
  | metaData (name : Bytes) (ctime size : UInt64)
  | data (data : Bytes)
  deriving DecidableEq

/-- `resize(size)` of a string, which throws if it cannot be that long, and `memcpy` into it. -/
def readString (size : Nat) (data : Bytes) : Except Fault (Bytes × Bytes) :=
  if Socket.maxVector ≤ size then .error .outOfRange else readFront size data

namespace BlockManager

/-- `BlockResolver::handleRequestBlockLocation` -/
def decodeRequestBlockLocation (data : Bytes) : Except Fault Decoded := do
  let (m, rest) ← readFront 4 data
  let (id, _) ← readFront 8 rest
  .ok (.query (.ofNat (ofLE m)) (.ofNat (ofLE id)))

/-- `BlockResolver::handleRequestBlockLocationACK` -/
def decodeRequestBlockLocationACK (data : Bytes) : Except Fault Decoded :=
  if data = [] then .ok .nothing
  else do
    let (id, rest) ← readFront 8 data
    let (m, rest) ← readFront 4 rest
    let machines ← readMachines rest
    .ok (.machines (.ofNat (ofLE id)) (.ofNat (ofLE m) :: machines))

/-- `BlockLoader::handleRequestBlockData`, `BlockResolver::handleCheckBlockAlive` and
`BlockManager::handleCopyBlockFromRemote` -/
def decodeBlockID (data : Bytes) : Except Fault Decoded := do
  let (id, _) ← readFront 8 data
  .ok (.block (.ofNat (ofLE id)))

/-- `BlockManager::handleDoReplica`. The list is not looked at if the block is unknown or not
available. -/
def decodeDoReplica (available : BlockID → Bool) (data : Bytes) : Except Fault Decoded := do
  let (id, rest) ← readFront 8 data
  let id := UInt64.ofNat (ofLE id)
  if available id then do
    let machines ← readMachines rest
    .ok (.machines id machines)
  else .ok (.block id)

/-- `BlockResolver::handleUpdateReplica` -/
def decodeUpdateReplica (data : Bytes) : Except Fault Decoded := do
  let (id, rest) ← readFront 8 data
  let machines ← readMachines rest
  .ok (.machines (.ofNat (ofLE id)) machines)

/-- `BlockManager::handleDoDelete` and `BlockManager::handleDeleteBlock`. The size of a `Block`
is copied, not that of an ID. -/
def decodeDelete (data : Bytes) : Except Fault Decoded := do
  let (bytes, _) ← readFront sizeofBlock data
  .ok (.block (.ofNat (ofLE (bytes.take 8))))

/-- What the handlers of blocks read. -/
def decode (available : BlockID → Bool) (cmd : MessageCmd) (data : Bytes) :
    Except Fault Decoded :=
  match cmd with
  | .requestBlockLocation => decodeRequestBlockLocation data
  | .requestBlockLocationACK => decodeRequestBlockLocationACK data
  | .requestBlockData | .checkBlockAlive | .copyBlockFromRemote => decodeBlockID data
  | .doReplica => decodeDoReplica available data
  | .updateReplica => decodeUpdateReplica data
  | .doDelete | .deleteBlock => decodeDelete data
  | _ => .ok .nothing

end BlockManager

/-- `Router::handleUpdateMachineIDMax` and `Router::handleCheckRepeatMachineID` -/
def Router.decodeAddress (data : Bytes) : Except Fault Decoded := do
  let (id, rest) ← readFront 4 data
  let (len, rest) ← readFront 8 rest
  let (ip, _) ← readString (ofLE len) rest
  .ok (.address (.ofNat (ofLE id)) ip)

/-- What the handlers of `class Router` read. -/
def Router.decode (cmd : MessageCmd) (data : Bytes) : Except Fault Decoded :=
  match cmd with
  | .updateMachineIDMax | .checkRepeatMachineID => decodeAddress data
  | _ => .ok .nothing

/-- What `FileUploader::setupMeta` reads. -/
def FileUploader.decodeMeta (data : Bytes) : Except Fault Decoded := do
  let (nameLength, rest) ← readFront 8 data
  let (name, rest) ← readString (ofLE nameLength) rest
  let (ctime, rest) ← readFront 8 rest
  let (size, _) ← readFront 8 rest
  .ok (.metaData name (.ofNat (ofLE ctime)) (.ofNat (ofLE size)))

/-- One round of the loop of `FileUploader::receiveFile`, where `again` is what follows it.
`described` says whether the meta block has been set up; without that, no ID of a data block can
be added. -/
def FileUploader.decodeMessage (again : Bool → Except Fault (List Decoded)) (described : Bool)
    (msg : Message) : Except Fault (List Decoded) :=
  match msg.command with
  | some .upFileMeta => do
      let file ← decodeMeta msg.data
      let more ← again true
      .ok (file :: more)
  | some .upFileData =>
      -- no more messages are received then
      if blockSize < msg.data.length ∨ described = false then .ok [.data msg.data]
      else do
        let more ← again described
        .ok (.data msg.data :: more)
  | some .upFileEnd => .ok []
  | _ => again described

/-- The loop of `FileUploader::receiveFile`, from message number `k` of the connection on. -/
def FileUploader.decodeFile (schedules : Nat → Socket.Schedule) :
    Nat → Nat → Bool → Bytes → Except Fault (List Decoded)
  | 0, _, _, _ => .error .divergence
  | fuel + 1, k, described, wire => do
      let (msg, rest) ← Socket.receive (schedules k) wire
      match msg with
      | none => .ok []
      | some msg =>
          decodeMessage (fun described => decodeFile schedules fuel (k + 1) described rest)
            described msg

/-- The case `MC_BroadcastNewFile` of `FileManager::handleBroadcast` -/
def FileManager.decodeNewFile (data : Bytes) : Except Fault Decoded := do
  let (l, rest) ← readFront 8 data
  let (name, rest) ← readString (ofLE l) rest
  let (id, _) ← readFront 8 rest
  .ok (.newFile name (.ofNat (ofLE id)))

/-- What `FileManager::receiveQuest` reads: of the payload, or of further messages. The result
of `receive` is not checked. -/
def FileManager.decode (schedules : Nat → Socket.Schedule) (cmd : MessageCmd) (data rest : Bytes) :
    Except Fault (List Decoded) :=
  match cmd with
  | .upFileStart => FileUploader.decodeFile schedules (rest.length + 1) 1 false rest
  | .requestFile | .requestList | .newDir | .rmDir | .rmFile => do
      let (msg, _) ← Socket.receive (schedules 1) rest
      match msg with
      | none => .error .badPointer
      | some msg => .ok [.path msg.data]
  | .broadcastNewFile => do
      let decoded ← decodeNewFile data
      .ok [decoded]
  | .broadcastNewDir | .broadcastRmFile | .broadcastRmDir => .ok [.path data]
  | _ => .ok []

/-- What `Dispatcher::dispatch` and the handler that it calls read of a connection. -/
def Dispatcher.dispatch (available : BlockID → Bool) (schedules : Nat → Socket.Schedule)
    (wire : Bytes) : Except Fault (List Decoded) := do
  let (msg, rest) ← Socket.receive (schedules 0) wire
  match msg with
  | none => .ok []
  | some msg =>
      match msg.kind, msg.command with
      | some .router, some cmd => do
          let decoded ← Router.decode cmd msg.data
          .ok [decoded]
      | some .block, some cmd => do
          let decoded ← BlockManager.decode available cmd msg.data
          .ok [decoded]
      | some .file, some cmd => FileManager.decode schedules cmd msg.data rest
      | _, _ => .ok []

/-! ## Reading within the bounds -/

/-- Nothing outside an object is read. -/
def InBounds {α : Type} (x : Except Fault α) : Prop := x ≠ .error .outOfBounds

section InBounds

variable {α β : Type}

@[simp] theorem inBounds_ok (a : α) : InBounds (.ok a) := by
  simp [InBounds]

theorem inBounds_readFront_bind {size : Nat} {data : Bytes} {f : Bytes × Bytes → Except Fault α} :
    InBounds (readFront size data >>= f) ↔
      size ≤ data.length ∧ InBounds (f (data.take size, data.drop size)) := by
  unfold readFront
  split
  next hle => exact (and_iff_right hle).symm
  next hgt => exact iff_of_false (fun h => h rfl) fun h => hgt h.1

theorem exists_readFront_bind {size : Nat} {data : Bytes} {f : Bytes × Bytes → Except Fault α} :
    (∃ a, readFront size data >>= f = .ok a) ↔
      size ≤ data.length ∧ ∃ a, f (data.take size, data.drop size) = .ok a := by
  unfold readFront
  split
  next hle => exact (and_iff_right hle).symm
  next hgt => exact iff_of_false (fun ⟨a, ha⟩ => nomatch ha) fun h => hgt h.1

theorem inBounds_readString_bind {size : Nat} {data : Bytes} {f : Bytes × Bytes → Except Fault α} :
    InBounds (readString size data >>= f) ↔ Socket.maxVector ≤ size ∨
      size ≤ data.length ∧ InBounds (f (data.take size, data.drop size)) := by
  unfold readString
  split
  next hhuge => exact iff_of_true (by simp [InBounds]) (Or.inl hhuge)
  next hsize => rw [inBounds_readFront_bind, or_iff_right hsize]

theorem inBounds_bind {x : Except Fault α} {f : α → Except Fault β} :
    InBounds (x >>= f) ↔ InBounds x ∧ ∀ a, x = .ok a → InBounds (f a) := by
  cases x with
  | error e => simp [InBounds]
  | ok a => simp [InBounds]

theorem inBounds_map {x : Except Fault α} {f : α → β} :
    InBounds (x >>= fun a => .ok (f a)) ↔ InBounds x := by
  cases x with
  | error e => simp [InBounds]
  | ok a => simp [InBounds]

/-- The loops over the machines of a payload read what is a whole number of machines. -/
theorem inBounds_readMachines {data : Bytes} : InBounds (readMachines data) ↔ 4 ∣ data.length := by
  induction data using readMachines.induct with
  | case1 => simp [readMachines]
  | case2 b₀ b₁ b₂ b₃ rest ih =>
      rw [readMachines, inBounds_map, ih]
      simp only [List.length_cons]
      omega
  | case3 data hnil hfour =>
      have hlength : ¬ 4 ∣ data.length := by
        match data with
        | [] => exact absurd rfl hnil
        | [_] | [_, _] | [_, _, _] => simp
        | b₀ :: b₁ :: b₂ :: b₃ :: rest => exact absurd rfl (hfour b₀ b₁ b₂ b₃ rest)
      rw [readMachines.eq_3 data hnil hfour]
      exact iff_of_false (fun h => h rfl) hlength

end InBounds

/-! ## The lengths that the handlers need -/

namespace BlockManager

variable {data : Bytes}

theorem inBounds_decodeRequestBlockLocation :
    InBounds (decodeRequestBlockLocation data) ↔ 12 ≤ data.length := by
  rw [decodeRequestBlockLocation, inBounds_readFront_bind]
  dsimp only
  rw [inBounds_readFront_bind, and_iff_left (inBounds_ok _), List.length_drop]
  omega

theorem inBounds_decodeRequestBlockLocationACK : InBounds (decodeRequestBlockLocationACK data) ↔
    data = [] ∨ 12 ≤ data.length ∧ 4 ∣ data.length := by
  unfold decodeRequestBlockLocationACK
  split
  next hnil => exact iff_of_true (inBounds_ok _) (Or.inl hnil)
  next hnil =>
    rw [or_iff_right hnil, inBounds_readFront_bind]
    dsimp only
    rw [inBounds_readFront_bind]
    dsimp only
    rw [inBounds_map, inBounds_readMachines]
    simp only [List.length_drop]
    omega

theorem inBounds_decodeBlockID : InBounds (decodeBlockID data) ↔ 8 ≤ data.length := by
  rw [decodeBlockID, inBounds_readFront_bind, and_iff_left (inBounds_ok _)]

theorem inBounds_decodeDoReplica {available : BlockID → Bool} :
    InBounds (decodeDoReplica available data) ↔ 8 ≤ data.length ∧
      (available (.ofNat (ofLE (data.take 8))) → 4 ∣ data.length) := by
  rw [decodeDoReplica, inBounds_readFront_bind]
  dsimp only
  apply and_congr_right
  intro hlong
  split
  next havailable =>
    rw [inBounds_map, inBounds_readMachines, List.length_drop]
    simp only [havailable, forall_const]
    omega
  next hnot => exact iff_of_true (inBounds_ok _) fun havailable => absurd havailable hnot

theorem inBounds_decodeUpdateReplica :
    InBounds (decodeUpdateReplica data) ↔ 8 ≤ data.length ∧ 4 ∣ data.length := by
  rw [decodeUpdateReplica, inBounds_readFront_bind]
  dsimp only
  rw [inBounds_map, inBounds_readMachines, List.length_drop]
  omega

theorem inBounds_decodeDelete : InBounds (decodeDelete data) ↔ sizeofBlock ≤ data.length := by
  rw [decodeDelete, inBounds_readFront_bind, and_iff_left (inBounds_ok _)]

/-- The payload is as long as the handler takes it to be. -/
def Fits (available : BlockID → Bool) (cmd : MessageCmd) (data : Bytes) : Prop :=
  match cmd with
  | .requestBlockLocation => 12 ≤ data.length
  | .requestBlockLocationACK => data = [] ∨ 12 ≤ data.length ∧ 4 ∣ data.length
  | .requestBlockData | .checkBlockAlive | .copyBlockFromRemote => 8 ≤ data.length
  | .doReplica => 8 ≤ data.length ∧
      (available (.ofNat (ofLE (data.take 8))) → 4 ∣ data.length)
  | .updateReplica => 8 ≤ data.length ∧ 4 ∣ data.length
  | .doDelete | .deleteBlock => sizeofBlock ≤ data.length
  | _ => True

theorem inBounds_decode_iff {available : BlockID → Bool} {cmd : MessageCmd} :
    InBounds (decode available cmd data) ↔ Fits available cmd data := by
  cases cmd
  case requestBlockLocation => exact inBounds_decodeRequestBlockLocation
  case requestBlockLocationACK => exact inBounds_decodeRequestBlockLocationACK
  case requestBlockData => exact inBounds_decodeBlockID
  case checkBlockAlive => exact inBounds_decodeBlockID
  case copyBlockFromRemote => exact inBounds_decodeBlockID
  case doReplica => exact inBounds_decodeDoReplica
  case updateReplica => exact inBounds_decodeUpdateReplica
  case doDelete => exact inBounds_decodeDelete
  case deleteBlock => exact inBounds_decodeDelete
  all_goals exact iff_of_true (inBounds_ok _) trivial

end BlockManager

/-- Behind `front` bytes there is a length, and as many bytes as it says and `behind` more. -/
def HoldsString (front behind : Nat) (data : Bytes) : Prop :=
  front + 8 ≤ data.length ∧ (Socket.maxVector ≤ ofLE (part data front 8) ∨
    front + 8 + ofLE (part data front 8) + behind ≤ data.length)

theorem Router.inBounds_decodeAddress {data : Bytes} :
    InBounds (decodeAddress data) ↔ HoldsString 4 0 data := by
  rw [decodeAddress, HoldsString, inBounds_readFront_bind]
  dsimp only
  rw [inBounds_readFront_bind, inBounds_readString_bind, and_iff_left (inBounds_ok _), ← part]
  simp only [List.length_drop]
  omega

theorem FileUploader.inBounds_decodeMeta {data : Bytes} :
    InBounds (decodeMeta data) ↔ HoldsString 0 16 data := by
  rw [decodeMeta, HoldsString, inBounds_readFront_bind, inBounds_readString_bind]
  dsimp only
  rw [inBounds_readFront_bind]
  dsimp only
  rw [inBounds_readFront_bind, and_iff_left (inBounds_ok _), part, List.drop_zero]
  simp only [List.length_drop]
  omega

theorem FileManager.inBounds_decodeNewFile {data : Bytes} :
    InBounds (decodeNewFile data) ↔ HoldsString 0 8 data := by
  rw [decodeNewFile, HoldsString, inBounds_readFront_bind, inBounds_readString_bind]
  dsimp only
  rw [inBounds_readFront_bind, and_iff_left (inBounds_ok _), part, List.drop_zero]
  simp only [List.length_drop]
  omega

/-! ## The frames on the wire -/

/-- The size of the message that comes first is read exactly, and if the message is there, it
has a header. -/
def FrameFits (schedule : Socket.Schedule) (wire : Bytes) : Prop :=
  (wire.length ≤ Socket.lengthSize ∨ Socket.AddsUp schedule.lengthCalls) ∧
    ∀ frame rest, Socket.takeFrame wire = some (frame, rest) → Message.headerSize ≤ frame.length

/-- The message that comes first on the wire, and what is behind it. -/
def firstMessage (wire : Bytes) : Option (Message × Bytes) :=
  match Socket.takeFrame wire with
  | none => none
  | some (frame, rest) =>
      match Message.ofBytes frame with
      | .error _ => none
      | .ok msg => some (msg, rest)

theorem length_lt_of_firstMessage {wire rest : Bytes} {msg : Message}
    (hfirst : firstMessage wire = some (msg, rest)) : rest.length < wire.length := by
  unfold firstMessage at hfirst
  split at hfirst
  next => exact absurd hfirst.symm (Option.some_ne_none _)
  next frame rest' hframe =>
    split at hfirst
    next => exact absurd hfirst.symm (Option.some_ne_none _)
    next =>
      obtain ⟨-, rfl⟩ := Prod.mk.inj (Option.some.inj hfirst)
      unfold Socket.takeFrame at hframe
      dsimp only at hframe
      split at hframe
      next hwhole =>
        obtain ⟨-, rfl⟩ := Prod.mk.inj (Option.some.inj hframe)
        have hsize : Socket.lengthSize = 8 := rfl
        rw [List.length_drop, List.length_drop]
        omega
      next => exact absurd hframe.symm (Option.some_ne_none _)

/-- Receiving a message and going on with it. -/
theorem inBounds_receive_bind {α : Type} {schedule : Socket.Schedule} {wire : Bytes}
    {f : Option Message × Bytes → Except Fault α} (hnone : ∀ rest, InBounds (f (none, rest))) :
    InBounds (Socket.receive schedule wire >>= f) ↔ FrameFits schedule wire ∧
      ∀ msg rest, firstMessage wire = some (msg, rest) → InBounds (f (some msg, rest)) := by
  obtain ⟨hexact, hbeyond⟩ := Socket.receive_cases schedule wire
  unfold FrameFits
  by_cases hread : wire.length ≤ Socket.lengthSize ∨ Socket.AddsUp schedule.lengthCalls
  · rw [and_iff_right hread]
    obtain ⟨hframe, hend⟩ := hexact hread
    unfold firstMessage
    cases htake : Socket.takeFrame wire with
    | none =>
        refine iff_of_true ?_ ⟨fun frame rest hsome => ?_, fun msg rest hsome => ?_⟩
        rotate_left
        · exact absurd hsome.symm (Option.some_ne_none _)
        · exact absurd hsome.symm (Option.some_ne_none _)
        rcases hend htake with ⟨rest, hreceive⟩ | hreceive
        · rw [hreceive]
          exact hnone rest
        · rw [hreceive]
          simp [InBounds]
    | some first =>
        obtain ⟨frame, rest⟩ := first
        rw [hframe frame rest htake]
        dsimp only
        by_cases hshort : frame.length < Message.headerSize
        · have hdecode : Message.ofBytes frame = .error .outOfBounds := if_pos hshort
          rw [hdecode]
          exact iff_of_false (fun h => h rfl)
            fun h => absurd (h.1 frame rest rfl) (Nat.not_le.mpr hshort)
        · obtain ⟨msg, hdecode⟩ : ∃ msg, Message.ofBytes frame = .ok msg := ⟨_, if_neg hshort⟩
          rw [hdecode]
          constructor
          · intro hbound
            constructor
            · intro frame' rest' hsome
              obtain ⟨rfl, -⟩ := Prod.mk.inj (Option.some.inj hsome)
              exact Nat.not_lt.mp hshort
            · intro msg' rest' hsome
              obtain ⟨rfl, rfl⟩ := Prod.mk.inj (Option.some.inj hsome)
              exact hbound
          · rintro ⟨-, hrest⟩
            exact hrest msg rest rfl
  · rw [hbeyond hread]
    exact iff_of_false (fun h => h rfl) fun h => hread h.1.1

/-! ## Whole connections -/

namespace FileUploader

/-- After a message, the state in which the loop of `receiveFile` goes on. -/
def next (described : Bool) (msg : Message) : Option Bool :=
  match msg.command with
  | some .upFileMeta =>
      if Socket.maxVector ≤ ofLE (part msg.data 0 8) then none else some true
  | some .upFileData =>
      if blockSize < msg.data.length ∨ described = false then none else some described
  | some .upFileEnd => none
  | _ => some described

theorem decodeMeta_eq_ok_iff {data : Bytes} : (∃ file, decodeMeta data = .ok file) ↔
    HoldsString 0 16 data ∧ ¬ Socket.maxVector ≤ ofLE (part data 0 8) := by
  rw [decodeMeta, HoldsString, exists_readFront_bind, part, List.drop_zero]
  dsimp only
  unfold readString
  split
  next hhuge =>
    refine iff_of_false ?_ fun h => h.2 hhuge
    rintro ⟨_, _, hrun⟩
    exact absurd hrun (by simp)
  next hsize =>
    rw [exists_readFront_bind]
    dsimp only
    rw [exists_readFront_bind]
    dsimp only
    rw [exists_readFront_bind]
    simp only [List.length_drop, Except.ok.injEq, exists_eq', and_true]
    omega

theorem inBounds_decodeMessage {again : Bool → Except Fault (List Decoded)} {described : Bool}
    {msg : Message} : InBounds (decodeMessage again described msg) ↔
      (msg.command = some .upFileMeta → HoldsString 0 16 msg.data) ∧
        ∀ described', next described msg = some described' → InBounds (again described') := by
  unfold decodeMessage next
  cases hcmd : msg.command with
  | none => simp
  | some cmd =>
      cases cmd
      case upFileMeta =>
        rw [inBounds_bind, inBounds_decodeMeta]
        dsimp only
        constructor
        · rintro ⟨hholds, hrest⟩
          refine ⟨fun _ => hholds, fun described' hnext => ?_⟩
          split at hnext
          next => exact absurd hnext.symm (Option.some_ne_none _)
          next hsize =>
            obtain rfl := Option.some.inj hnext
            obtain ⟨file, hfile⟩ := decodeMeta_eq_ok_iff.mpr ⟨hholds, hsize⟩
            exact inBounds_map.mp (hrest file hfile)
        · rintro ⟨hholds, hrest⟩
          refine ⟨hholds rfl, fun file hfile => ?_⟩
          have hsize := (decodeMeta_eq_ok_iff.mp ⟨file, hfile⟩).2
          exact inBounds_map.mpr (hrest true (if_neg hsize))
      case upFileData =>
        dsimp only
        split
        next => simp
        next => simp [inBounds_map]
      case upFileEnd => simp
      all_goals simp

/-- The messages of an upload, from number `k` of the connection on, up to the one at which the
loop ends, have a header, and those with the facts about a file have the name they announce. -/
inductive Fits (schedules : Nat → Socket.Schedule) : Nat → Bool → Bytes → Prop
  | intro {k : Nat} {described : Bool} {wire : Bytes} (hframe : FrameFits (schedules k) wire)
      (hmeta : ∀ msg rest, firstMessage wire = some (msg, rest) → msg.command = some .upFileMeta →
        HoldsString 0 16 msg.data)
      (hrest : ∀ msg rest described', firstMessage wire = some (msg, rest) →
        next described msg = some described' → Fits schedules (k + 1) described' rest) :
      Fits schedules k described wire

theorem inBounds_decodeFile {schedules : Nat → Socket.Schedule} {fuel k : Nat} {described : Bool}
    {wire : Bytes} (hfuel : wire.length < fuel) :
    InBounds (decodeFile schedules fuel k described wire) ↔ Fits schedules k described wire := by
  induction fuel generalizing k described wire with
  | zero => exact absurd hfuel (Nat.not_lt_zero _)
  | succ fuel ih =>
      have hagain {msg : Message} {rest : Bytes} (hfirst : firstMessage wire = some (msg, rest))
          (described' : Bool) : InBounds (decodeFile schedules fuel (k + 1) described' rest) ↔
            Fits schedules (k + 1) described' rest :=
        ih (Nat.lt_of_lt_of_le (length_lt_of_firstMessage hfirst) (Nat.le_of_lt_succ hfuel))
      rw [decodeFile, inBounds_receive_bind (by exact fun rest => inBounds_ok _)]
      constructor
      · rintro ⟨hframe, hmessage⟩
        have hmessage := fun msg rest hfirst => inBounds_decodeMessage.mp (hmessage msg rest hfirst)
        exact .intro hframe (fun msg rest hfirst => (hmessage msg rest hfirst).1)
          fun msg rest described' hfirst hnext =>
            (hagain hfirst described').mp ((hmessage msg rest hfirst).2 described' hnext)
      · rintro ⟨hframe, hmeta, hrest⟩
        exact ⟨hframe, fun msg rest hfirst => inBounds_decodeMessage.mpr
          ⟨hmeta msg rest hfirst, fun described' hnext =>
            (hagain hfirst described').mpr (hrest msg rest described' hfirst hnext)⟩⟩

end FileUploader

/-- The payload is as long as the handler takes it to be. -/
def Router.Fits (cmd : MessageCmd) (data : Bytes) : Prop :=
  match cmd with
  | .updateMachineIDMax | .checkRepeatMachineID => HoldsString 4 0 data
  | _ => True

theorem Router.inBounds_decode_iff {cmd : MessageCmd} {data : Bytes} :
    InBounds (decode cmd data) ↔ Fits cmd data := by
  cases cmd
  case updateMachineIDMax => exact inBounds_decodeAddress
  case checkRepeatMachineID => exact inBounds_decodeAddress
  all_goals exact iff_of_true (inBounds_ok _) trivial

/-- The payload, or the messages behind it, are as long as the handler takes them to be. -/
def FileManager.Fits (schedules : Nat → Socket.Schedule) (cmd : MessageCmd) (data rest : Bytes) :
    Prop :=
  match cmd with
  | .upFileStart => FileUploader.Fits schedules 1 false rest
  | .requestFile | .requestList | .newDir | .rmDir | .rmFile => FrameFits (schedules 1) rest
  | .broadcastNewFile => HoldsString 0 8 data
  | _ => True

theorem FileManager.inBounds_decode_iff {schedules : Nat → Socket.Schedule} {cmd : MessageCmd}
    {data rest : Bytes} : InBounds (decode schedules cmd data rest) ↔ Fits schedules cmd data rest := by
  have hsecond : InBounds (decode schedules .requestFile data rest) ↔ FrameFits (schedules 1) rest := by
    rw [decode, inBounds_receive_bind (by exact fun rest => by simp [InBounds])]
    exact and_iff_left fun msg rest _ => inBounds_ok _
  cases cmd
  case upFileStart => exact FileUploader.inBounds_decodeFile (Nat.lt_succ_self _)
  case requestFile => exact hsecond
  case requestList => exact hsecond
  case newDir => exact hsecond
  case rmDir => exact hsecond
  case rmFile => exact hsecond
  case broadcastNewFile => exact inBounds_map.trans inBounds_decodeNewFile
  all_goals exact iff_of_true (inBounds_ok _) trivial

namespace Dispatcher

/-- The payload of the first message, and what its handler goes on to receive, are as long as
the handler takes them to be. -/
def Fits (available : BlockID → Bool) (schedules : Nat → Socket.Schedule) (msg : Message)
    (rest : Bytes) : Prop :=
  match msg.kind, msg.command with
  | some .router, some cmd => Router.Fits cmd msg.data
  | some .block, some cmd => BlockManager.Fits available cmd msg.data
  | some .file, some cmd => FileManager.Fits schedules cmd msg.data rest
  | _, _ => True

/-- Whatever bytes arrive on a connection, nothing outside the messages is read exactly if every
frame that is received has a header and its payload is as long as the handler of the command
takes it to be: nothing checks this. -/
theorem dispatch_ne_outOfBounds_iff (available : BlockID → Bool)
    (schedules : Nat → Socket.Schedule) (wire : Bytes) :
    dispatch available schedules wire ≠ .error .outOfBounds ↔ FrameFits (schedules 0) wire ∧
      ∀ msg rest, firstMessage wire = some (msg, rest) → Fits available schedules msg rest := by
  have hmessage (msg : Message) (rest : Bytes) : InBounds (match msg.kind, msg.command with
      | some .router, some cmd => do
          let decoded ← Router.decode cmd msg.data
          .ok [decoded]
      | some .block, some cmd => do
          let decoded ← BlockManager.decode available cmd msg.data
          .ok [decoded]
      | some .file, some cmd => FileManager.decode schedules cmd msg.data rest
      | _, _ => .ok []) ↔ Fits available schedules msg rest := by
    unfold Fits
    split
    next => exact inBounds_map.trans Router.inBounds_decode_iff
    next => exact inBounds_map.trans BlockManager.inBounds_decode_iff
    next => exact FileManager.inBounds_decode_iff
    next => exact iff_of_true (inBounds_ok _) trivial
  change InBounds (dispatch available schedules wire) ↔ _
  rw [dispatch, inBounds_receive_bind (by exact fun rest => inBounds_ok _)]
  exact and_congr_right' (forall₃_congr fun msg rest _ => hmessage msg rest)

/-- A frame of a single byte: the constructor of `Message` reads a header all the same. -/
theorem not_forall_dispatch : ¬ ∀ (available : BlockID → Bool)
    (schedules : Nat → Socket.Schedule) (wire : Bytes),
      dispatch available schedules wire ≠ .error .outOfBounds := by
  intro h
  exact h (fun _ => true) (fun _ => ⟨[], []⟩) (le 8 1 ++ [0]) (by decide)

end Dispatcher

end Doopey
