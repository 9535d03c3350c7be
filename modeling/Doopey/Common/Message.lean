import Doopey.Foundation.Bytes
import Doopey.Common.Base

/-!
# Messages

A message is a header of five four-byte numbers and a payload. The two
enumerations are stored as whatever number they hold, so that a received message
may carry a type or a command without a name.
-/

namespace Doopey

open Foundation

/-- `enum MessageType` -/
inductive MessageType
  | none | file | router | block | machine
  deriving DecidableEq, Repr

/-- `enum MessageCmd` -/
inductive MessageCmd
  | none
  | upFileStart | upFileMeta | upFileData | upFileEnd | requestFile | requestList
  | newDir | rmDir | rmFile | fileACK | fileError | fileUploadRepeat
  | broadcastNewFile | broadcastNewDir | broadcastRmFile | broadcastRmDir
  | routerACK | neighborInit | machineIDMax | updateMachineIDMax | requestRoutingTable
  | checkRepeatMachineID
  | blockACK | requestBlockLocation | requestBlockLocationACK | requestBlockData
  | checkBlockAlive | doReplica | updateReplica | copyBlockFromRemote | doDelete | deleteBlock
  | sysInfoACK | requestSysInfoMem | requestSysInfoDisk
  deriving DecidableEq, Repr

/-- The number of a type. -/
def MessageType.code (type : MessageType) : UInt32 := .ofNat type.ctorIdx

/-- The number of a command; the enumeration counts up from `0`. -/
def MessageCmd.code (cmd : MessageCmd) : UInt32 := .ofNat cmd.ctorIdx

/-- `class Message` -/
@[ext] structure Message where
  type : UInt32
  cmd : UInt32
  src : MachineID
  dest : MachineID
  hash : UInt32
  data : Bytes
  deriving DecidableEq

namespace Message

/-- `Message::Message(MessageType, MessageCmd)` -/
def new (type : MessageType) (cmd : MessageCmd) : Message :=
  { type := type.code, cmd := cmd.code, src := 0, dest := 0, hash := 0, data := [] }

/-- `Message::addData` behind the data that is there already. -/
def addData (msg : Message) (data : Bytes) : Message := { msg with data := msg.data ++ data }

/-- The message carries a command. -/
def Is (msg : Message) (cmd : MessageCmd) : Prop := msg.cmd = cmd.code

instance (msg : Message) (cmd : MessageCmd) : Decidable (msg.Is cmd) :=
  inferInstanceAs (Decidable (_ = _))

/-- No two commands have the same number. -/
theorem code_injective : Function.Injective MessageCmd.code := by
  intro cmd cmd' hcode
  have hlt : ∀ cmd : MessageCmd, cmd.ctorIdx < 2 ^ 32 := by
    intro cmd
    cases cmd <;> decide
  have hidx := congrArg UInt32.toNat hcode
  rw [MessageCmd.code, MessageCmd.code, UInt32.toNat_ofNat', UInt32.toNat_ofNat',
    Nat.mod_eq_of_lt (hlt cmd), Nat.mod_eq_of_lt (hlt cmd')] at hidx
  rw [← MessageCmd.ofNat_ctorIdx cmd, hidx, MessageCmd.ofNat_ctorIdx]

theorem Is.eq {msg : Message} {cmd cmd' : MessageCmd} (h : msg.Is cmd) (h' : msg.Is cmd') :
    cmd = cmd' := code_injective (h.symm.trans h')

/-- The size of the header. -/
def headerSize : Nat := 20

/-- `Message::serilize` -/
def serilize (msg : Message) : Bytes :=
  le 4 msg.type.toNat ++ le 4 msg.cmd.toNat ++ le 4 msg.src.toNat ++ le 4 msg.dest.toNat ++
    le 4 msg.hash.toNat ++ msg.data

/-- `Message::Message(const vector<unsigned char>&)`, which reads the header
whether or not the data is that long. -/
def ofBytes (data : Bytes) : Except Fault Message :=
  if data.length < headerSize then .error .outOfBounds
  else .ok {
    type := .ofNat (ofLE (data.take 4))
    cmd := .ofNat (ofLE ((data.drop 4).take 4))
    src := .ofNat (ofLE ((data.drop 8).take 4))
    dest := .ofNat (ofLE ((data.drop 12).take 4))
    hash := .ofNat (ofLE ((data.drop 16).take 4))
    data := data.drop 20 }

@[simp] theorem length_serilize (msg : Message) :
    msg.serilize.length = headerSize + msg.data.length := by
  simp [serilize, headerSize]
  omega

theorem ofLE_uint32 (n : UInt32) (rest : Bytes) :
    UInt32.ofNat (ofLE ((le 4 n.toNat ++ rest).take 4)) = n := by
  rw [ofLE_take_append n.toNat_lt, UInt32.ofNat_toNat]

/-- Decoding an encoded message gives the message back. -/
theorem ofBytes_serilize (msg : Message) : ofBytes msg.serilize = .ok msg := by
  have hdrop (width n : Nat) (rest : Bytes) : (le width n ++ rest).drop width = rest :=
    List.drop_left' (length_le width n)
  have hlong : ¬ msg.serilize.length < headerSize := by
    rw [length_serilize]
    omega
  have hdrop4 : ∀ k (bytes : Bytes), bytes.drop (k + 4) = (bytes.drop k).drop 4 := by
    intro k bytes
    rw [List.drop_drop]
  rw [ofBytes, if_neg hlong]
  simp only [serilize, List.append_assoc]
  congr 1
  ext1
  · exact ofLE_uint32 ..
  · rw [hdrop]
    exact ofLE_uint32 ..
  · rw [hdrop4 4, hdrop, hdrop]
    exact ofLE_uint32 ..
  · rw [hdrop4 8, hdrop4 4, hdrop, hdrop, hdrop]
    exact ofLE_uint32 ..
  · rw [hdrop4 12, hdrop4 8, hdrop4 4, hdrop, hdrop, hdrop, hdrop]
    exact ofLE_uint32 ..
  · rw [hdrop4 16, hdrop4 12, hdrop4 8, hdrop4 4, hdrop, hdrop, hdrop, hdrop, hdrop]

end Message

end Doopey
