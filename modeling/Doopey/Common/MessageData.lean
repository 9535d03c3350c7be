import Doopey.Common.Socket
import Doopey.Foundation.Buffer

/-!
# Building a message

A message is built by setting fields of its header and by writing to its data at any
offset. Whatever was written, the encoding of a message is decoded to the message; and every
sequence of bytes that is long enough for a header is the encoding of the message it is
decoded to.
-/

namespace Doopey

open Foundation

/-- A call of a member function that changes a message; `append` is `addData` without an
offset. -/
inductive MessageCall
  | setSrc (id : MachineID)
  | setDest (id : MachineID)
  | setHash (hash : UInt32)
  | addData (data : Bytes) (s : UInt64)
  | append (data : Bytes)

namespace Message

/-- `Message::addData(data, s, len)`. The sum of `s` and `len` is a `size_t`, `resize` throws
where a vector cannot be that long, and `memcpy` does not look at the size. -/
def addDataAt (msg : Message) (data : Bytes) (s : UInt64) : Except Fault Message := do
  let stop := (s.toNat + data.length) % 2 ^ 64
  let resized ←
    if stop < msg.data.length then .ok msg.data
    else if Socket.maxVector ≤ stop then .error .outOfRange
    else .ok (msg.data.rightpad stop 0)
  if resized.length < s.toNat + data.length then .error .outOfBounds
  else .ok { msg with data := overwrite resized s.toNat data }

def call (msg : Message) : MessageCall → Except Fault Message
  | .setSrc id => .ok { msg with src := id }
  | .setDest id => .ok { msg with dest := id }
  | .setHash hash => .ok { msg with hash := hash }
  | .addData data s => msg.addDataAt data s
  | .append data => msg.addDataAt data (.ofNat msg.data.length)

/-- What the data is after `new` has been written from `s` on. -/
structure Written (old : Bytes) (s : Nat) (new data : Bytes) : Prop where
  length : data.length = max old.length (s + new.length)
  written : part data s new.length = new
  kept (i : Nat) : i < old.length → i < s ∨ s + new.length ≤ i → data[i]? = old[i]?
  gap (i : Nat) : old.length ≤ i → i < s → data[i]? = some 0

/-- A write into a vector that is as long as it has to be. -/
theorem written_overwrite (old new : Bytes) (s : Nat) :
    Written old s new (overwrite (old.rightpad (s + new.length) 0) s new) := by
  have hpad : (old.rightpad (s + new.length) 0).length = max old.length (s + new.length) := by
    rw [List.rightpad, List.length_append, List.length_replicate]
    omega
  have hinside : s + new.length ≤ (old.rightpad (s + new.length) 0).length := by
    rw [hpad]
    exact Nat.le_max_right _ _
  refine ⟨?_, part_overwrite hinside, fun i hi hout => ?_, fun i hi hgap => ?_⟩
  · rw [length_overwrite hinside, hpad]
  · rw [getElem?_overwrite hinside, if_neg (by omega), List.rightpad, List.getElem?_append_left hi]
  · rw [getElem?_overwrite hinside, if_neg (by omega), List.rightpad, List.getElem?_append_right hi,
      List.getElem?_replicate, if_pos (by omega)]

/-- A vector that is long enough is not padded. -/
theorem rightpad_of_le {data : Bytes} {size : Nat} (hle : size ≤ data.length) :
    data.rightpad size 0 = data := by
  rw [List.rightpad, Nat.sub_eq_zero_of_le hle, List.replicate_zero, List.append_nil]

/-- A write that ends where a vector can end. -/
theorem addDataAt_of_lt {msg : Message} {data : Bytes} {s : UInt64}
    (hend : s.toNat + data.length < Socket.maxVector) :
    msg.addDataAt data s = .ok { msg with
      data := overwrite (msg.data.rightpad (s.toNat + data.length) 0) s.toNat data } := by
  have hmod : (s.toNat + data.length) % 2 ^ 64 = s.toNat + data.length :=
    Nat.mod_eq_of_lt (Nat.lt_trans hend (by decide))
  have hlong : ¬ (msg.data.rightpad (s.toNat + data.length) 0).length < s.toNat + data.length := by
    rw [List.rightpad, List.length_append, List.length_replicate]
    omega
  rw [addDataAt, hmod]
  dsimp only
  by_cases hinside : s.toNat + data.length < msg.data.length
  · rw [rightpad_of_le (Nat.le_of_lt hinside)] at hlong ⊢
    rw [if_pos hinside, ok_bind, if_neg hlong]
  · rw [if_neg hinside, if_neg (Nat.not_le.mpr hend), ok_bind, if_neg hlong]

/-- No other write returns. -/
theorem addDataAt_of_ge {msg : Message} (hsize : msg.data.length < Socket.maxVector) {data : Bytes}
    {s : UInt64} (hend : Socket.maxVector ≤ s.toNat + data.length) :
    ∃ fault, msg.addDataAt data s = .error fault := by
  rw [addDataAt]
  dsimp only
  split
  next => exact ⟨_, if_pos (Nat.lt_of_lt_of_le hsize hend)⟩
  next =>
    split
    next => exact ⟨_, rfl⟩
    next hpad hstop =>
      refine ⟨_, if_pos ?_⟩
      rw [List.rightpad, List.length_append, List.length_replicate]
      omega

/-- A write at the end of the data. -/
theorem addDataAt_length {msg : Message} {data : Bytes}
    (hend : msg.data.length + data.length < Socket.maxVector) :
    msg.addDataAt data (.ofNat msg.data.length) = .ok (msg.addData data) := by
  have hs : (UInt64.ofNat msg.data.length).toNat = msg.data.length :=
    UInt64.toNat_ofNat_of_lt' (by
      have : Socket.maxVector < UInt64.size := by decide
      omega)
  rw [addDataAt_of_lt (hs.symm ▸ hend), hs, List.rightpad, overwrite_append]
  simp [addData]

theorem le_uint32 {bytes : Bytes} (hlength : bytes.length = 4) :
    le 4 (UInt32.ofNat (ofLE bytes)).toNat = bytes := by
  have hlt : ofLE bytes < UInt32.size := by
    have hbound := ofLE_lt bytes
    rw [hlength] at hbound
    exact hbound
  rw [UInt32.toNat_ofNat_of_lt' hlt, ← hlength]
  exact le_ofLE bytes

/-- What was decoded is encoded to the bytes it came from. -/
theorem serilize_of_ofBytes {bytes : Bytes} {msg : Message} (hdecode : ofBytes bytes = .ok msg) :
    msg.serilize = bytes := by
  unfold ofBytes at hdecode
  split at hdecode
  next => exact nomatch hdecode
  next hlong =>
    have hlong : 20 ≤ bytes.length := Nat.le_of_not_lt hlong
    have hpart (k : Nat) (hk : k ≤ 16) :
        le 4 (UInt32.ofNat (ofLE ((bytes.drop k).take 4))).toNat = (bytes.drop k).take 4 := by
      apply le_uint32
      rw [List.length_take, List.length_drop]
      omega
    have hsplit (k : Nat) : (bytes.drop k).take 4 ++ bytes.drop (k + 4) = bytes.drop k := by
      rw [← List.drop_drop]
      exact List.take_append_drop 4 _
    obtain rfl := Except.ok.inj hdecode
    have hfirst := hpart 0 (by decide)
    rw [List.drop_zero] at hfirst
    rw [serilize]
    dsimp only
    rw [hfirst, hpart 4 (by decide), hpart 8 (by decide), hpart 12 (by decide), hpart 16 (by decide)]
    simp only [List.append_assoc]
    rw [hsplit 16, hsplit 12, hsplit 8, hsplit 4, List.take_append_drop]

/-- Every call keeps the type and the command, and leaves a vector. -/
theorem call_spec {msg msg' : Message} (hsize : msg.data.length < Socket.maxVector)
    {call : MessageCall} (hrun : msg.call call = .ok msg') :
    msg'.type = msg.type ∧ msg'.cmd = msg.cmd ∧ msg'.data.length < Socket.maxVector := by
  have hwrite {data : Bytes} {s : UInt64} (hrun : msg.addDataAt data s = .ok msg') :
      msg'.type = msg.type ∧ msg'.cmd = msg.cmd ∧ msg'.data.length < Socket.maxVector := by
    rcases Nat.lt_or_ge (s.toNat + data.length) Socket.maxVector with hend | hend
    · rw [addDataAt_of_lt hend] at hrun
      obtain rfl := Except.ok.inj hrun
      refine ⟨rfl, rfl, ?_⟩
      rw [(written_overwrite msg.data data s.toNat).length]
      exact Nat.max_lt.mpr ⟨hsize, hend⟩
    · obtain ⟨fault, herror⟩ := addDataAt_of_ge hsize hend
      exact nomatch herror.symm.trans hrun
  cases call with
  | setSrc id =>
      obtain rfl := Except.ok.inj hrun
      exact ⟨rfl, rfl, hsize⟩
  | setDest id =>
      obtain rfl := Except.ok.inj hrun
      exact ⟨rfl, rfl, hsize⟩
  | setHash hash =>
      obtain rfl := Except.ok.inj hrun
      exact ⟨rfl, rfl, hsize⟩
  | addData data s => exact hwrite hrun
  | append data => exact hwrite hrun

/-- Encoding and decoding are inverse: on every message that calls have built, each write of
which returns exactly if a vector can be that long, and on every sequence of bytes that has a
header. -/
theorem serilize_ofBytes_inverse :
    (∀ (type : MessageType) (cmd : MessageCmd) (calls : List MessageCall) (msg : Message),
      calls.foldlM call (new type cmd) = .ok msg →
      msg.type = type.code ∧ msg.cmd = cmd.code ∧ ofBytes msg.serilize = .ok msg ∧
        (∀ data s, s.toNat + data.length < Socket.maxVector →
          ∃ written, msg.call (.addData data s) = .ok { msg with data := written } ∧
            Written msg.data s.toNat data written) ∧
        (∀ data, msg.data.length + data.length < Socket.maxVector →
          msg.call (.append data) = .ok { msg with data := msg.data ++ data }) ∧
        ∀ data s, Socket.maxVector ≤ s.toNat + data.length →
          ∃ fault, msg.call (.addData data s) = .error fault) ∧
    ∀ bytes, headerSize ≤ bytes.length → ∃ msg, ofBytes bytes = .ok msg ∧ msg.serilize = bytes := by
  constructor
  · intro type cmd calls msg hrun
    have hempty : (new type cmd).data.length < Socket.maxVector := Nat.two_pow_pos 63
    obtain ⟨htype, hcmd, hsize⟩ := foldlM_invariant
      (fun msg : Message => msg.type = type.code ∧ msg.cmd = cmd.code ∧ msg.data.length < Socket.maxVector)
      (fun msg call msg' hinv hcall => by
        obtain ⟨htype, hcmd, hsize⟩ := call_spec hinv.2.2 hcall
        exact ⟨htype.trans hinv.1, hcmd.trans hinv.2.1, hsize⟩)
      ⟨rfl, rfl, hempty⟩ hrun
    refine ⟨htype, hcmd, ofBytes_serilize msg, fun data s hend => ?_, fun data hend => ?_,
      fun data s hend => addDataAt_of_ge hsize hend⟩
    · exact ⟨_, addDataAt_of_lt hend, written_overwrite msg.data data s.toNat⟩
    · exact addDataAt_length hend
  · intro bytes hlong
    have hdecode : ∃ msg, ofBytes bytes = .ok msg := ⟨_, if_neg (Nat.not_lt.mpr hlong)⟩
    obtain ⟨msg, hdecode⟩ := hdecode
    exact ⟨msg, hdecode, serilize_of_ofBytes hdecode⟩

end Message

end Doopey
