import Mathlib.Algebra.Ring.Nat
import Mathlib.Data.List.Forall2
import Doopey.Foundation.Except
import Doopey.Common.Message

/-!
# Sending and receiving messages over a byte stream

`Socket::send` writes the size of a message in eight bytes and then the message,
`Socket::receive` reads the two back. Both sides do so in loops over calls of
`write` and `read`, which may transfer fewer bytes than requested.

The loops for the size always request eight bytes, however many are missing. A
call that takes up the request then goes beyond the variable that holds the size;
this is an access out of bounds. The loops for the body are right whatever the
calls transfer.
-/

namespace Doopey

open Foundation

namespace Socket

/-- The counts that successive calls of `write` or `read` transfer if they can;
what is beyond the end of the list is transferred in full. -/
abbrev Calls := List Nat

/-- How many bytes the next call transfers out of `requested`, at least one of
them unless none is requested, and the calls behind it. -/
def transfer (calls : Calls) (requested : Nat) : Nat × Calls :=
  match calls with
  | [] => (requested, [])
  | count :: calls => (min (max count 1) requested, calls)

/-- `sizeof(uint64_t)` -/
def lengthSize : Nat := 8

/-- `Socket::sliceSize` -/
def sliceSize : Nat := 65536

/-- The size that the loops over the body request. -/
def slice (len count : Nat) : Nat := if count + sliceSize > len then len - count else sliceSize

/-- The largest vector of bytes. -/
def maxVector : Nat := 2 ^ 63

/-! ## The loops

Every loop makes at least one call, and each call of a loop makes progress, so
that its bound on the number of steps is never reached.
-/

/-- The loop of `send` over the eight bytes of the size. -/
def sendLength (len : Bytes) : Nat → Calls → Nat → Except Fault Bytes
  | 0, _, _ => .error .divergence
  | fuel + 1, calls, count => do
      let (ret, calls) := transfer calls lengthSize
      -- the call was asked for eight bytes, however many were missing
      if lengthSize < count + ret then .error .outOfBounds
      else
        let written := (len.drop count).take ret
        if count + ret < lengthSize then do
          let rest ← sendLength len fuel calls (count + ret)
          .ok (written ++ rest)
        else .ok written

/-- The loop of `send` over the body; nothing if a call fails. -/
def sendBody (data : Bytes) : Nat → Calls → Nat → Except Fault (Option Bytes)
  | 0, _, _ => .error .divergence
  | fuel + 1, calls, count => do
      let (ret, calls) := transfer calls (slice data.length count)
      if ret = 0 then .ok none
      else
        let written := (data.drop count).take ret
        if count + ret < data.length then do
          let rest ← sendBody data fuel calls (count + ret)
          .ok (rest.map (written ++ ·))
        else .ok (some written)

/-- A `read` that may transfer up to `requested` bytes of what is on the wire. -/
def readCall (calls : Calls) (requested : Nat) (wire : Bytes) : Bytes × Calls × Bytes :=
  let (ret, calls) := transfer calls (min requested wire.length)
  (wire.take ret, calls, wire.drop ret)

/-- The loop of `receive` over the size, which collects its bytes. -/
def receiveLength : Nat → Calls → Bytes → Bytes → Except Fault (Option Bytes × Bytes)
  | 0, _, _, _ => .error .divergence
  | fuel + 1, calls, len, wire => do
      let (bytes, calls, wire) := readCall calls lengthSize wire
      if bytes = [] then .ok (none, wire)
      else if lengthSize < len.length + bytes.length then .error .outOfBounds
      else if len.length + bytes.length < lengthSize then
        receiveLength fuel calls (len ++ bytes) wire
      else .ok (some (len ++ bytes), wire)

/-- The loop of `receive` over the body. -/
def receiveBody (len : Nat) : Nat → Calls → Bytes → Bytes → Except Fault (Option Bytes × Bytes)
  | 0, _, _, _ => .error .divergence
  | fuel + 1, calls, data, wire => do
      let (bytes, calls, wire) := readCall calls (slice len data.length) wire
      if bytes = [] then .ok (none, wire)
      else if data.length + bytes.length < len then
        receiveBody len fuel calls (data ++ bytes) wire
      else .ok (some (data ++ bytes), wire)

/-! ## The two ends -/

/-- The calls that the two loops of a `send` or a `receive` make. -/
structure Schedule where
  lengthCalls : Calls
  bodyCalls : Calls

/-- `Socket::send`: the bytes that are written, or nothing if a call fails. -/
def send (schedule : Schedule) (msg : Message) : Except Fault (Option Bytes) := do
  let data := msg.serilize
  let written ← sendLength (le lengthSize data.length) lengthSize schedule.lengthCalls 0
  let body ← sendBody data data.length schedule.bodyCalls 0
  .ok (body.map (written ++ ·))

/-- `Socket::receive`: the message, or nothing if a call fails, and what is left
on the wire. -/
def receive (schedule : Schedule) (wire : Bytes) : Except Fault (Option Message × Bytes) := do
  let (len, wire) ← receiveLength lengthSize schedule.lengthCalls [] wire
  match len with
  | none => .ok (none, wire)
  | some len =>
      let len := ofLE len
      -- `data.resize(len)` throws what nothing catches
      if maxVector ≤ len then .error .outOfRange
      else do
        let (data, wire) ← receiveBody len (len + 1) schedule.bodyCalls [] wire
        match data with
        | none => .ok (none, wire)
        | some data =>
            let msg ← Message.ofBytes data
            .ok (some msg, wire)

/-- Send messages one after the other; the result is what they put on the wire. -/
def sendAll : List (Message × Schedule) → Except Fault (Option Bytes)
  | [] => .ok (some [])
  | (msg, schedule) :: rest => do
      let written ← send schedule msg
      let wire ← sendAll rest
      .ok (do
        let written ← written
        let wire ← wire
        pure (written ++ wire))

/-- Receive messages one after the other, each with the bytes it was read from. -/
def receiveAll : List Schedule → Bytes → Except Fault (Option (List (Message × Bytes)) × Bytes)
  | [], wire => .ok (some [], wire)
  | schedule :: schedules, wire => do
      let (msg, rest) ← receive schedule wire
      match msg with
      | none => .ok (none, rest)
      | some msg => do
          let (messages, left) ← receiveAll schedules rest
          .ok (messages.map ((msg, wire.take (wire.length - rest.length)) :: ·), left)

/-- What a message should look like on the wire. -/
def frame (msg : Message) : Bytes := le lengthSize msg.serilize.length ++ msg.serilize

/-- The counts of the calls for the eight bytes of a size. -/
def lengthCounts (calls : Calls) : List Nat :=
  calls.map (fun count => min (max count 1) lengthSize) ++ [lengthSize]

/-- After `count` bytes, some of the calls in front transfer exactly the bytes of
the size that are missing. -/
def AddsUpFrom (calls : Calls) (count : Nat) : Prop :=
  ∃ k, count + ((lengthCounts calls).take k).sum = lengthSize

/-- Some of the calls in front transfer exactly the eight bytes of the size. -/
def AddsUp (calls : Calls) : Prop := ∃ k, ((lengthCounts calls).take k).sum = lengthSize

/-! ## The loops over the size -/

theorem transfer_length (calls : Calls) :
    ∃ ret rest, transfer calls lengthSize = (ret, rest) ∧ 1 ≤ ret ∧
      ∀ count, count < lengthSize → (AddsUpFrom calls count ↔ AddsUpFrom rest (count + ret)) := by
  have shift {first : Nat} {counts : List Nat} {count : Nat} (hcount : count < lengthSize) :
      (∃ k, count + ((first :: counts).take k).sum = lengthSize) ↔
        ∃ k, count + first + (counts.take k).sum = lengthSize := by
    constructor
    · rintro ⟨k, hk⟩
      cases k with
      | zero => simp at hk; omega
      | succ k => exact ⟨k, by simpa [Nat.add_assoc] using hk⟩
    · rintro ⟨k, hk⟩
      exact ⟨k + 1, by simpa [Nat.add_assoc] using hk⟩
  cases calls with
  | nil =>
      refine ⟨lengthSize, [], rfl, by decide, fun count hcount => ?_⟩
      unfold AddsUpFrom
      rw [lengthCounts, List.map_nil, List.nil_append, shift hcount]
      constructor
      · rintro ⟨k, hk⟩
        exact ⟨0, by simpa using hk⟩
      · rintro ⟨k, hk⟩
        exact ⟨0, by simp [lengthSize] at hk ⊢; omega⟩
  | cons first calls =>
      refine ⟨_, calls, rfl, by unfold lengthSize; omega, fun count hcount => ?_⟩
      exact shift hcount

/-- No calls make up for bytes beyond the size. -/
theorem not_addsUpFrom {calls : Calls} {count : Nat} (hcount : lengthSize < count) :
    ¬ AddsUpFrom calls count := by
  rintro ⟨k, hk⟩
  omega

theorem addsUpFrom_lengthSize (calls : Calls) : AddsUpFrom calls lengthSize := ⟨0, by simp⟩

/-- The loop of `send` writes what is missing of the size, or runs beyond it. -/
theorem sendLength_eq {len : Bytes} (hlen : len.length = lengthSize) (fuel : Nat) (calls : Calls)
    (count : Nat) (hcount : count < lengthSize) (hfuel : lengthSize ≤ count + fuel) :
    (AddsUpFrom calls count → sendLength len fuel calls count = .ok (len.drop count)) ∧
    (¬ AddsUpFrom calls count → sendLength len fuel calls count = .error .outOfBounds) := by
  induction fuel generalizing calls count with
  | zero => omega
  | succ fuel ih =>
      obtain ⟨ret, rest, htransfer, hret, hiff⟩ := transfer_length calls
      rw [hiff count hcount, sendLength, htransfer]
      dsimp only
      rcases Nat.lt_trichotomy (count + ret) lengthSize with hlt | heq | hgt
      · rw [if_neg (by omega), if_pos hlt]
        obtain ⟨ihExact, ihBeyond⟩ := ih rest (count + ret) hlt (by omega)
        refine ⟨fun hexact => ?_, fun hbeyond => ?_⟩
        · rw [ihExact hexact, ok_bind, ← List.drop_drop, List.take_append_drop]
        · rw [ihBeyond hbeyond, error_bind]
      · rw [if_neg (by omega), if_neg (by omega), heq]
        refine ⟨fun _ => ?_, fun hbeyond => absurd (addsUpFrom_lengthSize rest) hbeyond⟩
        rw [List.take_of_length_le]
        rw [List.length_drop]
        omega
      · rw [if_pos hgt]
        exact ⟨fun hexact => absurd hexact (not_addsUpFrom hgt), fun _ => rfl⟩

theorem transfer_bounds (calls : Calls) {requested : Nat} (hrequested : 1 ≤ requested) :
    ∃ ret rest, transfer calls requested = (ret, rest) ∧ 1 ≤ ret ∧ ret ≤ requested := by
  unfold transfer
  split
  next => exact ⟨requested, [], rfl, hrequested, Nat.le_refl _⟩
  next => exact ⟨_, _, rfl, by omega, Nat.min_le_right ..⟩

theorem transfer_of_le (calls : Calls) {requested : Nat} (hle : requested ≤ lengthSize) :
    transfer calls requested =
      (min (transfer calls lengthSize).1 requested, (transfer calls lengthSize).2) := by
  cases calls with
  | nil => rw [transfer, transfer, Nat.min_eq_right hle]
  | cons count calls =>
      rw [transfer, transfer]
      dsimp only
      rw [Nat.min_assoc, Nat.min_eq_right hle]

/-- What a call of `read` that does not meet the end of the wire takes from it. -/
theorem take_of_pos {wire : Bytes} {ret : Nat} (hpos : 0 < ret) (hle : ret ≤ wire.length) :
    (wire.take ret).length = ret ∧ wire.take ret ≠ [] := by
  have hbytes : (wire.take ret).length = ret := by rw [List.length_take, Nat.min_eq_left hle]
  refine ⟨hbytes, List.ne_nil_of_length_pos ?_⟩
  rwa [hbytes]

/-- The loop of `receive` over the size, whatever is on the wire: the wire ends within the
size, or the size is collected, or the loop runs beyond it. -/
theorem receiveLength_eq {fuel : Nat} {calls : Calls} {len wire : Bytes}
    (hcount : len.length < lengthSize) (hfuel : lengthSize ≤ len.length + fuel) :
    (len.length + wire.length < lengthSize →
      ∃ rest, receiveLength fuel calls len wire = .ok (none, rest)) ∧
    (lengthSize ≤ len.length + wire.length →
      len.length + wire.length = lengthSize ∨ AddsUpFrom calls len.length →
      receiveLength fuel calls len wire = .ok (some (len ++ wire.take (lengthSize - len.length)),
        wire.drop (lengthSize - len.length))) ∧
    (lengthSize < len.length + wire.length → ¬ AddsUpFrom calls len.length →
      receiveLength fuel calls len wire = .error .outOfBounds) := by
  induction fuel generalizing calls len wire with
  | zero => omega
  | succ fuel ih =>
      obtain ⟨full, calls', htransfer, hfull, hiff⟩ := transfer_length calls
      have hfull_le : full ≤ lengthSize := by
        obtain ⟨full', _, htransfer', -, hle⟩ := transfer_bounds calls (by decide : 1 ≤ lengthSize)
        rw [htransfer, Prod.mk.injEq] at htransfer'
        exact htransfer'.1 ▸ hle
      rw [hiff len.length hcount, receiveLength, readCall,
        transfer_of_le calls (Nat.min_le_left lengthSize wire.length), htransfer]
      dsimp only
      cases wire with
      | nil =>
          refine ⟨fun _ => ⟨_, if_pos List.take_nil⟩, fun hlong => ?_, fun hlong => ?_⟩
          · exact absurd hlong (Nat.not_le.mpr hcount)
          · exact absurd hlong (Nat.not_lt.mpr (Nat.le_of_lt hcount))
      | cons b wire =>
          generalize hret : min full (min lengthSize (b :: wire).length) = ret
          have hret_le : ret ≤ (b :: wire).length := by omega
          have hpos : 0 < ret := by
            rw [List.length_cons] at hret
            unfold lengthSize at hret
            omega
          obtain ⟨hbytes, hne⟩ := take_of_pos hpos hret_le
          rw [if_neg hne, hbytes]
          rcases Nat.lt_trichotomy (len.length + ret) lengthSize with hlt | heq | hgt
          · -- another round; the bytes that were read are counted on the other side
            rw [if_neg (by omega), if_pos hlt]
            have hlen : (len ++ (b :: wire).take ret).length = len.length + ret := by
              rw [List.length_append, hbytes]
            have htotal : (len ++ (b :: wire).take ret).length + ((b :: wire).drop ret).length =
                len.length + (b :: wire).length := by
              rw [hlen, List.length_drop]
              omega
            have hcollect : len ++ (b :: wire).take ret ++
                ((b :: wire).drop ret).take (lengthSize - (len.length + ret)) =
                  len ++ (b :: wire).take (lengthSize - len.length) := by
              rw [List.append_assoc, ← List.take_add]
              congr 2
              omega
            have hrest : ((b :: wire).drop ret).drop (lengthSize - (len.length + ret)) =
                (b :: wire).drop (lengthSize - len.length) := by
              rw [List.drop_drop]
              congr 1
              omega
            have hround := @ih calls' (len ++ (b :: wire).take ret) ((b :: wire).drop ret)
              (by omega) (by omega)
            rw [htotal, hlen, hcollect, hrest] at hround
            by_cases hall : ret = full
            · rwa [hall] at hround ⊢
            · -- everything is read, and it is less than the size
              have hshort : len.length + (b :: wire).length < lengthSize := by omega
              exact ⟨hround.1, fun hlong => absurd hlong (Nat.not_le.mpr hshort),
                fun hlong => absurd hlong (Nat.lt_asymm hshort)⟩
          · -- the size is there; if bytes are left, the call was not cut short by the wire
            rw [if_neg (by omega), if_neg (by omega)]
            have hmissing : lengthSize - len.length = ret := by omega
            refine ⟨fun hshort => by omega, fun _ _ => by rw [hmissing], fun hlong hbeyond => ?_⟩
            have hall : len.length + full = lengthSize := by omega
            rw [hall] at hbeyond
            exact absurd (addsUpFrom_lengthSize calls') hbeyond
          · -- the calls that follow only add to what is too much already
            rw [if_pos hgt]
            refine ⟨fun hshort => by omega, fun _ hexact => ?_, fun _ _ => rfl⟩
            have hbeyond : ¬ AddsUpFrom calls' (len.length + full) := not_addsUpFrom (by omega)
            rcases hexact with heq | hexact
            · omega
            · exact absurd hexact hbeyond

/-! ## The loops over the body -/

theorem slice_bounds {len count : Nat} (hcount : count < len) :
    1 ≤ slice len count ∧ slice len count ≤ len - count := by
  unfold slice sliceSize
  split <;> omega

/-- The loop of `send` writes the rest of the body. -/
theorem sendBody_eq {data : Bytes} {fuel : Nat} (calls : Calls) {count : Nat}
    (hcount : count < data.length) (hfuel : data.length ≤ count + fuel) :
    sendBody data fuel calls count = .ok (some (data.drop count)) := by
  induction fuel generalizing calls count with
  | zero => omega
  | succ fuel ih =>
      obtain ⟨hslice, hsliceLe⟩ := slice_bounds hcount
      obtain ⟨ret, rest, htransfer, hret, hretLe⟩ := transfer_bounds calls hslice
      rw [sendBody, htransfer]
      dsimp only
      rw [if_neg (by omega)]
      by_cases hlt : count + ret < data.length
      · rw [if_pos hlt, ih rest hlt (by omega), ok_bind, Option.map_some, ← List.drop_drop,
          List.take_append_drop]
      · rw [if_neg hlt, List.take_of_length_le]
        rw [List.length_drop]
        omega

/-- The loop of `receive` over the body, whatever is on the wire: the wire ends within the
body, or the body is collected. -/
theorem receiveBody_eq {size fuel : Nat} {calls : Calls} {data wire : Bytes}
    (hcount : data.length < size) (hfuel : size ≤ data.length + fuel) :
    (data.length + wire.length < size →
      ∃ rest, receiveBody size fuel calls data wire = .ok (none, rest)) ∧
    (size ≤ data.length + wire.length → receiveBody size fuel calls data wire =
      .ok (some (data ++ wire.take (size - data.length)), wire.drop (size - data.length))) := by
  induction fuel generalizing calls data wire with
  | zero => omega
  | succ fuel ih =>
      obtain ⟨hslice, hsliceLe⟩ := slice_bounds hcount
      rw [receiveBody, readCall]
      cases wire with
      | nil =>
          refine ⟨fun _ => ⟨_, if_pos List.take_nil⟩, fun hlong => ?_⟩
          exact absurd hlong (Nat.not_le.mpr hcount)
      | cons b wire =>
          obtain ⟨ret, calls', htransfer, hret, hretLe⟩ :=
            @transfer_bounds calls (min (slice size data.length) (b :: wire).length)
              (Nat.le_min.mpr ⟨hslice, Nat.succ_le_succ (Nat.zero_le _)⟩)
          obtain ⟨hretSlice, hretWire⟩ := Nat.le_min.mp hretLe
          obtain ⟨hbytes, hne⟩ := take_of_pos hret hretWire
          have hlen : (data ++ (b :: wire).take ret).length = data.length + ret := by
            rw [List.length_append, hbytes]
          rw [htransfer]
          dsimp only
          rw [if_neg hne, hbytes]
          by_cases hlt : data.length + ret < size
          · rw [if_pos hlt]
            have hround := @ih calls' (data ++ (b :: wire).take ret) ((b :: wire).drop ret)
              (by omega) (by omega)
            have htotal : data.length + ret + ((b :: wire).length - ret) =
                data.length + (b :: wire).length := by omega
            have hmissing : ret + (size - (data.length + ret)) = size - data.length := by omega
            rwa [hlen, List.length_drop, htotal, List.append_assoc, ← List.take_add, List.drop_drop,
              hmissing] at hround
          · rw [if_neg hlt]
            have hmissing : size - data.length = ret := by omega
            exact ⟨fun hshort => by omega, fun _ => by rw [hmissing]⟩

/-- An empty body: the call of `read` that the loop makes yields nothing. -/
theorem receiveBody_zero (fuel : Nat) (calls : Calls) (wire : Bytes) :
    receiveBody 0 (fuel + 1) calls [] wire = .ok (none, wire) := by
  obtain ⟨calls', htransfer⟩ : ∃ calls', transfer calls 0 = (0, calls') := by
    cases calls with
    | nil => exact ⟨[], rfl⟩
    | cons count calls => exact ⟨calls, congrArg (·, calls) (Nat.min_zero _)⟩
  have hslice : slice 0 0 = 0 := if_pos (by decide)
  rw [receiveBody, readCall, List.length_nil, hslice, Nat.zero_min, htransfer]
  rfl

/-! ## A message from one end to the other -/

theorem addsUp_iff (calls : Calls) : AddsUp calls ↔ AddsUpFrom calls 0 := by
  simp [AddsUp, AddsUpFrom]

theorem serilize_pos (msg : Message) : 0 < msg.serilize.length := by
  rw [Message.length_serilize, Message.headerSize]
  omega

/-- `send` puts a frame on the wire, or reads beyond the size it sends. -/
theorem send_eq (schedule : Schedule) (msg : Message) :
    (AddsUp schedule.lengthCalls → send schedule msg = .ok (some (frame msg))) ∧
    (¬ AddsUp schedule.lengthCalls → send schedule msg = .error .outOfBounds) := by
  obtain ⟨hexact, hbeyond⟩ := sendLength_eq (length_le lengthSize msg.serilize.length) lengthSize
    schedule.lengthCalls 0 (by decide) (by decide)
  rw [addsUp_iff]
  refine ⟨fun h => ?_, fun h => ?_⟩
  · have hbody : sendBody msg.serilize msg.serilize.length schedule.bodyCalls 0 =
        .ok (some msg.serilize) :=
      sendBody_eq schedule.bodyCalls (serilize_pos msg) (by omega)
    rw [send, hexact h, ok_bind, hbody]
    rfl
  · rw [send, hbeyond h, error_bind]

/-- The bytes of the message that comes first, and what is behind it, if the message is there
as a whole. -/
def takeFrame (wire : Bytes) : Option (Bytes × Bytes) :=
  let size := ofLE (wire.take lengthSize)
  let body := wire.drop lengthSize
  if lengthSize ≤ wire.length ∧ 0 < size ∧ size < maxVector ∧ size ≤ body.length then
    some (body.take size, body.drop size)
  else none

/-- `receive` on any wire: it decodes the frame that comes first, and nothing if there is none;
or it writes beyond the size it receives. -/
theorem receive_cases (schedule : Schedule) (wire : Bytes) :
    (wire.length ≤ lengthSize ∨ AddsUp schedule.lengthCalls →
      (∀ frame rest, takeFrame wire = some (frame, rest) →
        receive schedule wire = Message.ofBytes frame >>= fun msg => .ok (some msg, rest)) ∧
      (takeFrame wire = none → (∃ rest, receive schedule wire = .ok (none, rest)) ∨
        receive schedule wire = .error .outOfRange)) ∧
    (¬ (wire.length ≤ lengthSize ∨ AddsUp schedule.lengthCalls) →
      receive schedule wire = .error .outOfBounds) := by
  obtain ⟨hends, hexact, hbeyond⟩ := @receiveLength_eq lengthSize schedule.lengthCalls [] wire
    (by decide) (by decide)
  rw [List.length_nil, Nat.zero_add, ← addsUp_iff] at hexact hbeyond
  rw [List.length_nil, Nat.zero_add] at hends
  refine ⟨fun h => ?_, fun h => ?_⟩
  · rcases Nat.lt_or_ge wire.length lengthSize with hshort | hlong
    · obtain ⟨rest, hnone⟩ := hends hshort
      have htake : takeFrame wire = none := if_neg fun hframe => Nat.not_le.mpr hshort hframe.1
      refine ⟨fun frame left hsome => ?_, fun _ => Or.inl ⟨rest, ?_⟩⟩
      · exact absurd (htake.symm.trans hsome).symm (Option.some_ne_none _)
      · rw [receive, hnone, ok_bind]
    · have hlength := hexact hlong (h.imp_left fun hle => Nat.le_antisymm hle hlong)
      rw [List.nil_append, Nat.sub_zero] at hlength
      rw [receive, hlength, ok_bind]
      dsimp only
      unfold takeFrame
      dsimp only
      generalize hsize : ofLE (wire.take lengthSize) = size
      generalize wire.drop lengthSize = body
      rcases Nat.lt_or_ge size maxVector with hsize | hhuge
      · rw [if_neg (Nat.not_le.mpr hsize)]
        rcases Nat.eq_zero_or_pos size with rfl | hpos
        · rw [if_neg fun hframe => Nat.lt_irrefl 0 hframe.2.1, receiveBody_zero, ok_bind]
          exact ⟨fun _ _ hsome => absurd hsome.symm (Option.some_ne_none _),
            fun _ => Or.inl ⟨body, rfl⟩⟩
        · obtain ⟨hends, hall⟩ := @receiveBody_eq size (size + 1) schedule.bodyCalls [] body hpos
            (by omega)
          rw [List.length_nil, Nat.zero_add] at hends hall
          by_cases hbody : size ≤ body.length
          · rw [if_pos ⟨hlong, hpos, hsize, hbody⟩, hall hbody, ok_bind]
            refine ⟨fun frame rest hsome => ?_, fun hnone => absurd hnone (Option.some_ne_none _)⟩
            obtain ⟨rfl, rfl⟩ := Prod.mk.inj (Option.some.inj hsome)
            rfl
          · obtain ⟨rest, hnone⟩ := hends (Nat.lt_of_not_le hbody)
            rw [if_neg fun hframe => hbody hframe.2.2.2, hnone, ok_bind]
            exact ⟨fun _ _ hsome => absurd hsome.symm (Option.some_ne_none _),
              fun _ => Or.inl ⟨rest, rfl⟩⟩
      · rw [if_pos hhuge, if_neg fun hframe => Nat.not_lt.mpr hhuge hframe.2.2.1]
        exact ⟨fun _ _ hsome => absurd hsome.symm (Option.some_ne_none _), fun _ => Or.inr rfl⟩
  · obtain ⟨hlong, hnot⟩ := not_or.mp h
    rw [receive, hbeyond (Nat.lt_of_not_le hlong) hnot, error_bind]

/-- `receive` takes a frame off the wire and gives its message back, or writes
beyond the size it receives. -/
theorem receive_eq (schedule : Schedule) {msg : Message} (hsize : msg.serilize.length < maxVector)
    (rest : Bytes) :
    (AddsUp schedule.lengthCalls → receive schedule (frame msg ++ rest) = .ok (some msg, rest)) ∧
    (¬ AddsUp schedule.lengthCalls →
      receive schedule (frame msg ++ rest) = .error .outOfBounds) := by
  have hlength : lengthSize < (frame msg ++ rest).length := by
    rw [List.length_append, frame, List.length_append, length_le]
    have := serilize_pos msg
    omega
  have hread : ofLE ((frame msg ++ rest).take lengthSize) = msg.serilize.length := by
    rw [frame, List.append_assoc]
    exact ofLE_take_append (Nat.lt_trans hsize (by decide)) _
  have hdrop : (frame msg ++ rest).drop lengthSize = msg.serilize ++ rest := by
    rw [frame, List.append_assoc]
    exact List.drop_left' (length_le ..)
  have hframe : takeFrame (frame msg ++ rest) = some (msg.serilize, rest) := by
    have hbody : msg.serilize.length ≤ (msg.serilize ++ rest).length := by
      rw [List.length_append]
      exact Nat.le_add_right _ _
    rw [takeFrame, hread, hdrop, if_pos ⟨Nat.le_of_lt hlength, serilize_pos msg, hsize, hbody⟩, List.take_left,
      List.drop_left]
  obtain ⟨hexact, hbeyond⟩ := receive_cases schedule (frame msg ++ rest)
  rw [or_iff_right (Nat.not_le.mpr hlength)] at hexact hbeyond
  refine ⟨fun h => ?_, hbeyond⟩
  rw [(hexact h).1 _ _ hframe, Message.ofBytes_serilize, ok_bind]

/-! ## Sequences of messages -/

/-- A message with the calls of the `send` and of the `receive` that transfer it. -/
structure Exchange where
  msg : Message
  sending : Schedule
  receiving : Schedule

/-- The messages are sent, and the other end receives the same messages in the
same order, each from its own frame and with nothing left over. -/
def Delivered (exchanges : List Exchange) : Prop :=
  ∃ wire, sendAll (exchanges.map fun exchange => (exchange.msg, exchange.sending)) =
      .ok (some wire) ∧
    receiveAll (exchanges.map Exchange.receiving) wire =
      .ok (some (exchanges.map fun exchange => (exchange.msg, frame exchange.msg)), [])

/-- Sending goes through exactly if every size is written exactly. -/
theorem sendAll_eq (messages : List (Message × Schedule)) :
    (∃ wire, sendAll messages = .ok (some wire)) ↔
      ∀ sent ∈ messages, AddsUp sent.2.lengthCalls := by
  induction messages with
  | nil => simp [sendAll]
  | cons sent messages ih =>
      obtain ⟨msg, schedule⟩ := sent
      obtain ⟨hexact, hbeyond⟩ := send_eq schedule msg
      rw [List.forall_mem_cons, ← ih, sendAll]
      by_cases h : AddsUp schedule.lengthCalls
      · rw [hexact h, ok_bind]
        constructor
        · rintro ⟨wire, hwire⟩
          obtain ⟨left, hleft, hpure⟩ := bind_eq_ok_iff.mp hwire
          cases left with
          | none => exact absurd hpure (by simp)
          | some left => exact ⟨h, left, hleft⟩
        · rintro ⟨-, left, hleft⟩
          exact ⟨frame msg ++ left, by rw [hleft]; rfl⟩
      · rw [hbeyond h, error_bind]
        exact ⟨fun ⟨_, hwire⟩ => absurd hwire (by simp), fun hall => absurd hall.1 h⟩

/-- What was sent lies on the wire frame by frame. -/
theorem wire_of_sendAll {messages : List (Message × Schedule)} {wire : Bytes}
    (hsend : sendAll messages = .ok (some wire)) :
    wire = messages.flatMap fun sent => frame sent.1 := by
  induction messages generalizing wire with
  | nil => exact (Option.some.inj (Except.ok.inj hsend)).symm
  | cons sent messages ih =>
      obtain ⟨msg, schedule⟩ := sent
      have hall := (sendAll_eq _).mp ⟨wire, hsend⟩
      rw [sendAll, (send_eq schedule msg).1 (hall _ List.mem_cons_self), ok_bind] at hsend
      obtain ⟨left, hleft, hpure⟩ := bind_eq_ok_iff.mp hsend
      cases left with
      | none => exact absurd hpure (by simp)
      | some left =>
          rw [List.flatMap_cons, ← ih hleft]
          exact (Option.some.inj (Except.ok.inj hpure)).symm

/-- Receiving gives back what lies on the wire exactly if every size is read
exactly. -/
theorem receiveAll_eq {exchanges : List Exchange}
    (hsize : ∀ exchange ∈ exchanges, exchange.msg.serilize.length < maxVector) :
    receiveAll (exchanges.map Exchange.receiving)
        (exchanges.flatMap fun exchange => frame exchange.msg) =
      .ok (some (exchanges.map fun exchange => (exchange.msg, frame exchange.msg)), []) ↔
      ∀ exchange ∈ exchanges, AddsUp exchange.receiving.lengthCalls := by
  induction exchanges with
  | nil => simp [receiveAll]
  | cons exchange exchanges ih =>
      obtain ⟨hhead, htail⟩ := List.forall_mem_cons.mp hsize
      obtain ⟨hexact, hbeyond⟩ := receive_eq exchange.receiving hhead
        (exchanges.flatMap fun exchange => frame exchange.msg)
      rw [List.forall_mem_cons, ← ih htail, List.map_cons, List.flatMap_cons, receiveAll]
      by_cases h : AddsUp exchange.receiving.lengthCalls
      · have hframe (left : Bytes) :
            (frame exchange.msg ++ left).take ((frame exchange.msg ++ left).length - left.length) =
              frame exchange.msg := by
          rw [List.length_append, Nat.add_sub_cancel, List.take_left]
        rw [hexact h, ok_bind]
        dsimp only
        rw [hframe]
        constructor
        · intro hrun
          obtain ⟨⟨messages, left⟩, hreceive, hpure⟩ := bind_eq_ok_iff.mp hrun
          obtain ⟨hmessages, hleft⟩ := Prod.mk.inj (Except.ok.inj hpure)
          dsimp only at hleft
          cases messages with
          | none => exact absurd hmessages (by simp)
          | some messages =>
              rw [Option.map_some, List.map_cons, Option.some.injEq, List.cons.injEq] at hmessages
              exact ⟨h, by rw [hreceive, hmessages.2, hleft]⟩
        · rintro ⟨-, hreceive⟩
          rw [hreceive, ok_bind]
          rfl
      · rw [hbeyond h, error_bind]
        exact ⟨fun hrun => absurd hrun (by simp), fun hall => absurd hall.1 h⟩

/-- Messages that fit into a vector arrive exactly if no call for a size transfers
more than is missing of it, on either side. -/
theorem delivered_iff {exchanges : List Exchange}
    (hsize : ∀ exchange ∈ exchanges, exchange.msg.serilize.length < maxVector) :
    Delivered exchanges ↔ ∀ exchange ∈ exchanges,
      AddsUp exchange.sending.lengthCalls ∧ AddsUp exchange.receiving.lengthCalls := by
  have hwire {wire : Bytes}
      (hsend : sendAll (exchanges.map fun exchange => (exchange.msg, exchange.sending)) =
        .ok (some wire)) : wire = exchanges.flatMap fun exchange => frame exchange.msg := by
    rw [wire_of_sendAll hsend, List.flatMap_map]
  have hsent : (∀ sent ∈ exchanges.map fun exchange => (exchange.msg, exchange.sending),
      AddsUp sent.2.lengthCalls) ↔ ∀ exchange ∈ exchanges, AddsUp exchange.sending.lengthCalls := by
    simp
  constructor
  · rintro ⟨wire, hsend, hreceive⟩ exchange hmem
    rw [hwire hsend] at hreceive
    exact ⟨hsent.mp ((sendAll_eq _).mp ⟨wire, hsend⟩) exchange hmem,
      (receiveAll_eq hsize).mp hreceive exchange hmem⟩
  · intro hall
    obtain ⟨wire, hsend⟩ := (sendAll_eq _).mpr (hsent.mpr fun exchange hmem => (hall exchange hmem).1)
    refine ⟨wire, hsend, ?_⟩
    rw [hwire hsend]
    exact (receiveAll_eq hsize).mpr fun exchange hmem => (hall exchange hmem).2

/-- Two messages, with sizes that arrive in pieces of three and five bytes. -/
theorem delivered_iff_example :
    Delivered [⟨.new .file .fileACK, ⟨[3, 5], [1]⟩, ⟨[], []⟩⟩,
      ⟨.addData (.new .file .upFileData) [7], ⟨[], [20]⟩, ⟨[3, 5], [2, 2]⟩⟩] := by
  refine (delivered_iff (by decide)).mpr ?_
  intro exchange hmem
  simp only [List.mem_cons, List.not_mem_nil, or_false] at hmem
  rcases hmem with rfl | rfl
  · exact ⟨⟨2, by decide⟩, ⟨1, by decide⟩⟩
  · exact ⟨⟨1, by decide⟩, ⟨2, by decide⟩⟩

/-- When the first `read` yields four bytes of the size, the second one may well
yield eight. -/
theorem not_delivered_of_overlong_read :
    ¬ Delivered [⟨.new .file .fileACK, ⟨[], []⟩, ⟨[4, 8], []⟩⟩] := by
  rintro ⟨wire, hsend, hreceive⟩
  obtain rfl := Option.some.inj (Except.ok.inj hsend)
  exact absurd hreceive (by decide)

end Socket

end Doopey
