import Doopey.Foundation.Buffer
import Doopey.Foundation.Bytes
import Doopey.Foundation.Except
import Doopey.Common.Base

/-!
# Blocks and access to their memory

Every block owns `blockSize` bytes. Access beyond them is an access out of bounds.
-/

namespace Doopey

open Foundation

/-- `Block::blockSize` -/
def blockSize : Nat := 1024 * 64

/-- Read memory. -/
def readAt (data : Bytes) (offset size : Nat) : Except Fault Bytes :=
  if offset + size ≤ data.length then .ok (part data offset size) else .error .outOfBounds

/-- Write memory. -/
def writeAt (data : Bytes) (offset : Nat) (bytes : Bytes) : Except Fault Bytes :=
  if offset + bytes.length ≤ data.length then .ok (overwrite data offset bytes)
  else .error .outOfBounds

/-- Read a `uint64_t`. -/
def readUInt64 (data : Bytes) (offset : Nat) : Except Fault UInt64 := do
  let bytes ← readAt data offset 8
  .ok (.ofNat (ofLE bytes))

/-- The bytes of a `uint64_t`. -/
def bytesOf (n : UInt64) : Bytes := le 8 n.toNat

/-- Write a `uint64_t`. -/
def writeUInt64 (data : Bytes) (offset : Nat) (n : UInt64) : Except Fault Bytes :=
  writeAt data offset (bytesOf n)

/-- `BlockLoader::allocateMem` -/
def allocateMem : Bytes := List.replicate blockSize 0

@[simp] theorem length_bytesOf (n : UInt64) : (bytesOf n).length = 8 := length_le ..

@[simp] theorem length_allocateMem : allocateMem.length = blockSize := List.length_replicate

@[simp] theorem ofNat_ofLE_bytesOf (n : UInt64) : UInt64.ofNat (ofLE (bytesOf n)) = n := by
  rw [bytesOf, ofLE_le_of_lt n.toNat_lt, UInt64.ofNat_toNat]

theorem writeAt_eq_ok_iff {data bytes data' : Bytes} {offset : Nat} :
    writeAt data offset bytes = .ok data' ↔
      offset + bytes.length ≤ data.length ∧ data' = overwrite data offset bytes := by
  unfold writeAt
  split
  next h => simp [h, eq_comm]
  next h => simp [h]

theorem readAt_of_le {data : Bytes} {offset size : Nat} (hinside : offset + size ≤ data.length) :
    readAt data offset size = .ok (part data offset size) := if_pos hinside

/-- Memory that is filled from its start. -/
theorem writeAt_zeros (data bytes : Bytes) {offset room : Nat} (hoffset : offset = data.length)
    (hroom : bytes.length ≤ room) : writeAt (data ++ List.replicate room 0) offset bytes =
      .ok (data ++ bytes ++ List.replicate (room - bytes.length) 0) := by
  subst hoffset
  apply writeAt_eq_ok_iff.mpr
  refine ⟨?_, ?_⟩
  · rw [List.length_append, List.length_replicate]
    omega
  · rw [overwrite_append, List.drop_replicate]

/-- Reading a number where its bytes are stored. -/
theorem readUInt64_of_part {data : Bytes} {offset : Nat} {n : UInt64}
    (hinside : offset + 8 ≤ data.length) (hpart : part data offset 8 = bytesOf n) :
    readUInt64 data offset = .ok n := by
  rw [readUInt64, readAt_of_le hinside, ok_bind, hpart, ofNat_ofLE_bytesOf]

/-- A number is read exactly where its bytes are stored. -/
theorem readUInt64_eq_ok_iff {data : Bytes} {offset : Nat} {n : UInt64} :
    readUInt64 data offset = .ok n ↔ offset + 8 ≤ data.length ∧ part data offset 8 = bytesOf n := by
  constructor
  · intro hread
    obtain ⟨bytes, hbytes, hread⟩ := bind_eq_ok_iff.mp hread
    rw [readAt] at hbytes
    split at hbytes
    next hinside =>
      obtain rfl := Except.ok.inj hbytes
      obtain rfl := Except.ok.inj hread
      have hlength := length_part hinside
      have hlt : ofLE (part data offset 8) < 2 ^ 64 := by
        have hlt := ofLE_lt (part data offset 8)
        rw [hlength] at hlt
        exact hlt
      refine ⟨hinside, ?_⟩
      rw [bytesOf, UInt64.toNat_ofNat', Nat.mod_eq_of_lt hlt]
      exact (hlength ▸ le_ofLE (part data offset 8)).symm
    next => exact absurd hbytes (by simp)
  · rintro ⟨hinside, hpart⟩
    exact readUInt64_of_part hinside hpart

/-- A number in front of other bytes. -/
theorem readUInt64_append (n : UInt64) (rest : Bytes) : readUInt64 (bytesOf n ++ rest) 0 = .ok n := by
  apply readUInt64_of_part
  · rw [List.length_append, length_bytesOf]
    exact Nat.le_add_right _ _
  · exact length_bytesOf n ▸ part_append_left (bytesOf n) rest

end Doopey
