import Doopey.File.MetaRecords

/-!
# Where the setters write

The setters of a meta block never ask how large it is. What they write, and where, is
listed here call by call. A call works exactly if all of its writes are inside the
block, and then they are all that happens to the memory.
-/

namespace Doopey

open Foundation

/-- Bytes that are put somewhere in the memory. -/
structure Write where
  offset : Nat
  bytes : Bytes

/-- The bytes stay inside the block. -/
def Write.Inside (write : Write) : Prop := write.offset + write.bytes.length ≤ blockSize

/-- The memory after the writes, one after the other. -/
def applyWrites (data : Bytes) (writes : List Write) : Bytes :=
  writes.foldl (fun data write => overwrite data write.offset write.bytes) data

/-- Write one after the other, as long as the block is not left. -/
def performWrites (data : Bytes) : List Write → Except Fault Bytes
  | [] => .ok data
  | write :: writes => do
      let data ← writeAt data write.offset write.bytes
      performWrites data writes

theorem performWrites_cases {data : Bytes} (hlength : data.length = blockSize)
    (writes : List Write) :
    (∀ write ∈ writes, write.Inside) ∧ performWrites data writes = .ok (applyWrites data writes) ∧
        (applyWrites data writes).length = blockSize ∨
      (¬ ∀ write ∈ writes, write.Inside) ∧ performWrites data writes = .error .outOfBounds := by
  induction writes generalizing data with
  | nil => exact Or.inl ⟨by simp, rfl, hlength⟩
  | cons write writes ih =>
      rw [performWrites, List.forall_mem_cons]
      by_cases hinside : write.Inside
      · have hfits : write.offset + write.bytes.length ≤ data.length := hlength ▸ hinside
        have hwrite : writeAt data write.offset write.bytes = .ok _ := if_pos hfits
        rw [hwrite, ok_bind]
        rcases ih ((length_overwrite hfits).trans hlength) with ⟨hrest, hrun⟩ | ⟨hrest, hrun⟩
        · exact Or.inl ⟨⟨hinside, hrest⟩, hrun⟩
        · exact Or.inr ⟨fun hall => hrest hall.2, hrun⟩
      · have hwrite : writeAt data write.offset write.bytes = .error .outOfBounds :=
          if_neg (hlength ▸ hinside)
        rw [hwrite]
        exact Or.inr ⟨fun hall => hinside hall.1, rfl⟩

namespace MetaCall

/-- What a call writes, in the order of the assignments. -/
def writes (block : MetaBlock) : MetaCall → List Write
  | setFileName name =>
      [⟨0, bytesOf (.ofNat name.length)⟩, ⟨block.filename.getD 8, name⟩]
  | setCreateTime time =>
      match block.filename, readUInt64 block.data 0 with
      | some filename, .ok nameLength =>
          [⟨block.ctime.getD (filename + nameLength.toNat), bytesOf time⟩]
      | _, _ => []
  | setFileSize size =>
      match block.ctime with
      | some ctime => [⟨block.size.getD (ctime + 8), bytesOf size⟩]
      | none => []
  | addDataID id =>
      match block.size, block.blockNumber, block.firstBlockID with
      | none, _, _ => []
      | some _, some blockNumber, some firstBlockID =>
          match readUInt64 block.data blockNumber with
          | .ok number =>
              [⟨blockNumber, bytesOf (number + 1)⟩, ⟨firstBlockID + 8 * number.toNat, bytesOf id⟩]
          -- there is no number to count up where no number can be written either
          | .error _ => [⟨blockNumber, bytesOf 0⟩]
      | some size, _, _ =>
          [⟨size + 8, bytesOf 0⟩, ⟨size + 8, bytesOf 1⟩, ⟨size + 16, bytesOf id⟩]

section Run

variable {block : MetaBlock}

/-- Where an object points to after a call. -/
def repoint (block : MetaBlock) : MetaCall → MetaBlock
  | setFileName _ =>
      match block.filename with
      | none => { block with filename := some 8 }
      | some _ => { block with ctime := none, blockNumber := none, firstBlockID := none }
  | setCreateTime _ =>
      match block.filename, readUInt64 block.data 0 with
      | some filename, .ok nameLength =>
          { block with ctime := some (block.ctime.getD (filename + nameLength.toNat)) }
      | _, _ => block
  | setFileSize _ =>
      match block.ctime with
      | some ctime => { block with size := some (block.size.getD (ctime + 8)) }
      | none => block
  | addDataID _ =>
      match block.size, block.blockNumber, block.firstBlockID with
      | none, _, _ => block
      | some _, some _, some _ => block
      | some size, _, _ =>
          { block with blockNumber := some (size + 8), firstBlockID := some (size + 16) }

/-- Whether a call is accepted. -/
def accepts (block : MetaBlock) : MetaCall → Bool
  | setFileName _ => true
  | setCreateTime _ => block.filename.isSome
  | setFileSize _ => block.ctime.isSome
  | addDataID _ => block.size.isSome

theorem run_setFileName (block : MetaBlock) (name : Bytes) :
    run block (.setFileName name) = performWrites block.data (writes block (.setFileName name)) >>=
      fun data => .ok ({ repoint block (.setFileName name) with data := data }, true) := by
  unfold run MetaBlock.setFileName writes repoint
  simp only [performWrites, writeUInt64]
  cases writeAt block.data 0 (bytesOf (.ofNat name.length)) with
  | error e => rfl
  | ok data =>
      rw [ok_bind, ok_bind]
      cases block.filename with
      | none =>
          dsimp only [Option.getD]
          cases writeAt data 8 name with
          | error e => rfl
          | ok data' => rfl
      | some filename =>
          dsimp only [Option.getD]
          cases writeAt data filename name with
          | error e => rfl
          | ok data' => rfl

theorem run_setCreateTime (hlength : block.data.length = blockSize) (time : UInt64) :
    run block (.setCreateTime time) =
      performWrites block.data (writes block (.setCreateTime time)) >>= fun data =>
        .ok ({ repoint block (.setCreateTime time) with data := data },
          accepts block (.setCreateTime time)) := by
  obtain ⟨nameLength, hread⟩ : ∃ nameLength, readUInt64 block.data 0 = .ok nameLength := by
    rw [readUInt64, readAt_of_le (by rw [hlength, blockSize]; omega), ok_bind]
    exact ⟨_, rfl⟩
  unfold run MetaBlock.setCreateTime writes repoint accepts
  rw [hread]
  cases hfilename : block.filename with
  | none => rfl
  | some filename =>
      simp only [performWrites, writeUInt64, ok_bind]
      cases writeAt block.data (block.ctime.getD (filename + nameLength.toNat)) (bytesOf time) with
      | error e => rfl
      | ok data => simp [ok_bind]

theorem run_setFileSize (block : MetaBlock) (size : UInt64) :
    run block (.setFileSize size) =
      performWrites block.data (writes block (.setFileSize size)) >>= fun data =>
        .ok ({ repoint block (.setFileSize size) with data := data },
          accepts block (.setFileSize size)) := by
  unfold run MetaBlock.setFileSize writes repoint accepts
  cases hctime : block.ctime with
  | none => rfl
  | some ctime =>
      simp only [performWrites, writeUInt64]
      cases writeAt block.data (block.size.getD (ctime + 8)) (bytesOf size) with
      | error e => rfl
      | ok data => simp [ok_bind]

/-- Where no number can be read none can be written. -/
theorem writeAt_of_readUInt64_error {data bytes : Bytes} {offset : Nat} {e : Fault}
    (hread : readUInt64 data offset = .error e) (hbytes : bytes.length = 8) :
    writeAt data offset bytes = .error e := by
  unfold readUInt64 readAt at hread
  split at hread
  next => exact absurd hread (by simp)
  next hout =>
    rw [writeAt, hbytes, if_neg hout]
    exact congrArg Except.error (Except.error.inj hread)

/-- The list is set up, counted and extended. -/
theorem addDataID_setup {size : Nat} (hsize : block.size = some size)
    (hnone : block.blockNumber = none ∨ block.firstBlockID = none) (id : BlockID) :
    block.addDataID id =
      performWrites block.data
        [⟨size + 8, bytesOf 0⟩, ⟨size + 8, bytesOf 1⟩, ⟨size + 16, bytesOf id⟩] >>= fun data =>
          .ok ({ block with
            data := data, blockNumber := some (size + 8), firstBlockID := some (size + 16) },
            true) := by
  have hsetup : block.setupIDs size = writeUInt64 block.data (size + 8) 0 >>= fun data =>
      .ok ({ block with
        data := data, blockNumber := some (size + 8), firstBlockID := some (size + 16) },
        size + 8, size + 16) := by
    unfold MetaBlock.setupIDs
    split
    next hnumber hfirst => simp [hnumber, hfirst] at hnone
    next => rfl
  unfold MetaBlock.addDataID
  rw [hsize]
  dsimp only
  rw [hsetup, performWrites, writeUInt64]
  cases hzero : writeAt block.data (size + 8) (bytesOf 0) with
  | error e => rfl
  | ok data =>
      obtain ⟨hinside, rfl⟩ := writeAt_eq_ok_iff.mp hzero
      have hpart := part_overwrite hinside
      have hlength := length_overwrite hinside
      rw [length_bytesOf] at hpart hinside
      have hread := readUInt64_of_part (hlength ▸ hinside) hpart
      rw [ok_bind, ok_bind, ok_bind]
      dsimp only
      rw [hread, ok_bind, performWrites]
      have hone : writeUInt64 (overwrite block.data (size + 8) (bytesOf 0)) (size + 8) (0 + 1) =
          writeAt (overwrite block.data (size + 8) (bytesOf 0)) (size + 8) (bytesOf 1) := rfl
      rw [hone]
      cases writeAt (overwrite block.data (size + 8) (bytesOf 0)) (size + 8) (bytesOf 1) with
      | error e => rfl
      | ok data =>
          rw [ok_bind, ok_bind, performWrites]
          have hid : writeUInt64 data (size + 16 + 8 * UInt64.toNat 0) id =
              writeAt data (size + 16) (bytesOf id) := rfl
          rw [hid]
          cases writeAt data (size + 16) (bytesOf id) with
          | error e => rfl
          | ok data => simp [performWrites, hsize]

/-- The list is there, and one more ID goes behind the others. -/
theorem addDataID_listed {size blockNumber firstBlockID : Nat} (hsize : block.size = some size)
    (hnumber : block.blockNumber = some blockNumber) (hfirst : block.firstBlockID = some firstBlockID)
    (id : BlockID) :
    block.addDataID id = readUInt64 block.data blockNumber >>= fun number =>
      performWrites block.data
        [⟨blockNumber, bytesOf (number + 1)⟩, ⟨firstBlockID + 8 * number.toNat, bytesOf id⟩] >>=
          fun data => .ok ({ block with data := data }, true) := by
  have hsetup : block.setupIDs size = .ok (block, blockNumber, firstBlockID) := by
    rw [MetaBlock.setupIDs, hnumber, hfirst]
  unfold MetaBlock.addDataID
  rw [hsize]
  dsimp only
  rw [hsetup, ok_bind]
  dsimp only
  cases readUInt64 block.data blockNumber with
  | error e => rfl
  | ok number =>
      simp only [ok_bind, performWrites, writeUInt64]
      cases writeAt block.data blockNumber (bytesOf (number + 1)) with
      | error e => rfl
      | ok data =>
          simp only [ok_bind]
          cases writeAt data (firstBlockID + 8 * number.toNat) (bytesOf id) with
          | error e => rfl
          | ok data => simp [hsize, hnumber, hfirst]

theorem run_addDataID (block : MetaBlock) (id : BlockID) :
    run block (.addDataID id) =
      performWrites block.data (writes block (.addDataID id)) >>= fun data =>
        .ok ({ repoint block (.addDataID id) with data := data },
          accepts block (.addDataID id)) := by
  obtain ⟨data, blockID, filename, ctime, size, blockNumber, firstBlockID⟩ := block
  cases size with
  | none => rfl
  | some size =>
      cases blockNumber with
      | none =>
          exact @addDataID_setup ⟨data, blockID, filename, ctime, some size, none, firstBlockID⟩ size
            rfl (Or.inl rfl) id
      | some blockNumber =>
          cases firstBlockID with
          | none =>
              exact @addDataID_setup
                ⟨data, blockID, filename, ctime, some size, some blockNumber, none⟩ size rfl
                (Or.inr rfl) id
          | some firstBlockID =>
              rw [run, addDataID_listed rfl rfl rfl, writes]
              dsimp only
              cases hread : readUInt64 data blockNumber with
              | error e =>
                  rw [performWrites, writeAt_of_readUInt64_error hread (length_bytesOf 0)]
                  rfl
              | ok number => rfl

/-- A call does what it writes, and moves what the object points to. -/
theorem run_eq (hlength : block.data.length = blockSize) (call : MetaCall) :
    call.run block = performWrites block.data (call.writes block) >>= fun data =>
      .ok ({ call.repoint block with data := data }, call.accepts block) := by
  cases call with
  | setFileName name => exact run_setFileName block name
  | setCreateTime time => exact run_setCreateTime hlength time
  | setFileSize size => exact run_setFileSize block size
  | addDataID id => exact run_addDataID block id

/-- A call keeps the memory of a block, or it leaves the block. -/
theorem run_cases (hlength : block.data.length = blockSize) (call : MetaCall) :
    (∀ write ∈ call.writes block, write.Inside) ∧
        call.run block = .ok ({ call.repoint block with
          data := applyWrites block.data (call.writes block) }, call.accepts block) ∧
        (applyWrites block.data (call.writes block)).length = blockSize ∨
      (¬ ∀ write ∈ call.writes block, write.Inside) ∧ call.run block = .error .outOfBounds := by
  rw [run_eq hlength]
  rcases performWrites_cases hlength (call.writes block) with ⟨hinside, hrun, hkeep⟩ | ⟨hout, hrun⟩
  · rw [hrun, ok_bind]
    exact Or.inl ⟨hinside, rfl, hkeep⟩
  · rw [hrun]
    exact Or.inr ⟨hout, rfl⟩

/-- A call that stays inside works. -/
theorem run_of_inside (hlength : block.data.length = blockSize) {call : MetaCall}
    (hinside : ∀ write ∈ call.writes block, write.Inside) :
    call.run block = .ok ({ call.repoint block with
        data := applyWrites block.data (call.writes block) }, call.accepts block) ∧
      (applyWrites block.data (call.writes block)).length = blockSize := by
  rcases run_cases hlength call with ⟨-, hrun, hkeep⟩ | ⟨hout, -⟩
  · exact ⟨hrun, hkeep⟩
  · exact absurd hinside hout

/-- A call that works stays inside. -/
theorem inside_of_run (hlength : block.data.length = blockSize) {call : MetaCall}
    {result : MetaBlock × Bool} (hrun : call.run block = .ok result) :
    ∀ write ∈ call.writes block, write.Inside := by
  rcases run_cases hlength call with ⟨hinside, -⟩ | ⟨-, herror⟩
  · exact hinside
  · rw [hrun] at herror
    exact absurd herror (by simp)

end Run

end MetaCall

namespace MetaBlock

/-- What calls write that are made one after the other as long as they are accepted. -/
def writes (block : MetaBlock) : List MetaCall → List Write
  | [] => []
  | call :: calls => call.writes block ++
      match call.run block with
      | .ok (block, true) => block.writes calls
      | _ => []

theorem writes_cons {block block' : MetaBlock} {call : MetaCall}
    (hcall : call.run block = .ok (block', true)) (calls : List MetaCall) :
    block.writes (call :: calls) = call.writes block ++ block'.writes calls := by
  rw [writes, hcall]

/-- Calls stay inside if the first one does and the others do from there on. -/
theorem inside_cons_iff {block : MetaBlock} {call : MetaCall} {calls : List MetaCall} {p q : Prop}
    {Q : MetaBlock → Prop} (hfirst : (∀ write ∈ call.writes block, write.Inside) ↔ p)
    (hrun : p → ∃ block', call.run block = .ok (block', true) ∧ Q block')
    (hrest : ∀ block', Q block' → ((∀ write ∈ block'.writes calls, write.Inside) ↔ q)) :
    (∀ write ∈ block.writes (call :: calls), write.Inside) ↔ p ∧ q := by
  by_cases hp : p
  · obtain ⟨block', hcall, hblock'⟩ := hrun hp
    rw [writes_cons hcall, List.forall_mem_append, hfirst, hrest block' hblock']
  · refine iff_of_false (fun hall => hp (hfirst.mp fun write hmem => hall write ?_)) fun h => hp h.1
    rw [writes]
    exact List.mem_append_left _ hmem

theorem inside_nil (block : MetaBlock) : (∀ write ∈ block.writes [], write.Inside) ↔ True := by
  simp [writes]

end MetaBlock

end Doopey
