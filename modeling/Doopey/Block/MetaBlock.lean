import Doopey.Block.Block

/-!
# Meta blocks

The meta block of a file holds the length of its name, the name, the creation
time, the size, the number of data blocks and their IDs, one behind the other. A
`MetaBlock` object points to these fields; a field that was not set up yet has no
pointer. Pointers are offsets into the memory of the block.
-/

namespace Doopey

open Foundation

/-- `class MetaBlock`. `_nameLength` always points to the start of the memory. -/
structure MetaBlock where
  data : Bytes
  id : BlockID
  filename : Option Nat
  ctime : Option Nat
  size : Option Nat
  blockNumber : Option Nat
  firstBlockID : Option Nat

namespace MetaBlock

/-- `MetaBlock::MetaBlock` -/
def ofData (data : Bytes) (id : BlockID) : Except Fault MetaBlock := do
  let nameLength ← readUInt64 data 0
  if nameLength = 0 then
    .ok ⟨data, id, none, none, none, none, none⟩
  else
    let filename := 8
    let ctime := filename + nameLength.toNat
    let size := ctime + 8
    let blockNumber := size + 8
    .ok ⟨data, id, some filename, some ctime, some size, some blockNumber, some (blockNumber + 8)⟩

/-- `BlockLoader::newMeta` -/
def newMeta : Except Fault MetaBlock := ofData allocateMem 0

/-- `MetaBlock::setFileName`. The copy never falls short of the name. -/
def setFileName (block : MetaBlock) (name : Bytes) : Except Fault (MetaBlock × Bool) := do
  let data ← writeUInt64 block.data 0 (.ofNat name.length)
  match block.filename with
  | none => do
      let data ← writeAt data 8 name
      .ok ({ block with data := data, filename := some 8 }, true)
  | some filename => do
      -- the block is used again; `_size` keeps its place
      let data ← writeAt data filename name
      .ok ({ block with data := data, ctime := none, blockNumber := none, firstBlockID := none },
        true)

/-- `MetaBlock::setCreateTime` -/
def setCreateTime (block : MetaBlock) (ctime : UInt64) : Except Fault (MetaBlock × Bool) :=
  match block.filename with
  | none => .ok (block, false)
  | some filename => do
      let nameLength ← readUInt64 block.data 0
      let place := block.ctime.getD (filename + nameLength.toNat)
      let data ← writeUInt64 block.data place ctime
      .ok ({ block with data := data, ctime := some place }, true)

/-- `MetaBlock::setFileSize` -/
def setFileSize (block : MetaBlock) (size : UInt64) : Except Fault (MetaBlock × Bool) :=
  match block.ctime with
  | none => .ok (block, false)
  | some ctime => do
      let place := block.size.getD (ctime + 8)
      let data ← writeUInt64 block.data place size
      .ok ({ block with data := data, size := some place }, true)

/-- The part of `addDataID` that sets up the list of IDs. -/
def setupIDs (block : MetaBlock) (size : Nat) : Except Fault (MetaBlock × Nat × Nat) :=
  match block.blockNumber, block.firstBlockID with
  | some blockNumber, some firstBlockID => .ok (block, blockNumber, firstBlockID)
  | _, _ => do
      let data ← writeUInt64 block.data (size + 8) 0
      .ok ({ block with data := data, blockNumber := some (size + 8), firstBlockID := some (size + 16) },
        size + 8, size + 16)

/-- `MetaBlock::addDataID` -/
def addDataID (block : MetaBlock) (id : BlockID) : Except Fault (MetaBlock × Bool) :=
  match block.size with
  | none => .ok (block, false)
  | some size => do
      let (block, blockNumber, firstBlockID) ← block.setupIDs size
      let number ← readUInt64 block.data blockNumber
      let data ← writeUInt64 block.data blockNumber (number + 1)
      let data ← writeUInt64 data (firstBlockID + 8 * number.toNat) id
      .ok ({ block with data := data }, true)

/-- `MetaBlock::getFileName` -/
def getFileName (block : MetaBlock) : Except Fault Bytes :=
  match block.filename with
  | none => .ok []
  | some filename => do
      let nameLength ← readUInt64 block.data 0
      readAt block.data filename nameLength.toNat

/-- The getters of a field that may not be set up yet. -/
def getField (block : MetaBlock) (field : Option Nat) : Except Fault UInt64 :=
  match field with
  | none => .ok 0
  | some place => readUInt64 block.data place

/-- `MetaBlock::getCreateTime` -/
def getCreateTime (block : MetaBlock) : Except Fault UInt64 := block.getField block.ctime

/-- `MetaBlock::getFileSize` -/
def getFileSize (block : MetaBlock) : Except Fault UInt64 := block.getField block.size

/-- `MetaBlock::getDataBlockNumber` -/
def getDataBlockNumber (block : MetaBlock) : Except Fault UInt64 := block.getField block.blockNumber

/-- `MetaBlock::getDataBlockID` -/
def getDataBlockID (block : MetaBlock) (number : UInt64) : Except Fault BlockID :=
  match block.blockNumber, block.firstBlockID with
  | some blockNumber, some firstBlockID => do
      let count ← readUInt64 block.data blockNumber
      if count ≤ number then .ok 0
      else readUInt64 block.data (firstBlockID + 8 * number.toNat)
  | _, _ => .ok 0

/-- The IDs that are read one after the other, as many as the object says. -/
def dataIDs (block : MetaBlock) : Except Fault (List BlockID) := do
  let nBlock ← block.getDataBlockNumber
  (List.range nBlock.toNat).mapM fun i => block.getDataBlockID (.ofNat i)

/-! ## The list of IDs -/

/-- The object points to the list `ids` in its memory. -/
def Lists (block : MetaBlock) (ids : List BlockID) : Prop :=
  (block.blockNumber = none ∧ block.firstBlockID = none ∧ ids = []) ∨
    ∃ place, block.blockNumber = some place ∧ block.firstBlockID = some (place + 8) ∧
      place + 8 + 8 * ids.length ≤ block.data.length ∧
      part block.data place 8 = bytesOf (.ofNat ids.length) ∧
      ∀ i id, ids[i]? = some id → part block.data (place + 8 + 8 * i) 8 = bytesOf id

/-- What holds of an object between two calls that change it: `ids` are listed,
and name and size are set up together. -/
structure Usable (block : MetaBlock) (ids : List BlockID) : Prop where
  length : block.data.length = blockSize
  lists : block.Lists ids
  filename : block.filename.isSome = block.size.isSome
  blockNumber : block.size = none → block.blockNumber = none

theorem length_of_writeAt {data bytes data' : Bytes} {offset : Nat}
    (hwrite : writeAt data offset bytes = .ok data') : data'.length = data.length := by
  obtain ⟨hinside, rfl⟩ := writeAt_eq_ok_iff.mp hwrite
  exact length_overwrite hinside

/-- `setFileName` on an object that has a name drops every field but the size. -/
theorem setFileName_spec {block block' : MetaBlock} {name : Bytes} {result : Bool}
    (hrun : block.setFileName name = .ok (block', result)) :
    result = true ∧ ∃ data place, data.length = block.data.length ∧
      block' = { block with
        data := data, filename := some place
        ctime := if block.filename = none then block.ctime else none
        blockNumber := if block.filename = none then block.blockNumber else none
        firstBlockID := if block.filename = none then block.firstBlockID else none } := by
  unfold setFileName at hrun
  obtain ⟨data₁, hwrite₁, hrun⟩ := bind_eq_ok_iff.mp hrun
  cases hfilename : block.filename with
  | none =>
      rw [hfilename] at hrun
      obtain ⟨data₂, hwrite₂, hrun⟩ := bind_eq_ok_iff.mp hrun
      obtain ⟨rfl, rfl⟩ := Prod.mk.inj (Except.ok.inj hrun)
      exact ⟨rfl, data₂, 8, (length_of_writeAt hwrite₂).trans (length_of_writeAt hwrite₁), rfl⟩
  | some filename =>
      rw [hfilename] at hrun
      obtain ⟨data₂, hwrite₂, hrun⟩ := bind_eq_ok_iff.mp hrun
      obtain ⟨rfl, rfl⟩ := Prod.mk.inj (Except.ok.inj hrun)
      exact ⟨rfl, data₂, filename, (length_of_writeAt hwrite₂).trans (length_of_writeAt hwrite₁),
        by simp⟩

theorem setCreateTime_spec {block block' : MetaBlock} {ctime : UInt64} {result : Bool}
    (hfilename : block.filename.isSome) (hrun : block.setCreateTime ctime = .ok (block', result)) :
    result = true ∧ ∃ data place, data.length = block.data.length ∧
      block' = { block with data := data, ctime := some place } := by
  obtain ⟨filename, hfilename⟩ := Option.isSome_iff_exists.mp hfilename
  unfold setCreateTime at hrun
  rw [hfilename] at hrun
  obtain ⟨nameLength, -, hrun⟩ := bind_eq_ok_iff.mp hrun
  obtain ⟨data, hwrite, hrun⟩ := bind_eq_ok_iff.mp hrun
  obtain ⟨rfl, rfl⟩ := Prod.mk.inj (Except.ok.inj hrun)
  exact ⟨rfl, data, _, length_of_writeAt hwrite, by rw [hfilename]⟩

theorem setFileSize_spec {block block' : MetaBlock} {size : UInt64} {result : Bool}
    (hctime : block.ctime.isSome) (hrun : block.setFileSize size = .ok (block', result)) :
    result = true ∧ ∃ data place, data.length = block.data.length ∧
      block' = { block with data := data, size := some place } := by
  obtain ⟨ctime, hctime⟩ := Option.isSome_iff_exists.mp hctime
  unfold setFileSize at hrun
  rw [hctime] at hrun
  obtain ⟨data, hwrite, hrun⟩ := bind_eq_ok_iff.mp hrun
  obtain ⟨rfl, rfl⟩ := Prod.mk.inj (Except.ok.inj hrun)
  exact ⟨rfl, data, _, length_of_writeAt hwrite, by rw [hctime]⟩

theorem usable_newMeta : ∃ block, newMeta = .ok block ∧ block.Usable [] ∧ block.id = 0 ∧
    block.size = none := by
  have hzero : readUInt64 allocateMem 0 = .ok 0 := by
    refine readUInt64_of_part (by rw [length_allocateMem]; decide) ?_
    rw [part, allocateMem, List.drop_zero, List.take_replicate]
    decide
  refine ⟨⟨allocateMem, 0, none, none, none, none, none⟩, ?_, ?_, rfl, rfl⟩
  · rw [newMeta, ofData, hzero, ok_bind, if_pos rfl]
  · exact ⟨length_allocateMem, Or.inl ⟨rfl, rfl, rfl⟩, rfl, fun _ => rfl⟩

section Lists

variable {block : MetaBlock} {ids : List BlockID}

theorem Usable.length_lt (h : block.Usable ids) : ids.length < 2 ^ 64 := by
  rcases h.lists with ⟨-, -, rfl⟩ | ⟨place, -, -, hinside, -⟩
  · simp
  · rw [h.length, blockSize] at hinside
    omega

theorem Usable.toNat_length (h : block.Usable ids) :
    (UInt64.ofNat ids.length).toNat = ids.length := by
  rw [UInt64.toNat_ofNat', Nat.mod_eq_of_lt h.length_lt]

theorem Usable.getDataBlockNumber_eq (h : block.Usable ids) :
    block.getDataBlockNumber = .ok (.ofNat ids.length) := by
  unfold getDataBlockNumber getField
  rcases h.lists with ⟨hnumber, -, rfl⟩ | ⟨place, hnumber, -, hinside, hcount, -⟩
  · rw [hnumber]
    rfl
  · rw [hnumber]
    exact readUInt64_of_part (by omega) hcount

theorem Usable.getDataBlockID_eq (h : block.Usable ids) {i : Nat} {id : BlockID}
    (hid : ids[i]? = some id) : block.getDataBlockID (.ofNat i) = .ok id := by
  have hi : i < ids.length := (List.getElem?_eq_some_iff.mp hid).1
  have hlt := h.length_lt
  have htoNat : (UInt64.ofNat i).toNat = i := by
    rw [UInt64.toNat_ofNat', Nat.mod_eq_of_lt (Nat.lt_trans hi hlt)]
  rcases h.lists with ⟨-, -, rfl⟩ | ⟨place, hnumber, hfirst, hinside, hcount, hids⟩
  · simp at hi
  · have hle : ¬ UInt64.ofNat ids.length ≤ UInt64.ofNat i := by
      rw [UInt64.le_iff_toNat_le, h.toNat_length, htoNat]
      omega
    rw [getDataBlockID, hnumber, hfirst]
    dsimp only
    rw [readUInt64_of_part (by omega) hcount, ok_bind, if_neg hle, htoNat]
    exact readUInt64_of_part (by omega) (hids i id hid)

theorem Usable.dataIDs_eq (h : block.Usable ids) : block.dataIDs = .ok ids := by
  rw [dataIDs, h.getDataBlockNumber_eq, ok_bind, h.toNat_length,
    @mapM_of_forall _ _ _ _ (fun i => ids.getD i 0)]
  · congr 1
    apply List.ext_getElem (by simp)
    intro i hi hi'
    simp [hi']
  · intro i hi
    have hget := List.getElem?_eq_getElem (List.mem_range.mp hi)
    rw [List.getD, hget]
    exact h.getDataBlockID_eq hget

/-- With the list set up, the object points to it and nothing but its memory may
have changed besides. -/
theorem Usable.setupIDs (h : block.Usable ids) {size : Nat} {ready : MetaBlock}
    {number first : Nat} (hrun : block.setupIDs size = .ok (ready, number, first)) :
    first = number + 8 ∧
      ready = { block with
        data := ready.data, blockNumber := some number, firstBlockID := some first } ∧
      ready.data.length = blockSize ∧ number + 8 + 8 * ids.length ≤ blockSize ∧
      part ready.data number 8 = bytesOf (.ofNat ids.length) ∧
      ∀ i id, ids[i]? = some id → part ready.data (number + 8 + 8 * i) 8 = bytesOf id := by
  unfold MetaBlock.setupIDs at hrun
  rcases h.lists with ⟨hnumber, hfirst, rfl⟩ | ⟨place, hnumber, hfirst, hinside, hcount, hids⟩
  · rw [hnumber, hfirst] at hrun
    obtain ⟨data, hwrite, hpure⟩ := bind_eq_ok_iff.mp hrun
    obtain ⟨hinside, rfl⟩ := writeAt_eq_ok_iff.mp hwrite
    obtain ⟨rfl, hplaces⟩ := Prod.mk.inj (Except.ok.inj hpure)
    obtain ⟨rfl, rfl⟩ := Prod.mk.inj hplaces
    have hpart := part_overwrite hinside
    have hlength := length_overwrite hinside
    rw [length_bytesOf, h.length] at hinside
    rw [length_bytesOf] at hpart
    exact ⟨rfl, rfl, hlength.trans h.length, by simpa using hinside, hpart, by simp⟩
  · rw [hnumber, hfirst] at hrun
    obtain ⟨rfl, hplaces⟩ := Prod.mk.inj (Except.ok.inj hrun)
    obtain ⟨rfl, rfl⟩ := Prod.mk.inj hplaces
    refine ⟨rfl, ?_, h.length, h.length ▸ hinside, hcount, hids⟩
    rw [← hnumber, ← hfirst]

/-- `addDataID` refuses before a name and a size are set up, and otherwise puts
the ID at the end of the list. -/
theorem Usable.addDataID (h : block.Usable ids) {id : BlockID} {block' : MetaBlock}
    {result : Bool} (hrun : block.addDataID id = .ok (block', result)) :
    (block.size = none ∧ block' = block ∧ result = false) ∨
      (block.size.isSome ∧ result = true ∧ block'.Usable (ids ++ [id]) ∧ block'.id = block.id ∧
        block'.size = block.size) := by
  unfold MetaBlock.addDataID at hrun
  cases hsize : block.size with
  | none =>
      rw [hsize] at hrun
      obtain ⟨rfl, rfl⟩ := Prod.mk.inj (Except.ok.inj hrun)
      exact Or.inl ⟨rfl, rfl, rfl⟩
  | some size =>
      rw [hsize] at hrun
      obtain ⟨⟨ready, number, first⟩, hsetup, hrun⟩ := bind_eq_ok_iff.mp hrun
      obtain ⟨rfl, hready, hlength, hinside, hcount, hids⟩ := h.setupIDs hsetup
      obtain ⟨count, hread, hrun⟩ := bind_eq_ok_iff.mp hrun
      obtain ⟨data₁, hwrite₁, hrun⟩ := bind_eq_ok_iff.mp hrun
      obtain ⟨data₂, hwrite₂, hrun⟩ := bind_eq_ok_iff.mp hrun
      obtain ⟨rfl, rfl⟩ := Prod.mk.inj (Except.ok.inj hrun)
      rw [readUInt64_of_part (by omega) hcount] at hread
      obtain rfl := Except.ok.inj hread
      rw [h.toNat_length] at hwrite₂
      obtain ⟨hinside₁, rfl⟩ := writeAt_eq_ok_iff.mp hwrite₁
      obtain ⟨hinside₂, rfl⟩ := writeAt_eq_ok_iff.mp hwrite₂
      have hlength₁ := length_overwrite hinside₁
      have hlength₂ := length_overwrite hinside₂
      have hcount' := part_overwrite hinside₁
      have hid' := part_overwrite hinside₂
      rw [length_bytesOf] at hcount' hid'
      have hend : number + 8 + 8 * ids.length + 8 ≤ blockSize := by
        rwa [length_bytesOf, hlength₁, hlength] at hinside₂
      refine Or.inr ⟨rfl, rfl, ⟨?_, Or.inr ⟨number, ?_, ?_, ?_, ?_, ?_⟩, ?_, ?_⟩, ?_, ?_⟩
      · exact hlength₂.trans (hlength₁.trans hlength)
      · rw [hready]
      · rw [hready]
      · dsimp only
        rw [hlength₂, hlength₁, hlength, List.length_append, List.length_singleton]
        omega
      · dsimp only
        rw [part_overwrite_of_le hinside₂ (by omega), hcount', List.length_append,
          List.length_singleton, UInt64.ofNat_add]
        rfl
      · intro i id' hentry
        dsimp only
        by_cases hi : i < ids.length
        · rw [List.getElem?_append_left hi] at hentry
          rw [part_overwrite_of_le hinside₂ (by omega),
            part_overwrite_of_ge hinside₁ (by rw [length_bytesOf]; omega), hids i id' hentry]
        · have hlast : i < (ids ++ [id]).length := (List.getElem?_eq_some_iff.mp hentry).1
          rw [List.length_append, List.length_singleton] at hlast
          obtain rfl : i = ids.length := by omega
          rw [List.getElem?_append_right (Nat.le_refl _), Nat.sub_self,
            List.getElem?_cons_zero, Option.some.injEq] at hentry
          rw [hid', hentry]
      · rw [hready]
        exact h.filename
      · rw [hready]
        intro hnone
        rw [hsize] at hnone
        exact absurd hnone (by simp)
      · rw [hready]
      · rw [hready]
        exact hsize

end Lists

end MetaBlock

end Doopey
