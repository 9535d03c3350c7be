import Doopey.File.MetaRecords

/-!
# A second record in the same meta block

`setFileName` on an object that has a name drops the places of the creation time
and of the IDs, but not the place of the size. With another name the creation time
moves, while the size, and the IDs behind it, stay where the first record had them.
Whoever makes an object from the memory afterwards looks for them behind the new name.
-/

namespace Doopey

open Foundation

namespace MetaRecord

/-- What `addDataID` leaves behind the size. -/
def listBytes (ids : List BlockID) : Bytes := bytesOf (.ofNat ids.length) ++ ids.flatMap bytesOf

/-- The record behind the length of its name, as the constructor looks for it. -/
def bytes (record : MetaRecord) : Bytes :=
  record.name ++ bytesOf record.time ++ (bytesOf record.size ++ listBytes record.ids)

/-- What `setFileSize` and `addDataID` write. Without IDs no number of them is written. -/
def tail (record : MetaRecord) : Bytes :=
  bytesOf record.size ++ if record.ids = [] then [] else listBytes record.ids

/-- The size is put at `place`, and the IDs behind it, into memory that holds `data`. Where
they come to lie on the record they agree with it, and what they leave out of the
record behind its creation time was in the memory before. -/
structure Coincides (record : MetaRecord) (data : Bytes) (place : Nat) : Prop where
  room : place + record.tail.length ≤ blockSize
  covered (i : Nat) : i < record.tail.length → place + i < 8 + record.bytes.length →
    record.bytes[place + i - 8]? = record.tail[i]?
  left (i : Nat) : 8 + record.name.length + 8 ≤ i → i < 8 + record.bytes.length →
    ¬ (place ≤ i ∧ i < place + record.tail.length) → data[i]? = record.bytes[i - 8]?

theorem length_flatMap_bytesOf (ids : List BlockID) : (ids.flatMap bytesOf).length = 8 * ids.length := by
  induction ids with
  | nil => rfl
  | cons id ids ih =>
      rw [List.flatMap_cons, List.length_append, ih, length_bytesOf, List.length_cons]
      omega

@[simp] theorem length_listBytes (ids : List BlockID) : (listBytes ids).length = 8 + 8 * ids.length := by
  rw [listBytes, List.length_append, length_bytesOf, length_flatMap_bytesOf]

theorem length_bytes (record : MetaRecord) :
    record.bytes.length = record.name.length + 24 + 8 * record.ids.length := by
  simp only [bytes, List.length_append, length_bytesOf, length_listBytes]
  omega

/-- The entries of a list of IDs. -/
theorem part_flatMap_bytesOf {data : Bytes} {ids : List BlockID} {offset : Nat}
    (hinside : offset + 8 * ids.length ≤ data.length) :
    part data offset (8 * ids.length) = ids.flatMap bytesOf ↔
      ∀ i id, ids[i]? = some id → part data (offset + 8 * i) 8 = bytesOf id := by
  induction ids generalizing offset with
  | nil => simp [part]
  | cons id ids ih =>
      rw [List.length_cons] at hinside
      have hsize : 8 * (id :: ids).length = 8 + 8 * ids.length := by
        rw [List.length_cons]
        omega
      rw [hsize, List.flatMap_cons, part_eq_append_iff (length_bytesOf id) (by omega),
        ih (by omega)]
      constructor
      · rintro ⟨hfirst, hrest⟩ i id' hentry
        cases i with
        | zero => rwa [← Option.some.inj hentry]
        | succ i =>
            have hplace : offset + 8 * (i + 1) = offset + 8 + 8 * i := by omega
            rw [hplace]
            exact hrest i id' hentry
      · intro hentries
        refine ⟨hentries 0 id rfl, fun i id' hentry => ?_⟩
        have hplace : offset + 8 + 8 * i = offset + 8 * (i + 1) := by omega
        rw [hplace]
        exact hentries (i + 1) id' hentry

end MetaRecord

namespace MetaBlock

open MetaRecord

/-- Memory is laid out like a record exactly if it holds the bytes of the record. -/
theorem laid_iff {data : Bytes} {record : MetaRecord} (hlength : data.length = blockSize)
    (hfits : record.Fits) (hname : part data 0 8 = bytesOf (.ofNat record.name.length)) :
    Laid data record.name record.time record.size record.ids ↔
      part data 8 record.bytes.length = record.bytes := by
  have hroom : 8 + record.name.length + 24 + 8 * record.ids.length ≤ blockSize := hfits
  have hsize : record.bytes.length =
      record.name.length + 8 + (8 + (8 + 8 * record.ids.length)) := by
    rw [length_bytes]
    omega
  rw [hsize, bytes, listBytes, part_eq_append_iff (by simp) (by omega),
    part_eq_append_iff rfl (by omega), part_eq_append_iff (length_bytesOf _) (by omega),
    part_eq_append_iff (length_bytesOf _) (by omega), part_flatMap_bytesOf (by omega)]
  constructor
  · intro h
    exact ⟨⟨h.name, h.ctime⟩, h.size, h.count, h.entries⟩
  · rintro ⟨⟨hname', htime⟩, hsize', hcount, hentries⟩
    exact ⟨hlength, hroom, hname, hname', htime, hsize', hcount, hentries⟩

/-! ## Adding IDs behind a size that is not behind the creation time -/

section Relisted

variable (block : MetaBlock) (memory : Bytes) (place : Nat) (size : UInt64)

/-- The object with a list of IDs behind its size, in memory that held `memory`. -/
def relisted (ids : List BlockID) : MetaBlock :=
  { block with
    data := overwrite memory place (bytesOf size ++ listBytes ids)
    size := some place, blockNumber := some (place + 8), firstBlockID := some (place + 16) }

variable {memory place} {ids : List BlockID}

theorem readUInt64_relisted (hlength : memory.length = blockSize)
    (hinside : place + 16 + 8 * ids.length ≤ blockSize) :
    readUInt64 (relisted block memory place size ids).data place = .ok size ∧
      readUInt64 (relisted block memory place size ids).data (place + 8) =
        .ok (.ofNat ids.length) ∧
      ∀ i id, ids[i]? = some id →
        readUInt64 (relisted block memory place size ids).data (place + 16 + 8 * i) = .ok id := by
  have hwrite : place + (bytesOf size ++ listBytes ids).length ≤ memory.length := by
    rw [List.length_append, length_bytesOf, length_listBytes]
    omega
  have hsize : (bytesOf size ++ listBytes ids).length = 8 + (8 + 8 * ids.length) := by
    rw [List.length_append, length_bytesOf, length_listBytes]
  have hall := length_overwrite hwrite
  have hpart := part_overwrite hwrite
  rw [hsize, listBytes, part_eq_append_iff (length_bytesOf _) (by rw [← listBytes]; omega),
    part_eq_append_iff (length_bytesOf _) (by rw [← listBytes]; omega),
    part_flatMap_bytesOf (by rw [← listBytes]; omega), ← listBytes] at hpart
  obtain ⟨hfirst, hcount, hentries⟩ := hpart
  refine ⟨readUInt64_of_part ?_ hfirst, readUInt64_of_part ?_ hcount, fun i id hentry => ?_⟩
  · rw [relisted, hall]
    omega
  · rw [relisted, hall]
    omega
  · have hi := (List.getElem?_eq_some_iff.mp hentry).1
    exact readUInt64_of_part (by rw [relisted, hall]; omega) (hentries i id hentry)

theorem addDataID_relisted (hlength : memory.length = blockSize)
    (hinside : place + 16 + 8 * ids.length ≤ blockSize) (id : BlockID) :
    (relisted block memory place size ids).addDataID id =
      if place + 16 + 8 * (ids.length + 1) ≤ blockSize then
        .ok (relisted block memory place size (ids ++ [id]), true)
      else .error .outOfBounds := by
  -- the number does not wrap around inside a block
  have hids : (UInt64.ofNat ids.length).toNat = ids.length := by
    rw [blockSize] at hinside
    rw [UInt64.toNat_ofNat', Nat.mod_eq_of_lt (by omega)]
  have hcount : UInt64.ofNat ids.length + 1 = .ofNat (ids ++ [id]).length := by
    rw [List.length_append, List.length_singleton, UInt64.ofNat_add]
    rfl
  have hwrite {entries : List BlockID} (hentries : entries.length = ids.length) (count : UInt64) :
      place + (bytesOf size ++ (bytesOf count ++ entries.flatMap bytesOf)).length ≤
        memory.length := by
    simp only [List.length_append, length_bytesOf, length_flatMap_bytesOf, hentries]
    omega
  have hnumber : writeUInt64 (relisted block memory place size ids).data (place + 8)
      (.ofNat ids.length + 1) = .ok (overwrite memory place
        (bytesOf size ++ (bytesOf (.ofNat (ids ++ [id]).length) ++ ids.flatMap bytesOf))) := by
    apply writeAt_eq_ok_iff.mpr
    refine ⟨?_, ?_⟩
    · rw [relisted, listBytes, length_overwrite (hwrite rfl _), length_bytesOf]
      omega
    · have hplace : place + 8 = place + (bytesOf size).length := by rw [length_bytesOf]
      rw [hcount, relisted, listBytes, hplace, overwrite_overwrite_middle]
      · simpa only [List.length_append] using hwrite rfl _
      · rw [length_bytesOf, length_bytesOf]
  have hlast : place + 16 + 8 * ids.length = place +
      (bytesOf size ++ (bytesOf (.ofNat (ids ++ [id]).length) ++ ids.flatMap bytesOf)).length := by
    simp only [List.length_append, length_bytesOf, length_flatMap_bytesOf]
    omega
  unfold addDataID
  have hready : (relisted block memory place size ids).setupIDs place =
      .ok (relisted block memory place size ids, place + 8, place + 16) := rfl
  have hsize : (relisted block memory place size ids).size = some place := rfl
  rw [hsize]
  dsimp only
  rw [hready, ok_bind]
  dsimp only
  rw [(readUInt64_relisted block size hlength hinside).2.1, ok_bind, hnumber, ok_bind, hids,
    writeUInt64, writeAt, length_overwrite (hwrite rfl _), length_bytesOf, hlength]
  split
  next hfits =>
    rw [if_pos (by omega), ok_bind, hlast, overwrite_overwrite]
    · simp only [relisted, listBytes, List.append_assoc, List.flatMap_append, List.flatMap_cons,
        List.flatMap_nil, List.append_nil]
    · rw [← Nat.add_assoc, ← hlast, length_bytesOf]
      omega
  next hfull =>
    rw [if_neg (by omega)]
    rfl

/-- The first ID sets the list up. -/
theorem addDataID_eq_relisted (hlength : memory.length = blockSize) (hinside : place + 8 ≤ blockSize)
    (hdata : block.data = overwrite memory place (bytesOf size)) (hsize : block.size = some place)
    (hnumber : block.blockNumber = none) (id : BlockID) :
    block.addDataID id = if place + 16 + 8 ≤ blockSize then
        .ok (relisted block memory place size [id], true)
      else .error .outOfBounds := by
  have hsizes : place + (bytesOf size).length ≤ memory.length := by
    rw [length_bytesOf]
    omega
  have hsetup : block.setupIDs place = if place + 16 ≤ blockSize then
      .ok (relisted block memory place size [], place + 8, place + 16)
      else .error .outOfBounds := by
    unfold setupIDs
    rw [hnumber]
    dsimp only
    rw [writeUInt64, writeAt, hdata, length_overwrite hsizes, length_bytesOf, hlength]
    split
    next hfits =>
      rw [ok_bind]
      have hplace : place + 8 = place + (bytesOf size).length := by rw [length_bytesOf]
      rw [hplace, overwrite_overwrite (by simp only [length_bytesOf]; omega), length_bytesOf]
      simp only [relisted, listBytes, List.length_nil, List.flatMap_nil, List.append_nil, hsize]
      rfl
    next hfull => rfl
  by_cases hfits : place + 16 ≤ blockSize
  · -- the rest is what `addDataID` does with an empty list
    have hempty : place + 16 + 8 * ([] : List BlockID).length ≤ blockSize := hfits
    have hrest := addDataID_relisted block size hlength hempty id
    rw [List.length_nil, List.nil_append] at hrest
    rw [← hrest]
    unfold addDataID
    rw [hsize]
    dsimp only
    rw [hsetup, if_pos hfits]
    rfl
  · unfold addDataID
    rw [hsize]
    dsimp only
    rw [hsetup, if_neg hfits, if_neg (by omega)]
    rfl

theorem runCalls_relisted (hlength : memory.length = blockSize) (more : List BlockID)
    (hinside : place + 16 + 8 * ids.length ≤ blockSize) :
    (relisted block memory place size ids).runCalls (more.map .addDataID) =
      if place + 16 + 8 * (ids.length + more.length) ≤ blockSize then
        .ok (relisted block memory place size (ids ++ more), true)
      else .error .outOfBounds := by
  induction more generalizing ids with
  | nil =>
      rw [List.append_nil, List.length_nil, Nat.add_zero]
      exact (if_pos hinside).symm
  | cons id more ih =>
      have hcall : MetaCall.run (relisted block memory place size ids) (.addDataID id) = _ :=
        addDataID_relisted block size hlength hinside id
      rw [List.length_cons, List.map_cons]
      by_cases hfits : place + 16 + 8 * (ids.length + 1) ≤ blockSize
      · rw [if_pos hfits] at hcall
        have hids : (ids ++ [id]).length = ids.length + 1 := by simp
        have hcount : ids.length + 1 + more.length = ids.length + (more.length + 1) := by omega
        rw [runCalls_cons hcall, ih (by rwa [hids]), hids, hcount, List.append_assoc,
          List.singleton_append]
      · rw [if_neg hfits] at hcall
        rw [if_neg (by omega), runCalls_cons_error hcall]

end Relisted

/-! ## Reading a record back -/

/-- An object that is made from memory in which a name of this length begins. -/
theorem ofData_eq {data fileName : Bytes} (hlength : data.length = blockSize)
    (hinside : 8 + fileName.length ≤ blockSize) (hname : fileName ≠ [])
    (hpart : part data 0 8 = bytesOf (.ofNat fileName.length)) (id : BlockID) :
    ofData data id = .ok ⟨data, id, some 8, some (8 + fileName.length),
      some (8 + fileName.length + 8), some (8 + fileName.length + 16),
      some (8 + fileName.length + 24)⟩ := by
  rw [blockSize] at hinside hlength
  have htoNat : (UInt64.ofNat fileName.length).toNat = fileName.length := by
    rw [UInt64.toNat_ofNat', Nat.mod_eq_of_lt (by omega)]
  have hne : UInt64.ofNat fileName.length ≠ 0 := by
    intro hzero
    rw [hzero] at htoNat
    exact hname (List.length_eq_zero_iff.mp htoNat.symm)
  rw [ofData, readUInt64_of_part (by omega) hpart, ok_bind, if_neg hne, htoNat]

/-- An object that shows a record has its bytes in the memory it was made from. -/
theorem laid_of_shows {data : Bytes} {record : MetaRecord} (hlength : data.length = blockSize)
    (hfits : record.Fits) (hname : record.name ≠ [])
    (hpart : part data 0 8 = bytesOf (.ofNat record.name.length)) {id : BlockID}
    {loaded : MetaBlock} (hload : ofData data id = .ok loaded) (hshows : loaded.Shows record) :
    Laid data record.name record.time record.size record.ids := by
  have hroom : 8 + record.name.length + 24 + 8 * record.ids.length ≤ blockSize := hfits
  rw [ofData_eq hlength (by omega) hname hpart] at hload
  obtain rfl := Except.ok.inj hload
  have htoNat {n : Nat} (hn : n ≤ blockSize) : (UInt64.ofNat n).toNat = n := by
    rw [blockSize] at hn
    rw [UInt64.toNat_ofNat', Nat.mod_eq_of_lt (by omega)]
  have hfileName := hshows.fileName
  have hcount := hshows.dataBlockNumber
  rw [getFileName] at hfileName
  dsimp only at hfileName
  rw [readUInt64_of_part (by omega) hpart, ok_bind, htoNat (by omega),
    readAt_of_le (by omega)] at hfileName
  refine ⟨hlength, hroom, hpart, Except.ok.inj hfileName,
    (readUInt64_eq_ok_iff.mp hshows.createTime).2, (readUInt64_eq_ok_iff.mp hshows.fileSize).2,
    (readUInt64_eq_ok_iff.mp hcount).2, fun i entry hentry => ?_⟩
  have hi := (List.getElem?_eq_some_iff.mp hentry).1
  have hget := hshows.dataBlockID (.ofNat i)
  have hle : ¬ UInt64.ofNat record.ids.length ≤ UInt64.ofNat i := by
    rw [UInt64.le_iff_toNat_le, htoNat (by omega), htoNat (by omega)]
    omega
  rw [getDataBlockID] at hget
  dsimp only at hget
  rw [getDataBlockNumber, getField] at hcount
  dsimp only at hcount
  rw [hcount, ok_bind, if_neg hle, htoNat (by omega), List.getD, hentry] at hget
  exact (readUInt64_eq_ok_iff.mp hget).2

/-! ## The second record -/

section Reuse

variable {block : MetaBlock} {first second : MetaRecord}

/-- The calls write the second record, and the object as well as those that are made from
its memory show it. -/
def Overwrites (block : MetaBlock) (second : MetaRecord) : Prop :=
  ∃ written, block.runCalls second.calls = .ok (written, true) ∧ written.Shows second ∧
    ∀ id, ∃ loaded, ofData written.data id = .ok loaded ∧ loaded.Shows second

/-- The memory with the name and the creation time of another record. -/
def headed (data : Bytes) (record : MetaRecord) : Bytes :=
  overwrite data 0 (bytesOf (.ofNat record.name.length) ++ record.name ++ bytesOf record.time)

theorem length_headed {data : Bytes} (hlength : data.length = blockSize) (hfits : second.Fits) :
    (headed data second).length = blockSize := by
  have hroom : 8 + second.name.length + 24 + 8 * second.ids.length ≤ blockSize := hfits
  rw [headed, length_overwrite, hlength]
  simp only [List.length_append, length_bytesOf]
  omega

/-- The object after these and the size were set. -/
def resized (block : MetaBlock) (first second : MetaRecord) : MetaBlock where
  data := overwrite (headed block.data second) (8 + first.name.length + 8) (bytesOf second.size)
  id := block.id
  filename := some 8
  ctime := some (8 + second.name.length)
  size := some (8 + first.name.length + 8)
  blockNumber := none
  firstBlockID := none

/-- The calls up to the size. -/
theorem runCalls_headed (h : block.Describes first.name first.time first.size first.ids)
    (hfits : second.Fits) (calls : List MetaCall) :
    block.runCalls (.setFileName second.name :: .setCreateTime second.time ::
        .setFileSize second.size :: calls) =
      (resized block first second).runCalls calls := by
  have hroom : 8 + second.name.length + 24 + 8 * second.ids.length ≤ blockSize := hfits
  have hinside := h.laid.inside
  have hlength := h.laid.length
  have hnameLength : (bytesOf (.ofNat second.name.length)).length = 8 := length_bytesOf _
  have hwrite : 0 + (bytesOf (.ofNat second.name.length)).length ≤ block.data.length := by omega
  have hcall₁ : MetaCall.run block (.setFileName second.name) = .ok (⟨overwrite block.data 0
      (bytesOf (.ofNat second.name.length) ++ second.name), block.id, some 8, none,
      some (8 + first.name.length + 8), none, none⟩, true) := by
    have hwrite₁ : writeUInt64 block.data 0 (.ofNat second.name.length) = .ok _ := if_pos hwrite
    have hwrite₂ : writeAt (overwrite block.data 0 (bytesOf (.ofNat second.name.length))) 8
        second.name = .ok _ := if_pos (by rw [length_overwrite hwrite]; omega)
    rw [MetaCall.run, setFileName, hwrite₁, ok_bind, h.filename]
    dsimp only
    rw [hwrite₂, ok_bind, h.size, ← overwrite_overwrite (by omega), hnameLength, Nat.zero_add]
  have hnamed : (bytesOf (.ofNat second.name.length) ++ second.name).length =
      8 + second.name.length := by
    rw [List.length_append, hnameLength]
  have hwrite' : 0 + (bytesOf (.ofNat second.name.length) ++ second.name).length ≤
      block.data.length := by omega
  have hcall₂ : MetaCall.run ⟨overwrite block.data 0
      (bytesOf (.ofNat second.name.length) ++ second.name), block.id, some 8, none,
      some (8 + first.name.length + 8), none, none⟩ (.setCreateTime second.time) =
        .ok (⟨headed block.data second, block.id, some 8, some (8 + second.name.length),
          some (8 + first.name.length + 8), none, none⟩, true) := by
    have hpart := part_overwrite hwrite'
    rw [hnamed, part_eq_append_iff hnameLength (by rw [length_overwrite hwrite']; omega)] at hpart
    have hread := readUInt64_of_part (by rw [length_overwrite hwrite']; omega) hpart.1
    have htoNat : (UInt64.ofNat second.name.length).toNat = second.name.length := by
      rw [blockSize] at hroom
      rw [UInt64.toNat_ofNat', Nat.mod_eq_of_lt (by omega)]
    have hwrite₃ : writeUInt64 (overwrite block.data 0
        (bytesOf (.ofNat second.name.length) ++ second.name)) (8 + second.name.length)
        second.time = .ok _ := if_pos (by rw [length_overwrite hwrite', length_bytesOf]; omega)
    -- the three writes are next to each other
    have hboth : overwrite (overwrite block.data 0
        (bytesOf (.ofNat second.name.length) ++ second.name)) (0 + _) (bytesOf second.time) =
          headed block.data second :=
      overwrite_overwrite (by rw [hnamed, length_bytesOf]; omega)
    rw [hnamed, Nat.zero_add] at hboth
    rw [MetaCall.run, setCreateTime]
    dsimp only
    rw [hread, ok_bind, htoNat, Option.getD_none, hwrite₃, ok_bind, hboth]
  have hcall₃ : MetaCall.run ⟨headed block.data second, block.id, some 8,
      some (8 + second.name.length), some (8 + first.name.length + 8), none, none⟩
      (.setFileSize second.size) =
        .ok (resized block first second, true) := by
    have hwrite₄ : writeUInt64 (headed block.data second) (8 + first.name.length + 8)
        second.size = .ok _ :=
      if_pos (by rw [length_headed hlength hfits, length_bytesOf]; omega)
    rw [MetaCall.run, setFileSize]
    dsimp only
    rw [Option.getD_some, hwrite₄, ok_bind]
    rfl
  rw [runCalls_cons hcall₁, runCalls_cons hcall₂, runCalls_cons hcall₃]

/-- What the calls leave if the IDs fit behind the size, and that they fail otherwise. -/
theorem runCalls_second (h : block.Describes first.name first.time first.size first.ids)
    (hfits : second.Fits) :
    (8 + first.name.length + 8 + second.tail.length ≤ blockSize →
      ∃ written, block.runCalls second.calls = .ok (written, true) ∧
        written.data = overwrite (headed block.data second) (8 + first.name.length + 8)
          second.tail ∧
        written.filename = some 8 ∧ written.ctime = some (8 + second.name.length) ∧
        written.size = some (8 + first.name.length + 8) ∧
        (second.ids = [] ∧ written.blockNumber = none ∧ written.firstBlockID = none ∨
          second.ids ≠ [] ∧ written.blockNumber = some (8 + first.name.length + 8 + 8) ∧
            written.firstBlockID = some (8 + first.name.length + 8 + 16))) ∧
    (¬ 8 + first.name.length + 8 + second.tail.length ≤ blockSize →
      block.runCalls second.calls = .error .outOfBounds) := by
  have hinside := h.laid.inside
  rw [MetaRecord.calls, runCalls_headed h hfits, tail]
  cases hids : second.ids with
  | nil =>
      rw [if_pos rfl, List.append_nil, length_bytesOf]
      refine ⟨fun _ => ⟨_, rfl, rfl, rfl, rfl, rfl, Or.inl ⟨rfl, rfl, rfl⟩⟩, fun hfull => ?_⟩
      omega
  | cons id more =>
      have hlength := length_headed h.laid.length hfits
      have hcall : MetaCall.run (resized block first second) (.addDataID id) = _ :=
        addDataID_eq_relisted (resized block first second) second.size hlength
          (by omega : 8 + first.name.length + 8 + 8 ≤ blockSize) rfl rfl rfl id
      rw [if_neg (by simp), List.map_cons, List.length_append, length_bytesOf, length_listBytes,
        List.length_cons]
      -- the first ID fails already, or one of those behind it
      by_cases hfirst : 8 + first.name.length + 8 + 16 + 8 ≤ blockSize
      · rw [if_pos hfirst] at hcall
        rw [runCalls_cons hcall, runCalls_relisted _ _ hlength more (by simpa using hfirst)]
        refine ⟨fun hroom => ?_, fun hfull => if_neg ?_⟩
        · rw [if_pos (by rw [List.length_singleton]; omega)]
          exact ⟨_, rfl, rfl, rfl, rfl, rfl, Or.inr ⟨by simp, rfl, rfl⟩⟩
        · rw [List.length_singleton]
          omega
      · rw [if_neg hfirst] at hcall
        refine ⟨fun hroom => ?_, fun _ => runCalls_cons_error hcall _⟩
        omega

theorem part_headed {data : Bytes} (hlength : data.length = blockSize) (hfits : second.Fits) :
    part (headed data second) 0 8 = bytesOf (.ofNat second.name.length) := by
  have hroom : 8 + second.name.length + 24 + 8 * second.ids.length ≤ blockSize := hfits
  have hsize : (bytesOf (.ofNat second.name.length) ++ second.name ++ bytesOf second.time).length =
      8 + second.name.length + 8 := by
    simp only [List.length_append, length_bytesOf]
  have hwhole : part (headed data second) 0 (8 + second.name.length + 8) = _ :=
    hsize ▸ part_overwrite (by rw [hsize]; omega)
  have hfirst := @part_part _ (headed data second) 0 0 8 (8 + second.name.length + 8) (by omega)
  rw [Nat.zero_add] at hfirst
  rw [← hfirst, hwhole, List.append_assoc]
  exact length_bytesOf (.ofNat second.name.length) ▸ part_append_left _ _

/-- What stands in the memory behind the length of the name. -/
theorem getElem?_headed {data : Bytes} (hlength : data.length = blockSize) (hfits : second.Fits)
    {i : Nat} (hi : 8 ≤ i) : (headed data second)[i]? =
      if i < 8 + second.name.length + 8 then second.bytes[i - 8]? else data[i]? := by
  have hroom : 8 + second.name.length + 24 + 8 * second.ids.length ≤ blockSize := hfits
  have hsize : (bytesOf (.ofNat second.name.length) ++ second.name ++ bytesOf second.time).length =
      8 + second.name.length + 8 := by
    simp only [List.length_append, length_bytesOf]
  rw [headed, getElem?_overwrite (by rw [hsize]; omega), hsize]
  by_cases hhead : i < 8 + second.name.length + 8
  · have hfront : second.bytes[i - 8]? = (second.name ++ bytesOf second.time)[i - 8]? := by
      apply List.getElem?_append_left
      rw [List.length_append, length_bytesOf]
      omega
    rw [if_pos (by omega), if_pos hhead, hfront, Nat.sub_zero, List.append_assoc,
      List.getElem?_append_right (by rw [length_bytesOf]; omega), length_bytesOf]
  · rw [if_neg (by omega), if_neg hhead]

/-- The bytes of the second record are in the memory exactly if they coincide. -/
theorem part_bytes_iff {data : Bytes} {place : Nat} (hlength : data.length = blockSize)
    (hfits : second.Fits) (hplace : 16 ≤ place) (hroom : place + second.tail.length ≤ blockSize) :
    part (overwrite (headed data second) place second.tail) 8 second.bytes.length = second.bytes ↔
      second.Coincides data place := by
  have hwrite : place + second.tail.length ≤ (headed data second).length := by
    rwa [length_headed hlength hfits]
  have hget {i : Nat} : (overwrite (headed data second) place second.tail)[8 + i]? =
      if place ≤ 8 + i ∧ 8 + i < place + second.tail.length then second.tail[8 + i - place]?
      else if 8 + i < 8 + second.name.length + 8 then second.bytes[i]? else data[8 + i]? := by
    rw [getElem?_overwrite hwrite, getElem?_headed hlength hfits (Nat.le_add_right 8 i),
      Nat.add_sub_cancel_left]
  rw [part_eq_iff]
  constructor
  · intro hpart
    refine ⟨hroom, fun i hi hinside => ?_, fun i hhead hinside hrest => ?_⟩
    · have hbyte := hpart (place + i - 8) (by omega)
      rw [hget, if_pos (by omega)] at hbyte
      rw [← hbyte]
      congr 1
      omega
    · have hbyte := hpart (i - 8) (by omega)
      rw [hget, if_neg (by omega), if_neg (by omega)] at hbyte
      rw [← hbyte]
      congr 1
      omega
  · rintro ⟨-, hcovered, hleft⟩ i hi
    rw [hget]
    by_cases htail : place ≤ 8 + i ∧ 8 + i < place + second.tail.length
    · rw [if_pos htail, ← hcovered (8 + i - place) (by omega) (by omega)]
      congr 1
      omega
    · rw [if_neg htail]
      split
      next => rfl
      next hhead =>
        rw [hleft (8 + i) (by omega) (by omega) htail, Nat.add_sub_cancel_left]

/-- An object as the calls leave it shows the record if the memory is laid out like it. -/
theorem shows_of_laid {written : MetaBlock} {memory : Bytes} {place : Nat}
    (hlaid : Laid written.data second.name second.time second.size second.ids)
    (hmemory : memory.length = blockSize) (hroom : place + second.tail.length ≤ blockSize)
    (hdata : written.data = overwrite memory place second.tail) (hfilename : written.filename = some 8)
    (hctime : written.ctime = some (8 + second.name.length)) (hsize : written.size = some place)
    (hlists : second.ids = [] ∧ written.blockNumber = none ∧ written.firstBlockID = none ∨
      second.ids ≠ [] ∧ written.blockNumber = some (place + 8) ∧
        written.firstBlockID = some (place + 16)) :
    written.Shows second := by
  have hlength := hlaid.length
  have hinside := hlaid.inside
  have hwrite : place + second.tail.length ≤ memory.length := by rwa [hmemory]
  have hsizes : second.tail.length = 8 + if second.ids = [] then 0 else 8 + 8 * second.ids.length := by
    rw [tail, List.length_append, length_bytesOf]
    split <;> simp
  have htail := part_overwrite hwrite
  rw [hsizes, ← hdata, tail, part_eq_append_iff (length_bytesOf _) (by omega)] at htail
  obtain ⟨hsizePart, hrest⟩ := htail
  have husable : written.Usable second.ids := by
    refine ⟨hlength, ?_, by rw [hfilename, hsize]; rfl, by simp [hsize]⟩
    rcases hlists with hnone | ⟨hne, hnumber, hfirst⟩
    · exact Or.inl ⟨hnone.2.1, hnone.2.2, hnone.1⟩
    · rw [if_neg hne] at hsizes hrest
      rw [if_neg hne, listBytes, part_eq_append_iff (length_bytesOf _) (by omega),
        part_flatMap_bytesOf (by omega)] at hrest
      exact Or.inr ⟨place + 8, hnumber, hfirst, by omega, hrest⟩
  refine ⟨?_, ?_, ?_, husable.getDataBlockNumber_eq, husable.getDataBlockID_getD⟩
  · rw [getFileName, hfilename]
    dsimp only
    rw [hlaid.readUInt64_nameLength, ok_bind, hlaid.toNat_nameLength, readAt_of_le (by omega),
      hlaid.name]
  · rw [getCreateTime, hctime]
    exact readUInt64_of_part (by omega) hlaid.ctime
  · rw [getFileSize, hsize]
    exact readUInt64_of_part (by omega) hsizePart

theorem overwrites_iff_coincides
    (h : block.Describes first.name first.time first.size first.ids) (hname : second.name ≠ [])
    (hfits : second.Fits) :
    block.Overwrites second ↔ second.Coincides block.data (8 + first.name.length + 8) := by
  have hlength := h.laid.length
  have hheaded := length_headed hlength hfits
  obtain ⟨hfit, hfull⟩ := runCalls_second h hfits
  by_cases hroom : 8 + first.name.length + 8 + second.tail.length ≤ blockSize
  · obtain ⟨written, hrun, hdata, hfilename, hctime, hsize, hlists⟩ := hfit hroom
    have hwrite : 8 + first.name.length + 8 + second.tail.length ≤
        (headed block.data second).length := by rwa [hheaded]
    have hwritten : written.data.length = blockSize := by rw [hdata, length_overwrite hwrite, hheaded]
    have hpart : part written.data 0 8 = bytesOf (.ofNat second.name.length) := by
      rw [hdata, part_overwrite_of_le hwrite (by omega), part_headed hlength hfits]
    rw [← part_bytes_iff hlength hfits (by omega) hroom, ← hdata, ← laid_iff hwritten hfits hpart]
    constructor
    · rintro ⟨written', hrun', -, hload⟩
      obtain rfl : written' = written := by
        rw [hrun] at hrun'
        exact (Prod.mk.inj (Except.ok.inj hrun')).1.symm
      -- what an object shows that is made of the memory stands there
      obtain ⟨loaded, hofData, hshows⟩ := hload 0
      exact laid_of_shows hwritten hfits hname hpart hofData hshows
    · intro hlaid
      refine ⟨written, hrun, shows_of_laid hlaid hheaded hroom hdata hfilename hctime hsize hlists,
        fun id => ?_⟩
      obtain ⟨loaded, hofData, -, -, hdescribes⟩ := hlaid.ofData hname id
      exact ⟨loaded, hofData, hdescribes.shows⟩
  · constructor
    · rintro ⟨written, hrun, -⟩
      rw [hfull hroom] at hrun
      exact absurd hrun (by simp)
    · intro hcoincides
      exact absurd hcoincides.room hroom

theorem bytesOf_inj {m n : UInt64} (heq : bytesOf m = bytesOf n) : m = n := by
  rw [← ofNat_ofLE_bytesOf m, heq, ofNat_ofLE_bytesOf]

/-- What is behind the creation time, counted from the old place of the size. -/
theorem getElem?_bytes_behind (hlength : first.name.length = second.name.length) (i : Nat) :
    second.bytes[8 + first.name.length + 8 + i - 8]? =
      (bytesOf second.size ++ listBytes second.ids)[i]? := by
  have hhead : (second.name ++ bytesOf second.time).length = second.name.length + 8 := by
    rw [List.length_append, length_bytesOf]
  rw [bytes, List.getElem?_append_right (by omega), hhead]
  congr 1
  omega

/-- The number in the memory of a record is zero only without any IDs. -/
theorem count_eq_zero_iff {data : Bytes}
    (hlaid : Laid data first.name first.time first.size first.ids) :
    part data (8 + first.name.length + 16) 8 = bytesOf 0 ↔ first.ids = [] := by
  rw [hlaid.count]
  constructor
  · intro heq
    have hinside := hlaid.inside
    rw [blockSize] at hinside
    have hzero := congrArg UInt64.toNat (bytesOf_inj heq)
    rw [UInt64.toNat_ofNat', Nat.mod_eq_of_lt (by omega)] at hzero
    exact List.length_eq_zero_iff.mp hzero
  · intro hnil
    rw [hnil]
    rfl

/-- Once an ID is written, everything behind the creation time is. -/
theorem coincides_of_ids (hfits : second.Fits) (hlength : first.name.length = second.name.length)
    (hids : second.ids ≠ []) (data : Bytes) :
    second.Coincides data (8 + first.name.length + 8) := by
  have hroom : 8 + second.name.length + 24 + 8 * second.ids.length ≤ blockSize := hfits
  have hbytes := length_bytes second
  have htail : second.tail = bytesOf second.size ++ listBytes second.ids := by
    rw [tail, if_neg hids]
  have hsize : second.tail.length = 16 + 8 * second.ids.length := by
    rw [htail, List.length_append, length_bytesOf, length_listBytes]
    omega
  refine ⟨by omega, fun i _ _ => ?_, fun i _ _ hrest => ?_⟩
  · rw [getElem?_bytes_behind hlength, htail]
  · omega

/-- Without any IDs the number of those that were there before stays. -/
theorem coincides_iff_of_no_ids {data : Bytes}
    (hlaid : Laid data first.name first.time first.size first.ids) (hfits : second.Fits)
    (hlength : first.name.length = second.name.length) (hids : second.ids = []) :
    second.Coincides data (8 + first.name.length + 8) ↔ first.ids = [] := by
  have hroom : 8 + second.name.length + 24 + 8 * second.ids.length ≤ blockSize := hfits
  have hbytes := length_bytes second
  have htail : second.tail = bytesOf second.size := by
    rw [tail, if_pos hids, List.append_nil]
  have hzeros : listBytes second.ids = bytesOf 0 := by
    rw [hids]
    rfl
  have hget (j : Nat) (hj : j < 8) :
      second.bytes[8 + first.name.length + 16 + j - 8]? = (bytesOf 0)[j]? := by
    have hplace : 8 + first.name.length + 16 + j - 8 =
        8 + first.name.length + 8 + (8 + j) - 8 := by omega
    rw [hplace, getElem?_bytes_behind hlength, hzeros,
      List.getElem?_append_right (by rw [length_bytesOf]; omega), length_bytesOf,
      Nat.add_sub_cancel_left]
  have hpart : part data (8 + first.name.length + 16) 8 = bytesOf 0 ↔
      ∀ j < 8, data[8 + first.name.length + 16 + j]? = (bytesOf 0)[j]? :=
    length_bytesOf 0 ▸ part_eq_iff
  rw [hids, List.length_nil] at hbytes
  rw [← count_eq_zero_iff hlaid, hpart]
  constructor
  · rintro ⟨-, -, hleft⟩ j hj
    rw [hleft _ (by omega) (by omega) (by rw [htail, length_bytesOf]; omega), hget j hj]
  · intro hzero
    refine ⟨?_, fun i hi _ => ?_, fun i hhead hinside hrest => ?_⟩
    · rw [htail, length_bytesOf]
      omega
    · rw [getElem?_bytes_behind hlength, htail, List.getElem?_append_left]
      rwa [htail] at hi
    · rw [htail, length_bytesOf] at hrest
      have hi : i = 8 + first.name.length + 16 + (i - (8 + first.name.length + 16)) := by omega
      rw [hi, hget _ (by omega), hzero _ (by omega)]

/-- With a name of the same length everything is in its place, but for the number of IDs. -/
theorem coincides_iff_of_length_eq {data : Bytes}
    (hlaid : Laid data first.name first.time first.size first.ids) (hfits : second.Fits)
    (hlength : first.name.length = second.name.length) :
    second.Coincides data (8 + first.name.length + 8) ↔ second.ids ≠ [] ∨ first.ids = [] := by
  by_cases hids : second.ids = []
  · rw [coincides_iff_of_no_ids hlaid hfits hlength hids]
    exact ⟨Or.inr, fun h => h.resolve_left fun hne => hne hids⟩
  · exact ⟨fun _ => Or.inl hids, fun _ => coincides_of_ids hfits hlength hids data⟩

/-- The object shows a second record in every case in which its name has the length of
the first one and the number of IDs is written. With another length it does so only
where bytes coincide. -/
theorem overwrites_iff (h : block.Describes first.name first.time first.size first.ids)
    (hname : second.name ≠ []) (hfits : second.Fits) :
    block.Overwrites second ↔
      first.name.length = second.name.length ∧ (second.ids ≠ [] ∨ first.ids = []) ∨
        first.name.length ≠ second.name.length ∧
          second.Coincides block.data (8 + first.name.length + 8) := by
  rw [overwrites_iff_coincides h hname hfits]
  by_cases hlength : first.name.length = second.name.length
  · rw [coincides_iff_of_length_eq h.laid hfits hlength]
    simp [hlength]
  · simp [hlength]

/-- The name `b` in place of `a`. -/
theorem overwrites_iff_example : ∃ block : MetaBlock, block.Describes [97] 0 0 [] ∧
    block.Overwrites ⟨[98], 1, 2, [3]⟩ := by
  obtain ⟨-, -, sized, -, -, -, -, -, hsized⟩ := @runCalls_fields [97] (by decide) 0 0
  exact ⟨sized, hsized, (@overwrites_iff sized ⟨[97], 0, 0, []⟩ ⟨[98], 1, 2, [3]⟩ hsized (by simp)
    (by decide)).mpr (Or.inl ⟨rfl, Or.inl (by simp)⟩)⟩

/-- With the name `bc` in place of `a` the size is found in front of its place. -/
theorem not_overwrites_longer_name : ∃ block : MetaBlock, block.Describes [97] 0 0 [] ∧
    MetaRecord.Fits ⟨[98, 99], 0, 1, []⟩ ∧ ¬ block.Overwrites ⟨[98, 99], 0, 1, []⟩ := by
  obtain ⟨-, -, sized, -, -, -, -, -, hsized⟩ := @runCalls_fields [97] (by decide) 0 0
  refine ⟨sized, hsized, by decide, fun hover => ?_⟩
  have hcoincides := (@overwrites_iff_coincides sized ⟨[97], 0, 0, []⟩ ⟨[98, 99], 0, 1, []⟩ hsized
    (by simp) (by decide)).mp hover
  have hbyte := hcoincides.covered 0 (by decide) (by decide)
  exact absurd hbyte (by decide)

end Reuse

end MetaBlock

end Doopey
