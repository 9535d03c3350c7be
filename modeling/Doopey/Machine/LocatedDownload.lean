import Doopey.Machine.UploadDownload

/-!
# Downloading a file from several machines

If the client is given, for every piece of a file, the address of some machine that has the
piece, then what it stores is the file, whichever machines these are.
-/

namespace Doopey

open Foundation FileUploader Client

/-- What a worker writes for a block lies in the file and has its bytes, and covers the piece
with this number. -/
structure Shares (content : Bytes) (i : Nat) (writes : List (Nat × Bytes)) : Prop where
  inside {write : Nat × Bytes} : write ∈ writes → write.1 + write.2.length ≤ content.length ∧
    write.2 = part content write.1 write.2.length
  covers {index : Nat} : i * blockSize ≤ index → index < (i + 1) * blockSize →
    index < content.length → ∃ write ∈ writes, Covers write index

theorem exists_piece_iff {content : Bytes} {i : Nat} :
    i < (piecesOf content).length ↔ i * blockSize < content.length := by
  rw [length_piecesOf, blockSize]
  omega

/-- The block of a piece starts with the piece. -/
theorem part_newData {content : Bytes} {i offset size : Nat}
    (hsize : offset + size ≤ min blockSize (content.length - i * blockSize)) :
    part (newData (part content (i * blockSize) blockSize)) offset size =
      part content (i * blockSize + offset) size := by
  have hlength : (part content (i * blockSize) blockSize).length =
      min blockSize (content.length - i * blockSize) := by
    rw [part, List.length_take, List.length_drop]
  rw [newData, overwrite, List.take_zero, List.nil_append, part_append_of_le (by omega),
    part_part _ _ (by omega)]

/-- A worker that is sent to a machine with the piece stores its share of the file. -/
theorem receiveBlock_of_piece {serves : Bytes → Option BlockManager} {content ip : Bytes}
    {manager : BlockManager} {id : BlockID} {i : Nat} (hi : i < (piecesOf content).length)
    (hserves : serves ip = some manager)
    (hstored : manager.files id = some (newData (part content (i * blockSize) blockSize)))
    (calls : Socket.Calls) : ∃ writes, receiveBlock serves
        ⟨.ofNat (min blockSize (content.length - i * blockSize)), i, id, ip⟩ calls =
          .ok (writes, true) ∧ Shares content i writes := by
  rw [exists_piece_iff] at hi
  have hfits := Nat.min_le_left blockSize (content.length - i * blockSize)
  have htoNat : (UInt64.ofNat (min blockSize (content.length - i * blockSize))).toNat =
      min blockSize (content.length - i * blockSize) := by
    rw [UInt64.toNat_ofNat', Nat.mod_eq_of_lt]
    rw [blockSize] at hfits ⊢
    omega
  have hsize : (newData (part content (i * blockSize) blockSize)).length = blockSize := by
    rw [newData, length_overwrite, length_allocateMem]
    rw [length_allocateMem, part, List.length_take]
    omega
  obtain ⟨writes, hrun, hinside, hall⟩ := @writeLoop_spec
    (newData (part content (i * blockSize) blockSize))
    (min blockSize (content.length - i * blockSize)) (by rw [hsize]; exact hfits) (i * blockSize)
    (min blockSize (content.length - i * blockSize) + 1) 0 (by omega) calls
  refine ⟨writes, ?_, ⟨fun {write} hmem => ?_, fun {index} hfrom hto hindex => ?_⟩⟩
  · rw [receiveBlock_of_stored hserves hstored hsize]
    dsimp only
    rw [htoNat, hrun, ok_bind]
  · obtain ⟨offset, hstart, hend, hdata⟩ := hinside write hmem
    refine ⟨by omega, hdata.trans ?_⟩
    rw [part_newData hend, hstart]
  · obtain ⟨offset, rfl⟩ := Nat.exists_eq_add_of_le hfrom
    rw [Nat.succ_mul] at hto
    apply hall offset (Nat.zero_le _)
    omega

/-- The shares of all pieces are the file, in whatever order they are written. -/
theorem writeAll_shares {content : Bytes} {shares : List (List (Nat × Bytes))}
    (hcount : shares.length = (piecesOf content).length)
    (hshares : ∀ i writes, shares[i]? = some writes → Shares content i writes)
    {order : List (Nat × Bytes)} (hperm : order.Perm shares.flatten) :
    writeAll [] order = content := by
  apply writeAll_eq
  · intro write hmem
    obtain ⟨writes, hmemShare, hwrite⟩ := List.mem_flatten.mp (hperm.mem_iff.mp hmem)
    obtain ⟨i, hi⟩ := List.getElem?_of_mem hmemShare
    exact (hshares i writes hi).inside hwrite
  · intro index hlt
    have hle := Nat.div_mul_le_self index blockSize
    have hi : index / blockSize < shares.length := by
      rw [hcount, exists_piece_iff]
      exact Nat.lt_of_le_of_lt hle hlt
    have hnext : index < (index / blockSize + 1) * blockSize := by
      rw [blockSize]
      omega
    have hget := List.getElem?_eq_getElem hi
    obtain ⟨write, hwrite, hcovers⟩ := (hshares _ _ hget).covers hle hnext hlt
    exact ⟨write, hperm.mem_iff.mpr (List.mem_flatten.mpr
      ⟨_, List.mem_of_getElem? hget, hwrite⟩), hcovers⟩

/-- The blocks that the client fetches. -/
def blocksAt (place : BlockID → Option Bytes) (content : Bytes) (ids : List BlockID) :
    List BlockInfo :=
  ids.mapIdx fun i id =>
    ⟨.ofNat (min blockSize (content.length - i * blockSize)), i, id, (place id).getD []⟩

section Located

variable {place : BlockID → Option Bytes} {serves : Bytes → Option BlockManager} {content : Bytes}
  {ids : List BlockID}

theorem sized_located (hlength : content.length < 2 ^ 64) :
    sized (ids.mapIdx fun i id => ⟨0, 0 + i, id, (place id).getD []⟩) (.ofNat content.length) =
      blocksAt place content ids := by
  apply List.ext_getElem?
  intro i
  rw [getElem?_sized _ hlength, blocksAt, List.getElem?_mapIdx, List.getElem?_mapIdx,
    Option.map_map]
  congr 1
  funext id
  rw [Function.comp_apply, Nat.zero_add]

/-- The machine at the address that the client is given has the piece. -/
def Located (place : BlockID → Option Bytes) (serves : Bytes → Option BlockManager)
    (id : BlockID) (piece : Bytes) : Prop :=
  ∃ ip manager, place id = some ip ∧ serves ip = some manager ∧
    manager.files id = some (newData piece)

/-- A worker stores the share of the block that it is given. -/
theorem receiveBlock_blocksAt
    (hpieces : List.Forall₂ (Located place serves) ids (piecesOf content)) {i : Nat}
    {info : BlockInfo} (hinfo : (blocksAt place content ids)[i]? = some info)
    (calls : Socket.Calls) :
    ∃ writes, receiveBlock serves info calls = .ok (writes, true) ∧ Shares content i writes := by
  rw [blocksAt, List.getElem?_mapIdx] at hinfo
  obtain ⟨id, hid, rfl⟩ := Option.map_eq_some_iff.mp hinfo
  have hi : i < (piecesOf content).length := by
    rw [← hpieces.length_eq]
    exact (List.getElem?_eq_some_iff.mp hid).1
  have hpiece : (piecesOf content)[i]? = some (part content (i * blockSize) blockSize) := by
    rw [getElem?_piecesOf, if_pos (exists_piece_iff.mp hi)]
  obtain ⟨ip, manager, hplace, hserves, hstored⟩ := related_of_getElem? hpieces hid hpiece
  rw [hplace, Option.getD_some]
  exact receiveBlock_of_piece hi hserves hstored calls

/-- The download of a file whose pieces are where the client is told. -/
theorem downloads_of_located (hcount : (piecesOf content).length < 2 ^ 32)
    (hpieces : List.Forall₂ (Located place serves) ids (piecesOf content)) :
    Downloads (.new .file .fileACK :: FileManager.numberMessage (.ofNat content.length) ::
        FileManager.numberMessage (.ofNat ids.length) ::
        (places place ids ++ [.new .file .fileACK])) serves ids content := by
  have hids := hpieces.length_eq
  have hlength : content.length < 2 ^ 64 := by
    rw [length_piecesOf, blockSize] at hcount
    omega
  have hall : ∀ id ∈ ids, (place id).isSome := by
    intro id hid
    obtain ⟨piece, -, ip, manager, hplace, -⟩ := exists_of_mem_left hpieces hid
    rw [hplace, Option.isSome_some]
  have hreplies (isFree : Nat → Nat → Bool) (fuel : Nat) :=
    FileManager.getFile_numbers isFree fuel (.ofNat content.length)
      (by omega : ids.length < 2 ^ 64) (places place ids ++ [.new .file .fileACK])
  have hread := @readInfos_places place ids 0 [.new .file .fileACK]
  rw [located, if_pos (List.all_eq_true.mpr hall)] at hread
  refine ⟨blocksAt place content ids, ?_, ?_, ?_, ?_, ?_⟩
  · apply List.ext_getElem?
    intro i
    rw [List.getElem?_map, blocksAt, List.getElem?_mapIdx, Option.map_map]
    exact Option.map_id'
  · intro isFree fuel answer hrun
    rw [hreplies, hread, ok_bind] at hrun
    obtain ⟨tasks, hdispatch, hanswer⟩ := bind_eq_ok_iff.mp hrun
    refine ⟨tasks, (Except.ok.inj hanswer).symm, ?_⟩
    rw [sized_of_dispatch hdispatch, sized_located hlength]
  · intro isFree hresponsive
    obtain ⟨fuel, tasks, hdispatch⟩ := hresponsive.dispatch
      (ids.mapIdx fun i id => ⟨0, 0 + i, id, (place id).getD []⟩) (.ofNat content.length) 0
    refine ⟨fuel, tasks, ?_⟩
    rw [hreplies, hread, ok_bind]
    dsimp only
    rw [hdispatch, ok_bind]
  · intro info hinfo calls
    obtain ⟨i, hi⟩ := List.getElem?_of_mem hinfo
    obtain ⟨writes, hrun, -⟩ := receiveBlock_blocksAt hpieces hi calls
    exact ⟨writes, hrun⟩
  · intro writes hstores order hperm
    apply writeAll_shares ?_ ?_ hperm
    · rw [← hstores.length_eq, blocksAt, List.length_mapIdx, hids]
    · intro i share hshare
      have hi : i < (blocksAt place content ids).length := by
        rw [hstores.length_eq]
        exact (List.getElem?_eq_some_iff.mp hshare).1
      have hget := List.getElem?_eq_getElem hi
      obtain ⟨calls, hcalls⟩ := related_of_getElem? hstores hget hshare
      obtain ⟨writes', hrun, hshares⟩ := receiveBlock_blocksAt hpieces hget calls
      rw [hcalls] at hrun
      rw [(Prod.mk.inj (Except.ok.inj hrun)).1]
      exact hshares

end Located

end Doopey
