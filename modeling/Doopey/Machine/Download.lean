import Mathlib.Logic.Function.Iterate
import Doopey.Foundation.FileWrite
import Doopey.Machine.Client

/-!
# Downloading a file

The places of the blocks, the search for a free worker, the share of the file
that every block gets, and the calls of `write` with which a worker stores its
share.
-/

namespace Doopey

open Foundation Client

/-- The message with the place of a block. -/
def placeMessage (id : BlockID) (ip : Bytes) : Message :=
  ((Message.new .file .requestFile).addData (bytesOf id)).addData ip

/-! ## The workers -/

/-- The worker that is asked after another one was not free. -/
def nextWorker (j : Nat) : Nat := if j = threadNum - 1 then 1 else j + 1

/-- Again and again, a worker stays free for a round of questions. -/
def Responsive (isFree : Nat → Nat → Bool) : Prop :=
  ∀ poll, ∃ worker, 1 ≤ worker ∧ worker < threadNum ∧ ∃ later, poll ≤ later ∧
    ∀ time, later ≤ time → time < later + threadNum → isFree time worker = true

section Workers

variable {isFree : Nat → Nat → Bool}

theorem findFree_extends (fuel poll j : Nat) :
    Extends (findFree isFree fuel poll j) (findFree isFree (fuel + 1) poll j) := by
  induction fuel generalizing poll j with
  | zero => exact .of_error _ _
  | succ fuel ih =>
      rw [findFree, findFree]
      split
      next => exact .refl _
      next => exact ih _ _

theorem dispatch_extends (fuel : Nat) (infos : List BlockInfo) (fileSize : UInt64) (poll : Nat) :
    Extends (dispatch isFree fuel infos fileSize poll)
      (dispatch isFree (fuel + 1) infos fileSize poll) := by
  induction infos generalizing fileSize poll with
  | nil => exact .refl _
  | cons info infos ih =>
      rw [dispatch, dispatch]
      apply Extends.bind (findFree_extends fuel poll 0)
      intro found
      exact .bind (ih _ _) fun _ => .refl _

/-- The search ends when it comes to a worker that is free. -/
theorem findFree_of_isFree {poll j : Nat} (count : Nat)
    (hfree : isFree (poll + count) (nextWorker^[count] j) = true) :
    ∃ fuel found, findFree isFree fuel poll j = .ok found := by
  induction count generalizing poll j with
  | zero =>
      have hnow : isFree poll j = true := hfree
      exact ⟨1, _, by rw [findFree, if_pos hnow]⟩
  | succ count ih =>
      by_cases hnow : isFree poll j = true
      · exact ⟨1, _, by rw [findFree, if_pos hnow]⟩
      · obtain ⟨fuel, found, hrun⟩ := @ih (poll + 1) (nextWorker j)
          (by rwa [Nat.add_assoc, Nat.add_comm 1])
        exact ⟨fuel + 1, found, by rw [findFree, if_neg hnow]; exact hrun⟩

theorem nextWorker_lt {j : Nat} (hj : j < threadNum) (count : Nat) :
    nextWorker^[count] j < threadNum := by
  induction count generalizing j with
  | zero => exact hj
  | succ count ih =>
      apply ih
      unfold nextWorker threadNum at *
      split <;> omega

/-- If workers become free again and again, every search ends. -/
theorem Responsive.findFree (h : Responsive isFree) (poll : Nat) :
    ∃ fuel found, findFree isFree fuel poll 0 = .ok found := by
  obtain ⟨worker, hpos, hlt, later, hlater, hfree⟩ := h poll
  obtain ⟨wait, rfl⟩ := Nat.exists_eq_add_of_le hlater
  have hround : ∀ j < threadNum, ∀ worker < threadNum, 1 ≤ worker →
      ∃ count < threadNum, nextWorker^[count] j = worker := by decide
  obtain ⟨count, hcount, heq⟩ :=
    hround _ (nextWorker_lt (by decide : 0 < threadNum) wait) worker hlt hpos
  apply findFree_of_isFree (count + wait)
  rw [Function.iterate_add_apply, heq]
  exact hfree _ (by omega) (by omega)

/-! ## The share of every block -/

/-- The blocks with the number of bytes that each contributes to a file. -/
def sized : List BlockInfo → UInt64 → List BlockInfo
  | [], _ => []
  | info :: infos, fileSize =>
      let wsize := if .ofNat blockSize < fileSize then .ofNat blockSize else fileSize
      { info with wsize := wsize } :: sized infos (fileSize - wsize)

/-- Whichever workers are free, the blocks are handed out in order. -/
theorem sized_of_dispatch {fuel : Nat} {infos : List BlockInfo} {fileSize : UInt64} {poll : Nat}
    {tasks : List (Nat × BlockInfo)} (hrun : dispatch isFree fuel infos fileSize poll = .ok tasks) :
    tasks.map Prod.snd = sized infos fileSize := by
  induction infos generalizing fileSize poll tasks with
  | nil =>
      rw [dispatch] at hrun
      rw [← Except.ok.inj hrun]
      rfl
  | cons info infos ih =>
      rw [dispatch] at hrun
      obtain ⟨⟨worker, poll'⟩, -, hrun⟩ := bind_eq_ok_iff.mp hrun
      obtain ⟨rest, hrest, hrun⟩ := bind_eq_ok_iff.mp hrun
      rw [← Except.ok.inj hrun, List.map_cons, ih hrest]
      rfl

/-- If workers become free again and again, every block is handed out. -/
theorem Responsive.dispatch (h : Responsive isFree) (infos : List BlockInfo) (fileSize : UInt64)
    (poll : Nat) : ∃ fuel tasks, dispatch isFree fuel infos fileSize poll = .ok tasks := by
  induction infos generalizing fileSize poll with
  | nil => exact ⟨0, [], rfl⟩
  | cons info infos ih =>
      obtain ⟨fuel, ⟨worker, poll'⟩, hfound⟩ := h.findFree poll
      let wsize := if .ofNat blockSize < fileSize then .ofNat blockSize else fileSize
      obtain ⟨fuel', tasks, hrest⟩ := ih (fileSize - wsize) poll'
      have hfound' := Extends.of_le (fun fuel => findFree_extends fuel poll 0)
        (Nat.le_max_left fuel fuel') _ hfound
      have hrest' := Extends.of_le (fun fuel => dispatch_extends fuel infos _ poll')
        (Nat.le_max_right fuel fuel') _ hrest
      refine ⟨max fuel fuel', (worker, { info with wsize := wsize }) :: tasks, ?_⟩
      rw [Client.dispatch, hfound', ok_bind]
      dsimp only
      rw [hrest', ok_bind]

end Workers

/-- The blocks share the file without a rest. -/
theorem getElem?_sized (infos : List BlockInfo) {length : Nat} (hlength : length < 2 ^ 64)
    (i : Nat) : (sized infos (.ofNat length))[i]? = infos[i]?.map fun info =>
      { info with wsize := .ofNat (min blockSize (length - i * blockSize)) } := by
  induction infos generalizing length i with
  | nil => rfl
  | cons info infos ih =>
      have hmod : length % 2 ^ 64 = length := Nat.mod_eq_of_lt hlength
      have hwsize : (if UInt64.ofNat blockSize < .ofNat length then UInt64.ofNat blockSize
          else .ofNat length) = .ofNat (min blockSize length) := by
        have hiff : UInt64.ofNat blockSize < .ofNat length ↔ blockSize < length := by
          rw [UInt64.lt_iff_toNat_lt, UInt64.toNat_ofNat', UInt64.toNat_ofNat', hmod]
          rfl
        by_cases hlt : blockSize < length
        · rw [if_pos (hiff.mpr hlt), Nat.min_eq_left (Nat.le_of_lt hlt)]
        · rw [if_neg (mt hiff.mp hlt), Nat.min_eq_right (Nat.le_of_not_lt hlt)]
      rw [sized, hwsize, ← UInt64.ofNat_sub (Nat.min_le_right _ _)]
      cases i with
      | zero => simp
      | succ i =>
          have hrest : length - min blockSize length - i * blockSize =
              length - (i + 1) * blockSize := by
            rw [Nat.succ_mul]
            omega
          rw [List.getElem?_cons_succ, List.getElem?_cons_succ, ih (by omega), hrest]

/-! ## The places of the blocks -/

/-- The messages with the places, up to the first block that is not found. -/
def places (locate : BlockID → Option Bytes) : List BlockID → List Message
  | [] => []
  | id :: ids =>
      match locate id with
      | none => [.new .file .fileError]
      | some ip => placeMessage id ip :: places locate ids

/-- What the client makes of the places: the blocks, if all of them are found. -/
def located (locate : BlockID → Option Bytes) (start : Nat) (ids : List BlockID) :
    Option (List BlockInfo) :=
  if ids.all fun id => (locate id).isSome then
    some (ids.mapIdx fun i id => ⟨0, start + i, id, (locate id).getD []⟩)
  else none

variable {locate : BlockID → Option Bytes}

theorem places_of_forall {ids : List BlockID} (hall : ∀ id ∈ ids, (locate id).isSome) :
    places locate ids = ids.map fun id => placeMessage id ((locate id).getD []) := by
  induction ids with
  | nil => rfl
  | cons id ids ih =>
      obtain ⟨hfirst, hrest⟩ := List.forall_mem_cons.mp hall
      obtain ⟨ip, hip⟩ := Option.isSome_iff_exists.mp hfirst
      rw [places, hip, List.map_cons, ih hrest, hip]
      rfl

theorem located_cons {id : BlockID} {ip : Bytes} (hip : locate id = some ip) (start : Nat)
    (ids : List BlockID) :
    located locate start (id :: ids) =
      (located locate (start + 1) ids).map (⟨0, start, id, ip⟩ :: ·) := by
  unfold located
  rw [List.all_cons, hip, Option.isSome_some, Bool.true_and, List.mapIdx_cons, hip]
  split
  next =>
    simp only [Option.map_some, Option.getD_some, Nat.add_zero, Nat.add_assoc, Nat.add_comm 1]
  next => rfl

theorem readInfos_placeMessage (id : BlockID) (ip : Bytes) (start count : Nat)
    (replies : List Message) :
    readInfos start (count + 1) (placeMessage id ip :: replies) =
      readInfos (start + 1) count replies >>= fun infos =>
        .ok (infos.map (⟨0, start, id, ip⟩ :: ·)) := by
  have hdata : (placeMessage id ip).data = bytesOf id ++ ip := rfl
  have hcmd : (placeMessage id ip).Is .requestFile := rfl
  have hdrop : (bytesOf id ++ ip).drop 8 = ip := List.drop_left' (length_bytesOf id)
  rw [readInfos, if_neg (not_not_intro hcmd), hdata, readUInt64_append, ok_bind, hdrop]

/-- The places are read in the order in which they were sent, and none after an error. -/
theorem readInfos_places (ids : List BlockID) (start : Nat) (rest : List Message) :
    readInfos start ids.length (places locate ids ++ rest) = .ok (located locate start ids) := by
  induction ids generalizing start with
  | nil => rfl
  | cons id ids ih =>
      cases hip : locate id with
      | none =>
          have hcmd : ¬ (Message.new .file .fileError).Is .requestFile := by decide
          have hnone : located locate start (id :: ids) = none := by
            simp [located, hip]
          rw [places, hip, hnone]
          exact if_pos hcmd
      | some ip =>
          rw [places, hip, located_cons hip]
          dsimp only
          rw [List.cons_append, List.length_cons, readInfos_placeMessage, ih, ok_bind]

/-- Every one of the messages is waited for. -/
theorem readInfos_take {ids : List BlockID} {count : Nat}
    (hcount : count < (places locate ids).length) (start : Nat) :
    readInfos start ids.length ((places locate ids).take count) = .error .badPointer := by
  induction ids generalizing start count with
  | nil => exact absurd hcount (Nat.not_lt_zero _)
  | cons id ids ih =>
      cases count with
      | zero => rfl
      | succ count =>
          cases hip : locate id with
          | none =>
              rw [places, hip] at hcount
              exact absurd (Nat.lt_of_succ_lt_succ hcount) (Nat.not_lt_zero _)
          | some ip =>
              rw [places, hip] at hcount ⊢
              rw [List.take_succ_cons, List.length_cons, readInfos_placeMessage,
                ih (Nat.lt_of_succ_lt_succ hcount), error_bind]

/-- The places of blocks that are all on one machine. -/
theorem readInfos_eq {ids : List BlockID} {ip : Bytes} (rest : List Message) (start : Nat) :
    readInfos start ids.length (ids.map (fun id => placeMessage id ip) ++ rest) =
      .ok (some (ids.mapIdx fun i id => ⟨0, start + i, id, ip⟩)) := by
  have hall : ∀ id ∈ ids, (some ip).isSome := fun _ _ => rfl
  have hread := @readInfos_places (fun _ => some ip) ids start rest
  rw [places_of_forall hall, located, if_pos (List.all_eq_true.mpr hall)] at hread
  exact hread

/-! ## Storing a block -/

/-- Whatever the calls of `write` transfer, they store the share of the block. -/
theorem writeLoop_spec {data : Bytes} {wsize : Nat} (hwsize : wsize ≤ data.length) (start : Nat)
    {fuel wrAmount : Nat} (hfuel : wsize - wrAmount < fuel) (calls : Socket.Calls) :
    ∃ writes, writeLoop data start wsize fuel calls wrAmount = .ok writes ∧
      (∀ write ∈ writes, ∃ offset, write.1 = start + offset ∧
        offset + write.2.length ≤ wsize ∧ write.2 = part data offset write.2.length) ∧
      ∀ index, wrAmount ≤ index → index < wsize →
        ∃ write ∈ writes, Covers write (start + index) := by
  induction fuel generalizing wrAmount calls with
  | zero => omega
  | succ fuel ih =>
      by_cases hmore : wrAmount < wsize
      · obtain ⟨wrOnce, calls', htransfer, hpos, hle⟩ :=
          @Socket.transfer_bounds calls (wsize - wrAmount) (by omega)
        obtain ⟨writes, hrun, hinside, hall⟩ :=
          @ih (wrAmount + wrOnce) (by omega) calls'
        have hlength : (part data wrAmount wrOnce).length = wrOnce := length_part (by omega)
        refine ⟨(start + wrAmount, part data wrAmount wrOnce) :: writes, ?_, ?_, ?_⟩
        · rw [writeLoop, if_pos hmore, if_neg (Nat.not_lt.mpr hwsize), htransfer]
          dsimp only
          rw [hrun, ok_bind]
        · intro write hmem
          rcases List.mem_cons.mp hmem with rfl | hmem
          · exact ⟨wrAmount, rfl, by rw [hlength]; omega, by rw [hlength]⟩
          · exact hinside write hmem
        · intro index hfrom hto
          by_cases hfirst : index < wrAmount + wrOnce
          · refine ⟨_, List.mem_cons_self, ?_, ?_⟩
            · dsimp only
              omega
            · rw [hlength]
              omega
          · obtain ⟨write, hmem, hcovers⟩ := hall index (by omega) hto
            exact ⟨write, List.mem_cons_of_mem _ hmem, hcovers⟩
      · exact ⟨[], by rw [writeLoop, if_neg hmore], by simp, by omega⟩

/-- A worker writes what the machine that it asks has of the block. -/
theorem receiveBlock_of_stored {serves : Bytes → Option BlockManager} {info : BlockInfo}
    {manager : BlockManager} (hserves : serves info.ip = some manager) {data : Bytes}
    (hstored : manager.files info.id = some data) (hlength : data.length = blockSize)
    (calls : Socket.Calls) : receiveBlock serves info calls =
      writeLoop data (info.nblock * blockSize) info.wsize.toNat (info.wsize.toNat + 1) calls 0 >>=
        fun writes => .ok (writes, true) := by
  have hread : readUInt64 ((Message.new .block .requestBlockData).addData
      (bytesOf info.id)).data 0 = .ok info.id := by
    rw [← List.append_nil (bytesOf info.id)]
    exact readUInt64_append _ []
  have hack : ((Message.new .block .blockACK).addData data).Is .blockACK := rfl
  rw [receiveBlock, hserves]
  dsimp only
  rw [BlockManager.handleRequestBlockData, hread, ok_bind, hstored]
  dsimp only
  rw [BlockManager.loadFile_eq hlength, ok_bind]
  dsimp only
  rw [if_neg (not_not_intro hack)]
  rfl

end Doopey
