import Mathlib.Data.List.DropRight
import Doopey.File.OrderlyUpload

/-!
# What a failed upload leaves behind

`receiveFile` cleans up on one of its ways out only: when the client disconnects
it deletes the data blocks that the meta block lists at that time, and fails with the
first one unless the handlers of a deletion have room for the bytes that they copy. The
other ways out, and blocks that a second `MC_UpFileMeta` took off the list, are left
alone. The results below say for which messages a failed upload leaves the blocks of the
machine as they were.
-/

namespace Doopey

open Foundation

namespace BlockManager

/-- `manager'` has the blocks of `manager` and those saved under `ids`, in which
`0` stands for a save that failed. -/
structure Saved (manager : BlockManager) (ids : List BlockID) (manager' : BlockManager) : Prop where
  machineID : manager'.machineID = manager.machineID
  room : manager'.room = manager.room
  localMax : manager'.localMax = manager.localMax + .ofNat ids.length
  localIDs (id : BlockID) : manager'.localIDs id =
    if id ≠ 0 ∧ id ∈ ids then some [manager.machineID] else manager.localIDs id
  files (id : BlockID) : (manager'.files id).isSome =
    if id ≠ 0 ∧ id ∈ ids then true else (manager.files id).isSome

/-- One more save. -/
theorem Saved.saveBlock {manager manager₁ manager₂ : BlockManager} {ids : List BlockID}
    (h : manager.Saved ids manager₁) {opens : Bool} {data : Bytes} {id : BlockID}
    (hsave : manager₁.saveBlock opens data 0 = (id, manager₂)) :
    id = (if opens then manager.idAfter ids.length else 0) ∧
      manager.Saved (ids ++ [id]) manager₂ := by
  obtain ⟨manager', hsave', hmachine, hmax, hlocal, hfiles⟩ := manager₁.saveBlock_new opens data
  have hroom := manager₁.room_saveBlock opens data 0
  obtain ⟨rfl, rfl⟩ := Prod.mk.inj (hsave'.symm.trans hsave)
  rw [hsave'] at hroom
  have hnext : manager₁.nextID = manager.idAfter ids.length := by
    rw [nextID, h.machineID, h.localMax, idAfter]
  refine ⟨by rw [hnext], hmachine.trans h.machineID, hroom.trans h.room, ?_, ?_, ?_⟩
  · rw [hmax, h.localMax, List.length_append, List.length_singleton, UInt32.ofNat_add,
      UInt32.add_assoc]
    rfl
  · intro id
    rw [hlocal, h.localIDs, h.machineID]
    cases opens
    · by_cases hid : id = 0 <;> simp [hid]
    · by_cases hid : id = manager₁.nextID
      · simp [hid, nextID_ne_zero]
      · simp [hid]
  · intro id
    rw [hfiles]
    cases opens
    · by_cases hid : id = 0
      · simpa [hid] using h.files 0
      · simpa [hid] using h.files id
    · by_cases hid : id = manager₁.nextID
      · simp [hid, nextID_ne_zero]
      · simpa [hid] using h.files id

end BlockManager

/-! ## What the messages of an upload save -/

namespace Input

/-- The message makes `receiveFile` start over. -/
def IsMeta (input : Input) : Prop := input.msg.Is .upFileMeta

/-- The message leads to a save. -/
def Saves (input : Input) : Prop :=
  input.msg.Is .upFileData ∧ ¬ blockSize < input.msg.data.length ∨ input.msg.Is .upFileEnd

/-- After the messages in `seen`, the message makes `receiveFile` return. -/
def Ends (seen : List Input) (input : Input) : Prop :=
  input.msg.Is .upFileData ∧
      (blockSize < input.msg.data.length ∨ ∀ earlier ∈ seen, ¬ earlier.IsMeta) ∨
    input.msg.Is .upFileEnd

instance (input : Input) : Decidable input.IsMeta := inferInstanceAs (Decidable (_ = _))

instance (input : Input) : Decidable input.Saves := inferInstanceAs (Decidable (_ ∨ _))

instance (seen : List Input) (input : Input) : Decidable (input.Ends seen) :=
  inferInstanceAs (Decidable (_ ∨ _))

theorem IsMeta.not_saves {input : Input} (h : input.IsMeta) : ¬ input.Saves := by
  rintro (⟨hcmd, -⟩ | hcmd) <;> exact absurd (Message.Is.eq h hcmd) (by decide)

theorem IsMeta.not_ends {input : Input} (h : input.IsMeta) (seen : List Input) :
    ¬ input.Ends seen := by
  rintro (⟨hcmd, -⟩ | hcmd) <;> exact absurd (Message.Is.eq h hcmd) (by decide)

theorem saves_of_fits {input : Input} (hcmd : input.msg.Is .upFileData)
    (hfits : ¬ blockSize < input.msg.data.length) : input.Saves := Or.inl ⟨hcmd, hfits⟩

theorem saves_of_end {input : Input} (hcmd : input.msg.Is .upFileEnd) : input.Saves := Or.inr hcmd

theorem not_isMeta_of_is {input : Input} {cmd : MessageCmd} (h : input.msg.Is cmd)
    (hne : cmd ≠ .upFileMeta) : ¬ input.IsMeta := fun hmeta => hne (Message.Is.eq h hmeta)

end Input

namespace FileUploader

/-- The messages up to the one that makes `receiveFile` return, and whether there
is one. -/
def processed : List Input → List Input → List Input × Bool
  | seen, [] => (seen, false)
  | seen, input :: inputs =>
      if input.Ends seen then (seen ++ [input], true) else processed (seen ++ [input]) inputs

/-- The IDs under which the messages save blocks, with `0` for a save that fails. -/
def savedIDs (manager : BlockManager) (inputs : List Input) : List BlockID :=
  (inputs.filter (fun input => input.Saves)).mapIdx fun count input =>
    if input.opens then manager.idAfter count else 0

/-- The messages up to the last `MC_UpFileMeta`. -/
def upToMeta (inputs : List Input) : List Input := inputs.rdropWhile (fun input => ¬ input.IsMeta)

/-- The IDs of the blocks saved before the last `MC_UpFileMeta`. -/
def earlyIDs (manager : BlockManager) (inputs : List Input) : List BlockID :=
  savedIDs manager (upToMeta inputs)

/-- The IDs of the blocks saved after the last `MC_UpFileMeta`. -/
def lateIDs (manager : BlockManager) (inputs : List Input) : List BlockID :=
  (savedIDs manager inputs).drop (earlyIDs manager inputs).length

section IDs

variable (manager : BlockManager) (seen : List Input) (input : Input)

theorem savedIDs_concat : savedIDs manager (seen ++ [input]) =
    if input.Saves then savedIDs manager seen ++
      [if input.opens then manager.idAfter (savedIDs manager seen).length else 0]
    else savedIDs manager seen := by
  unfold savedIDs
  rw [List.filter_append]
  by_cases hsaves : input.Saves
  · rw [if_pos hsaves, List.filter_cons_of_pos (by simpa using hsaves), List.filter_nil,
      List.mapIdx_concat, List.length_mapIdx]
  · rw [if_neg hsaves, List.filter_cons_of_neg (by simpa using hsaves), List.filter_nil,
      List.append_nil]

theorem length_earlyIDs_le : (earlyIDs manager seen).length ≤ (savedIDs manager seen).length := by
  unfold earlyIDs savedIDs upToMeta
  rw [List.length_mapIdx, List.length_mapIdx]
  exact ((List.rdropWhile_prefix _ _).sublist.filter _).length_le

theorem earlyIDs_concat_of_meta (hmeta : input.IsMeta) :
    earlyIDs manager (seen ++ [input]) = savedIDs manager (seen ++ [input]) := by
  have hall : upToMeta (seen ++ [input]) = seen ++ [input] :=
    List.rdropWhile_concat_neg _ _ _ (by simpa using hmeta)
  rw [earlyIDs, hall]

theorem earlyIDs_concat (hmeta : ¬ input.IsMeta) :
    earlyIDs manager (seen ++ [input]) = earlyIDs manager seen := by
  have hsame : upToMeta (seen ++ [input]) = upToMeta seen :=
    List.rdropWhile_concat_pos _ _ _ (by simpa using hmeta)
  rw [earlyIDs, hsame, ← earlyIDs]

theorem lateIDs_concat_of_meta (hmeta : input.IsMeta) :
    lateIDs manager (seen ++ [input]) = [] := by
  rw [lateIDs, earlyIDs_concat_of_meta _ _ _ hmeta, List.drop_length]

theorem lateIDs_concat (hmeta : ¬ input.IsMeta) : lateIDs manager (seen ++ [input]) =
    if input.Saves then lateIDs manager seen ++
      [if input.opens then manager.idAfter (savedIDs manager seen).length else 0]
    else lateIDs manager seen := by
  unfold lateIDs
  rw [earlyIDs_concat _ _ _ hmeta, savedIDs_concat]
  split
  next => rw [List.drop_append_of_le_length (length_earlyIDs_le manager seen)]
  next => rfl

end IDs

/-! ## The loop of `receiveFile` -/

/-- The objects of an upload after the messages in `seen`, none of which made
`receiveFile` return. -/
structure UploadInv (manager : BlockManager) (tree : FileTree) (seen : List Input) (up : Upload) :
    Prop where
  usable : up.metaBlock.Usable (lateIDs manager seen)
  id : up.metaBlock.id = 0
  size : up.metaBlock.size = none ↔ ∀ input ∈ seen, ¬ input.IsMeta
  saved : manager.Saved (savedIDs manager seen) up.manager
  tree_eq : up.tree = tree

/-- What a round of the loop does to these objects. -/
theorem UploadInv.received {manager : BlockManager} {tree : FileTree} {seen : List Input}
    {up up' : Upload} {input : Input} {reply : Option MessageCmd} {outcome : Outcome}
    (h : UploadInv manager tree seen up)
    (hround : Received up (lateIDs manager seen) input up' reply outcome) :
    (outcome = .goesOn → UploadInv manager tree (seen ++ [input]) up' ∧ ¬ input.Ends seen) ∧
      (outcome = .failed → input.Ends seen ∧
        manager.Saved (savedIDs manager (seen ++ [input])) up'.manager ∧ up'.tree = tree) := by
  have hseen : ∀ size : Option Nat, ¬ input.IsMeta → (size = none ↔ ∀ earlier ∈ seen, ¬ earlier.IsMeta) →
      (size = none ↔ ∀ earlier ∈ seen ++ [input], ¬ earlier.IsMeta) := by
    intro size hmeta hsize
    rw [hsize]
    simp [or_imp, forall_and, hmeta]
  cases hround with
  | named block reply hcmd husable hsize hid =>
      have hmeta : input.IsMeta := hcmd
      refine ⟨fun _ => ⟨⟨?_, hid.trans h.id, ?_, ?_, h.tree_eq⟩, hmeta.not_ends seen⟩, by simp⟩
      · rwa [lateIDs_concat_of_meta _ _ _ hmeta]
      · refine iff_of_false (Option.isSome_iff_ne_none.mp hsize) fun hnone => ?_
        exact hnone input (by simp) hmeta
      · rw [savedIDs_concat, if_neg hmeta.not_saves]
        exact h.saved
  | oversized hcmd hlong =>
      refine ⟨by simp, fun _ => ⟨Or.inl ⟨hcmd, Or.inl hlong⟩, ?_, h.tree_eq⟩⟩
      have hsaves : ¬ input.Saves := by
        rintro (⟨-, hfits⟩ | hend)
        · exact hfits hlong
        · exact absurd (Message.Is.eq hcmd hend) (by decide)
      rw [savedIDs_concat, if_neg hsaves]
      exact h.saved
  | nameless manager' id hcmd hfits hsize hsave =>
      refine ⟨by simp, fun _ => ⟨Or.inl ⟨hcmd, Or.inr (h.size.mp hsize)⟩, ?_, h.tree_eq⟩⟩
      obtain ⟨rfl, hsaved⟩ := h.saved.saveBlock hsave
      rw [savedIDs_concat, if_pos (Input.saves_of_fits hcmd hfits)]
      exact hsaved
  | stored manager' id block hcmd hfits hsize hsave husable hid hsize' =>
      have hmeta := Input.not_isMeta_of_is hcmd (by decide)
      obtain ⟨rfl, hsaved⟩ := h.saved.saveBlock hsave
      refine ⟨fun _ => ⟨⟨?_, hid.trans h.id, ?_, ?_, h.tree_eq⟩, ?_⟩, by simp⟩
      · rwa [lateIDs_concat _ _ _ hmeta, if_pos (Input.saves_of_fits hcmd hfits)]
      · refine hseen _ hmeta (iff_of_false (Option.isSome_iff_ne_none.mp hsize') ?_)
        exact fun hnone => Option.isSome_iff_ne_none.mp hsize (h.size.mpr hnone)
      · rwa [savedIDs_concat, if_pos (Input.saves_of_fits hcmd hfits)]
      · rintro (⟨-, hlong | hnone⟩ | hend)
        · exact hfits hlong
        · exact Option.isSome_iff_ne_none.mp hsize (h.size.mpr hnone)
        · exact absurd (Message.Is.eq hcmd hend) (by decide)
  | rejected manager' id block name hcmd hsave hname hadd =>
      refine ⟨by simp, fun _ => ⟨Or.inr hcmd, ?_, h.tree_eq⟩⟩
      rw [h.id] at hsave
      obtain ⟨rfl, hsaved⟩ := h.saved.saveBlock hsave
      rw [savedIDs_concat, if_pos (Input.saves_of_end hcmd)]
      exact hsaved
  | entered => exact ⟨by simp, by simp⟩
  | ignored hmeta hdata hend =>
      have hsaves : ¬ input.Saves := by
        rintro (⟨hcmd, -⟩ | hcmd)
        · exact hdata hcmd
        · exact hend hcmd
      refine ⟨fun _ => ⟨⟨?_, h.id, hseen _ hmeta h.size, ?_, h.tree_eq⟩, ?_⟩, by simp⟩
      · rw [lateIDs_concat _ _ _ hmeta, if_neg hsaves]
        exact h.usable
      · rw [savedIDs_concat, if_neg hsaves]
        exact h.saved
      · rintro (⟨hcmd, -⟩ | hcmd)
        · exact hdata hcmd
        · exact hend hcmd

/-- `cleanData` deletes the blocks that are listed. -/
theorem cleanData_eq {block : MetaBlock} {ids : List BlockID} (h : block.Usable ids)
    (hid : block.id = 0) (manager : BlockManager) :
    cleanData block manager = manager.deleteBlocks ids := by
  have hzero (manager : BlockManager) : manager.deleteBlock 0 = .ok manager := by
    rw [BlockManager.deleteBlock, manager.localIDs_zero]
  rw [cleanData_of_dataIDs h.dataIDs_eq, hid]
  split
  next hnil => rw [hnil]
  next =>
    rw [BlockManager.deleteBlocks, List.foldlM_append]
    simp only [List.foldlM_cons, List.foldlM_nil, hzero]
    exact bind_pure _

/-- The objects that are left when `receiveFile` returns `NULL`. -/
theorem UploadInv.receiveLoop {manager : BlockManager} {tree : FileTree} {seen inputs : List Input}
    {up up' : Upload} (h : UploadInv manager tree seen up)
    (hrun : receiveLoop up inputs = .ok (none, up')) :
    up'.tree = tree ∧ ((processed seen inputs).2 = false →
        ∃ saved, manager.Saved (savedIDs manager (processed seen inputs).1) saved ∧
          saved.deleteBlocks (lateIDs manager (processed seen inputs).1) = .ok up'.manager) ∧
      ((processed seen inputs).2 = true →
        manager.Saved (savedIDs manager (processed seen inputs).1) up'.manager) := by
  induction inputs generalizing seen up with
  | nil =>
      obtain ⟨cleaned, hclean, hrun⟩ := bind_eq_ok_iff.mp hrun
      -- the client has disconnected
      rw [cleanData_eq h.usable h.id] at hclean
      obtain ⟨-, rfl⟩ := Prod.mk.inj (Except.ok.inj hrun)
      rw [processed]
      exact ⟨h.tree_eq, fun _ => ⟨up.manager, h.saved, hclean⟩,
        fun hended => absurd hended (by simp)⟩
  | cons input inputs ih =>
      obtain ⟨⟨up₁, reply, outcome⟩, hmessage, hrun⟩ := bind_eq_ok_iff.mp hrun
      obtain ⟨hgoesOn, hfailed⟩ := h.received (received_of_receiveMessage h.usable hmessage)
      cases outcome with
      | goesOn =>
          obtain ⟨h₁, hends⟩ := hgoesOn rfl
          rw [processed, if_neg hends]
          exact ih h₁ hrun
      | failed =>
          obtain ⟨hends, hsaved, htree⟩ := hfailed rfl
          obtain ⟨-, rfl⟩ := Prod.mk.inj (Except.ok.inj hrun)
          rw [processed, if_pos hends]
          exact ⟨htree, fun hended => absurd hended (by simp), fun _ => hsaved⟩
      | completed => exact absurd (Prod.mk.inj (Except.ok.inj hrun)).1 (by simp)

end FileUploader

end Doopey
