import Doopey.File.OrderlyUpload

/-!
# What an acknowledged upload message says

`saveBlock` reports a failure by the ID `0`. `receiveFile` does not look at it:
`0` goes into the list of the meta block, and `addFile` takes it for the ID of a
directory. The acknowledgements are true of the messages for which the save that
they lead to works.
-/

namespace Doopey

open Foundation

/-- The block is listed under an ID of its own, and its file has these contents. -/
def BlockManager.Keeps (manager : BlockManager) (id : BlockID) (data : Bytes) : Prop :=
  id ≠ 0 ∧ (manager.localIDs id).isSome ∧ manager.files id = some data

/-- A block whose file can be created is kept under a new ID. -/
theorem BlockManager.keeps_of_saveBlock {manager manager' : BlockManager} {id : BlockID}
    {data : Bytes} (hsave : manager.saveBlock true data 0 = (id, manager')) :
    manager'.Keeps id data := by
  obtain ⟨saved, hsaved, -, -, hlocal, hfiles⟩ := manager.saveBlock_new true data
  obtain ⟨rfl, rfl⟩ := Prod.mk.inj (hsaved.symm.trans hsave)
  refine ⟨manager.nextID_ne_zero, ?_, ?_⟩
  · rw [if_pos rfl, hlocal, if_pos ⟨rfl, rfl⟩]
    rfl
  · rw [if_pos rfl, hfiles, if_pos ⟨rfl, rfl⟩]

theorem BlockManager.id_of_not_saved {manager manager' : BlockManager} {id : BlockID}
    {data : Bytes} (hsave : manager.saveBlock false data 0 = (id, manager')) : id = 0 := by
  obtain ⟨saved, hsaved, -⟩ := manager.saveBlock_new false data
  exact (Prod.mk.inj (hsave.symm.trans hsaved)).1

/-- The ID is listed behind those that were listed before. -/
def MetaBlock.Appended (before : MetaBlock) (id : BlockID) (after : MetaBlock) : Prop :=
  ∃ count, before.getDataBlockNumber = .ok count ∧ after.getDataBlockNumber = .ok (count + 1) ∧
    after.getDataBlockID count = .ok id ∧
    ∀ number < count, after.getDataBlockID number = before.getDataBlockID number

/-- One round of the loop of `receiveFile`. -/
structure Round where
  before : Upload
  input : Input
  reply : Option MessageCmd
  after : Upload

namespace Round

/-- What `MC_FileACK` promises to the client. -/
def Truthful (round : Round) : Prop :=
  round.reply = some .fileACK →
    (round.input.msg.Is .upFileData → ∃ id,
      round.after.manager.Keeps id (FileUploader.newData round.input.msg.data) ∧
      round.before.metaBlock.Appended id round.after.metaBlock) ∧
    (round.input.msg.Is .upFileEnd → ∃ name,
      round.after.manager.Keeps round.after.metaBlock.id round.after.metaBlock.data ∧
      round.after.metaBlock.getFileName = .ok name ∧
      round.after.tree.HasFile name round.after.metaBlock.id)

/-- The file of a block can be created whenever a piece of data is taken, or the
path of the file is free and in a directory. -/
def Safe (round : Round) : Prop :=
  (round.input.msg.Is .upFileData → round.before.metaBlock.size.isSome →
    ¬ blockSize < round.input.msg.data.length → round.input.opens) ∧
  (round.input.msg.Is .upFileEnd → ∀ name, round.before.metaBlock.getFileName = .ok name →
    round.before.tree.Admits name → round.input.opens)

end Round

namespace FileUploader

/-- The rounds of `receiveLoop`, up to the one in which it returns. -/
def rounds (up : Upload) : List Input → List Round
  | [] => []
  | input :: inputs =>
      match receiveMessage up input with
      | .error _ => []
      | .ok (up', reply, outcome) =>
          ⟨up, input, reply, up'⟩ :: if outcome = .goesOn then rounds up' inputs else []

/-- The round is one of `receiveFile`. -/
def RoundOfFile (manager : BlockManager) (tree : FileTree) (inputs : List Input) (round : Round) :
    Prop :=
  ∃ metaBlock, MetaBlock.newMeta = .ok metaBlock ∧ round ∈ rounds ⟨metaBlock, manager, tree⟩ inputs

/-- If `receiveFile` returns a meta block, it has acknowledged the end of the file. -/
theorem exists_round_of_receiveLoop {up up' : Upload} {inputs : List Input} {block : MetaBlock}
    (hrun : receiveLoop up inputs = .ok (some block, up')) :
    ∃ round ∈ rounds up inputs, round.after = up' ∧ block = up'.metaBlock ∧
      round.input.msg.Is .upFileEnd ∧ round.reply = some .fileACK := by
  induction inputs generalizing up with
  | nil =>
      obtain ⟨manager, -, hrun⟩ := bind_eq_ok_iff.mp hrun
      exact absurd (Prod.mk.inj (Except.ok.inj hrun)).1 (by simp)
  | cons input inputs ih =>
      obtain ⟨⟨up₁, reply, outcome⟩, hmessage, hrun⟩ := bind_eq_ok_iff.mp hrun
      rw [rounds, hmessage]
      cases outcome with
      | goesOn =>
          obtain ⟨round, hmem, hround⟩ := ih hrun
          exact ⟨round, List.mem_cons_of_mem _ hmem, hround⟩
      | failed => exact absurd (Prod.mk.inj (Except.ok.inj hrun)).1 (by simp)
      | completed =>
          obtain ⟨hblock, rfl⟩ := Prod.mk.inj (Except.ok.inj hrun)
          refine ⟨_, List.mem_cons_self, rfl, (Option.some.inj hblock).symm, ?_⟩
          exact completed_of_receiveMessage hmessage

/-- What holds at the start of every round. -/
structure Ready (up : Upload) (ids : List BlockID) : Prop where
  usable : up.metaBlock.Usable ids
  id : up.metaBlock.id = 0
  bound : up.tree.Bound

theorem Ready.received {up up' : Upload} {ids : List BlockID} {input : Input}
    {reply : Option MessageCmd} (h : Ready up ids)
    (hround : Received up ids input up' reply .goesOn) : ∃ ids', Ready up' ids' := by
  cases hround with
  | named block reply hcmd husable hsize hid => exact ⟨[], husable, hid.trans h.id, h.bound⟩
  | stored manager id block hcmd hfits hsize hsave husable hid hsize' =>
      exact ⟨_, husable, hid.trans h.id, h.bound⟩
  | ignored => exact ⟨ids, h⟩

/-- Every round is one of `Received`. -/
theorem received_of_mem_rounds {up : Upload} {ids : List BlockID} (h : Ready up ids)
    {inputs : List Input} {round : Round} (hmem : round ∈ rounds up inputs) :
    ∃ ids outcome, Ready round.before ids ∧
      Received round.before ids round.input round.after round.reply outcome := by
  induction inputs generalizing up ids with
  | nil => exact absurd hmem List.not_mem_nil
  | cons input inputs ih =>
      rw [rounds] at hmem
      split at hmem
      next => exact absurd hmem List.not_mem_nil
      next up' reply outcome hmessage =>
        have hround := received_of_receiveMessage h.usable hmessage
        rcases List.mem_cons.mp hmem with rfl | hrest
        · exact ⟨ids, outcome, h, hround⟩
        · split at hrest
          next hgoesOn =>
            subst hgoesOn
            obtain ⟨ids', h'⟩ := h.received hround
            exact ih h' hrest
          next => exact absurd hrest List.not_mem_nil

/-- Between two usable states of a meta block there is one ID at most. -/
theorem appended_iff {before after : MetaBlock} {ids : List BlockID} {id id' : BlockID}
    (hbefore : before.Usable ids) (hafter : after.Usable (ids ++ [id])) :
    before.Appended id' after ↔ id' = id := by
  have hlast : after.getDataBlockID (.ofNat ids.length) = .ok id :=
    hafter.getDataBlockID_eq List.getElem?_concat_length
  constructor
  · rintro ⟨count, hcount, -, hid', -⟩
    rw [hbefore.getDataBlockNumber_eq] at hcount
    obtain rfl := Except.ok.inj hcount
    exact Except.ok.inj (hid'.symm.trans hlast)
  · rintro rfl
    refine ⟨.ofNat ids.length, hbefore.getDataBlockNumber_eq, ?_, hlast, ?_⟩
    · rw [hafter.getDataBlockNumber_eq, List.length_append, List.length_singleton,
        UInt64.ofNat_add]
      rfl
    · intro number hlt
      rw [UInt64.lt_iff_toNat_lt, hbefore.toNat_length] at hlt
      have hget := List.getElem?_eq_getElem hlt
      have hget' : (ids ++ [id'])[number.toNat]? = some ids[number.toNat] := by
        rw [List.getElem?_append_left hlt, hget]
      rw [← UInt64.ofNat_toNat (x := number), hafter.getDataBlockID_eq hget',
        hbefore.getDataBlockID_eq hget]

/-- An acknowledgement is true exactly if the save that the message led to worked. -/
theorem truthful_iff_safe {up up' : Upload} {ids : List BlockID} {input : Input}
    {reply : Option MessageCmd} {outcome : Outcome} (h : Ready up ids)
    (hround : Received up ids input up' reply outcome) :
    Round.Truthful ⟨up, input, reply, up'⟩ ↔ Round.Safe ⟨up, input, reply, up'⟩ := by
  have hother {cmd cmd' : MessageCmd} (hcmd : input.msg.Is cmd) (hcmd' : input.msg.Is cmd')
      (hne : cmd ≠ cmd') {P : Prop} : P := absurd (hcmd.eq hcmd') hne
  cases hround with
  | named block reply hcmd husable hsize hid =>
      refine iff_of_true (fun _ => ⟨?_, ?_⟩) ⟨?_, ?_⟩
      · exact fun hdata => hother hcmd hdata (by decide)
      · exact fun hend => hother hcmd hend (by decide)
      · exact fun hdata => hother hcmd hdata (by decide)
      · exact fun hend => hother hcmd hend (by decide)
  | oversized hcmd hlong =>
      refine iff_of_true (fun hreply => absurd hreply (by simp)) ⟨?_, ?_⟩
      · exact fun _ _ hfits => absurd hlong hfits
      · exact fun hend => hother hcmd hend (by decide)
  | nameless manager id hcmd hfits hsize hsave =>
      refine iff_of_true (fun hreply => absurd hreply (by simp)) ⟨?_, ?_⟩
      · exact fun _ hsome => absurd hsize (Option.isSome_iff_ne_none.mp hsome)
      · exact fun hend => hother hcmd hend (by decide)
  | stored manager id block hcmd hfits hsize hsave husable hid hsize' =>
      cases hopens : input.opens with
      | true =>
          rw [hopens] at hsave
          refine iff_of_true (fun _ => ⟨fun _ => ⟨id, BlockManager.keeps_of_saveBlock hsave, ?_⟩, ?_⟩)
            ⟨fun _ _ _ => hopens, fun _ _ _ _ => hopens⟩
          · exact (appended_iff h.usable husable).mpr rfl
          · exact fun hend => hother hcmd hend (by decide)
      | false =>
          rw [hopens] at hsave
          refine iff_of_false (fun htruthful => ?_) (fun hsafe => ?_)
          · obtain ⟨id', hkeeps, happended⟩ := (htruthful rfl).1 hcmd
            rw [(appended_iff h.usable husable).mp happended] at hkeeps
            exact hkeeps.1 (BlockManager.id_of_not_saved hsave)
          · exact absurd (hsafe.1 hcmd hsize hfits) (by simp [hopens])
  | rejected manager id block name hcmd hsave hname hadd =>
      refine iff_of_true (fun hreply => absurd hreply (by simp)) ⟨?_, ?_⟩
      · exact fun hdata => hother hcmd hdata (by decide)
      · intro _ name' hname' hadmits
        obtain rfl := Except.ok.inj (hname.symm.trans hname')
        rcases FileTree.addFile_spec hadd with ⟨hnot, -⟩ | ⟨-, htrue, -⟩
        · exact absurd hadmits hnot
        · exact absurd htrue (by simp)
  | entered manager id tree name hcmd hsave hname hadd =>
      rw [h.id] at hsave
      cases hopens : input.opens with
      | true =>
          rw [hopens] at hsave
          have hkeeps := BlockManager.keeps_of_saveBlock hsave
          refine iff_of_true (fun _ => ⟨?_, fun _ => ⟨name, hkeeps, hname, ?_⟩⟩)
            ⟨fun _ _ _ => hopens, fun _ _ _ _ => hopens⟩
          · exact fun hdata => hother hcmd hdata (by decide)
          · exact h.bound.hasFile_of_addFile hkeeps.1 hadd
      | false =>
          refine iff_of_false (fun htruthful => ?_) (fun hsafe => ?_)
          · -- the meta block is left without an ID
            obtain ⟨name', hkeeps, -⟩ := (htruthful rfl).2 hcmd
            dsimp only at hkeeps
            rw [if_neg (by simp)] at hkeeps
            exact hkeeps.1 h.id
          · rcases FileTree.addFile_spec hadd with ⟨-, hfalse, -⟩ | ⟨hadmits, -⟩
            · exact absurd hfalse (by simp)
            · exact absurd (hsafe.2 hcmd name hname hadmits) (by simp [hopens])
  | ignored hmeta hdata hend =>
      refine iff_of_true (fun hreply => absurd hreply (by simp)) ⟨?_, ?_⟩
      · exact fun hcmd => absurd hcmd hdata
      · exact fun hcmd => absurd hcmd hend

theorem input_mem_of_mem_rounds {up : Upload} {inputs : List Input} {round : Round}
    (hmem : round ∈ rounds up inputs) : round.input ∈ inputs := by
  induction inputs generalizing up with
  | nil => exact absurd hmem List.not_mem_nil
  | cons input inputs ih =>
      rw [rounds] at hmem
      split at hmem
      next => exact absurd hmem List.not_mem_nil
      next =>
        rcases List.mem_cons.mp hmem with rfl | hrest
        · exact List.mem_cons_self
        · split at hrest
          next => exact List.mem_cons_of_mem _ (ih hrest)
          next => exact absurd hrest List.not_mem_nil

/-- The acknowledgements of an upload are true exactly if every round is safe. -/
theorem forall_truthful_iff (keyHash : Bytes → Nat) {ops : List TreeOp} {tree : FileTree}
    (hrun : (treeSystem keyHash).Run ops tree) (manager : BlockManager) (inputs : List Input) :
    (∀ round, RoundOfFile manager tree inputs round → round.Truthful) ↔
      ∀ round, RoundOfFile manager tree inputs round → round.Safe := by
  obtain ⟨block, hnew, husable, hid, -⟩ := MetaBlock.usable_newMeta
  have hready : Ready ⟨block, manager, tree⟩ [] :=
    ⟨husable, hid, (invariant_bound keyHash).run hrun⟩
  apply forall₂_congr
  rintro round ⟨metaBlock, hmetaBlock, hmem⟩
  rw [← Except.ok.inj (hnew.symm.trans hmetaBlock)] at hmem
  obtain ⟨ids, outcome, h, hround⟩ := received_of_mem_rounds hready hmem
  exact truthful_iff_safe h hround

theorem forall_truthful_iff_example : ∃ tree, (treeSystem List.length).Run [] tree ∧
    ∀ round, RoundOfFile (.new 1 (by decide)) tree [⟨metaMessage (ascii "/f") 0 1, true⟩,
      ⟨dataMessage [7], true⟩, ⟨endMessage, true⟩] round → round.Truthful := by
  have hrun : (treeSystem List.length).Run [] (.new List.length) := ⟨_, rfl, .nil _⟩
  refine ⟨_, hrun, (forall_truthful_iff _ hrun _ _).mpr ?_⟩
  rintro round ⟨metaBlock, -, hmem⟩
  have hopens : round.input.opens = true := by
    have hinput := input_mem_of_mem_rounds hmem
    simp only [List.mem_cons, List.not_mem_nil, or_false] at hinput
    rcases hinput with hinput | hinput | hinput <;> rw [hinput]
  exact ⟨fun _ _ _ => hopens, fun _ _ _ _ => hopens⟩

/-- A piece of data that could not be saved is acknowledged all the same. -/
theorem not_truthful_of_lost_data (manager : BlockManager) {tree : FileTree} {fileName : Bytes}
    (hadmits : tree.Admits fileName) (hinside : 8 + fileName.length + 32 ≤ blockSize) {data : Bytes}
    (hdata : data.length ≤ blockSize) (time fileSize : UInt64) (opens : Bool) :
    ∃ round, RoundOfFile manager tree
        [⟨metaMessage fileName time fileSize, opens⟩, ⟨dataMessage data, false⟩] round ∧
      ¬ round.Truthful := by
  obtain ⟨block, hmeta, -, hdescribes⟩ :=
    receiveMessage_meta hadmits (by omega) manager time fileSize opens
  obtain ⟨block', hround, -, hdescribes'⟩ :=
    receiveMessage_data hdescribes hinside data hdata false manager tree
  refine ⟨⟨⟨block, manager, tree⟩, ⟨dataMessage data, false⟩, some .fileACK,
    ⟨block', (manager.saveBlock false (newData data) 0).2, tree⟩⟩,
    ⟨_, newMeta_eq, ?_⟩, fun htruthful => ?_⟩
  · rw [rounds, hmeta]
    dsimp only
    rw [if_pos rfl, rounds, hround]
    exact List.mem_cons_of_mem _ List.mem_cons_self
  · obtain ⟨id, hkeeps, happended⟩ := (htruthful rfl).1 rfl
    rw [appended_iff hdescribes.usable hdescribes'.usable] at happended
    exact hkeeps.1 (happended.trans (by simp [BlockManager.saveBlock]))

theorem exists_round_not_truthful : ∃ round,
    RoundOfFile (.new 1 (by decide)) (.new List.length)
      [⟨metaMessage (ascii "/f") 0 1, true⟩, ⟨dataMessage [7], false⟩] round ∧
    ¬ round.Truthful :=
  not_truthful_of_lost_data _ ⟨rfl, rootPath, 0, _, rfl, rfl, rfl, rfl⟩ (by decide) (by decide) 0 1
    true

end FileUploader

end Doopey
