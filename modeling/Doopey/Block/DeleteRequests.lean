import Doopey.Block.ProcessedDeletions
import Doopey.Network.Dispatcher

/-!
# The bytes of a request to delete a block

`deleteBlock` puts the ID of a block into a message. `handleDoDelete` takes it out, puts it
into another one, and `handleDeleteBlock` takes it out again on every machine. Each of them
has its own idea of how many bytes an ID has.

A copy is carried out here whatever the sizes are: what is behind the end of a payload is a
parameter. The calls of `memcpy` are recorded, with the bytes that there are and those there is
room for.
-/

namespace Doopey

open Foundation

/-- A call of `memcpy`: the bytes that there are to be read, those there is room for, and those
that are copied. -/
structure Copy where
  present : Nat
  room : Nat
  size : Nat
  deriving DecidableEq

/-- The copy reads and writes inside its buffers. -/
def Copy.Fits (copy : Copy) : Prop := copy.size ≤ copy.present ∧ copy.size ≤ copy.room

/-- Bytes are put into a payload, or an ID is taken out of one. -/
inductive DeleteStep
  | put (copy : Copy)
  | got (copy : Copy) (id : BlockID)
  deriving DecidableEq

/-- The step stays inside its buffers, and an ID that it takes out is the one of the request. -/
def DeleteStep.Intact (id : BlockID) : DeleteStep → Prop
  | put copy => copy.Fits
  | got copy decoded => copy.Fits ∧ decoded = id

/-- What a call leaves: the state of the machine, the messages that are sent, and the steps. -/
structure Handled where
  node : BlockNode
  sent : List (Target × Message)
  steps : List DeleteStep

/-- The first `size` bytes at the start of a payload, with `beyond` behind its end. -/
def bytesAt (beyond : Nat → UInt8) (data : Bytes) (size : Nat) : Bytes :=
  data.take size ++ (List.range (size - data.length)).map beyond

namespace DeleteRequest

open BlockManager (sizeofBlock sizeofBlockID)

/-- `memcpy(&id, data, size)` -/
def copyID (beyond : Nat → UInt8) (data : Bytes) (size : Nat) : BlockID :=
  .ofNat (ofLE ((bytesAt beyond data size).take sizeofBlockID))

/-- The step of `copyID`: the variable has room for an ID. -/
def gotID (beyond : Nat → UInt8) (data : Bytes) (size : Nat) : DeleteStep :=
  .got ⟨data.length, sizeofBlockID, size⟩ (copyID beyond data size)

/-- The step of `addData(data, size)`, which makes room before it copies. -/
def putBytes (data : Bytes) (size : Nat) : DeleteStep := .put ⟨data.length, size, size⟩

variable (beyond : Nat → Nat → UInt8)

/-- `BlockManager::handleDeleteBlock` -/
def handleDeleteBlock (node : BlockNode) (msg : Message) : Handled :=
  let id := copyID (beyond 0) msg.data sizeofBlock
  { node := (node.removeLocalID id).removeRemoteID id
    sent := []
    steps := [gotID (beyond 0) msg.data sizeofBlock] }

/-- `BlockManager::handleDoDelete` -/
def handleDoDelete (node : BlockNode) (msg : Message) : Handled :=
  let id := copyID (beyond 1) msg.data sizeofBlock
  let step := gotID (beyond 1) msg.data sizeofBlock
  match node.askBlockDetail id with
  | none => ⟨node, [], [step]⟩
  | some attr =>
      let node := node.modify attr fun attr => { attr with state := .deleting }
      let cmd := (Message.new .block .deleteBlock).addData (bytesAt (beyond 2) msg.data sizeofBlock)
      let deleted := handleDeleteBlock beyond node cmd
      ⟨deleted.node, (.others, cmd) :: deleted.sent,
        step :: putBytes msg.data sizeofBlock :: deleted.steps⟩

/-- `BlockManager::deleteBlock` -/
def deleteBlock (me : MachineID) (node : BlockNode) (id : BlockID) : Handled :=
  match node.askBlockDetail id with
  | none => ⟨node, [], []⟩
  | some attr =>
      match (node.attrs attr).machine with
      | [] => ⟨node, [], []⟩
      | first :: _ =>
          let msg := (Message.new .block .doDelete).addData (bytesOf id)
          let step := putBytes (bytesOf id) sizeofBlockID
          if me = first then
            let done := handleDoDelete beyond node msg
            { done with steps := step :: done.steps }
          else ⟨node, [(.machine first, msg)], [step]⟩

/-- The cases of `BlockManager::request` for a message that deletes. -/
def requestDelete (node : BlockNode) (msg : Message) : Handled :=
  if msg.Is .doDelete then handleDoDelete beyond node msg
  else if msg.Is .deleteBlock then handleDeleteBlock beyond node msg
  else ⟨node, [], []⟩

/-- The machines that a message arrives at: the one it is sent to, or all the others. -/
def receivers (holder : BlockNode) (others : List BlockNode) : Target → List BlockNode
  | .machine _ => [holder]
  | .others => others

/-- What comes of messages: each machine handles what arrives, in the state it is in then. -/
def arrive (holder : BlockNode) (others : List BlockNode) (sent : List (Target × Message)) :
    List Handled :=
  sent.flatMap fun (target, msg) =>
    (receivers holder others target).map fun node => requestDelete beyond node msg

/-- All steps of a request: of the call itself, of the machine that it is sent to, and of those
that a broadcast reaches. -/
def deleteSteps (me : MachineID) (node holder : BlockNode) (others : List BlockNode)
    (id : BlockID) : List DeleteStep :=
  let asked := deleteBlock beyond me node id
  let first := arrive beyond holder others asked.sent
  let second := arrive beyond holder others (first.flatMap Handled.sent)
  asked.steps ++ first.flatMap Handled.steps ++ second.flatMap Handled.steps

end DeleteRequest

/-! ## The ID that is taken out -/

/-- The payload begins with the ID. -/
def Carries (id : BlockID) (data : Bytes) : Prop := data.take 8 = bytesOf id

/-- An ID that is taken out is the one of the request. -/
def DeleteStep.Names (id : BlockID) : DeleteStep → Prop
  | put _ => True
  | got _ decoded => decoded = id

/-- Everything that a call takes out or sends names the block. -/
structure Handled.Names (id : BlockID) (handled : Handled) : Prop where
  steps : ∀ step ∈ handled.steps, step.Names id
  sent : ∀ send ∈ handled.sent, Carries id send.2.data

theorem carries_bytesOf (id : BlockID) : Carries id (bytesOf id) :=
  List.take_of_length_le (length_bytesOf id).le

theorem Carries.length_le {id : BlockID} {data : Bytes} (h : Carries id data) :
    8 ≤ data.length := by
  have hlength := congrArg List.length h
  rw [List.length_take, length_bytesOf] at hlength
  omega

/-- The bytes in front are those of the payload. -/
theorem take_bytesAt {beyond : Nat → UInt8} {data : Bytes} {size k : Nat}
    (hsize : k ≤ size) (hdata : k ≤ data.length) :
    (bytesAt beyond data size).take k = data.take k := by
  have hfront : k ≤ (data.take size).length := by
    rw [List.length_take]
    exact Nat.le_min.mpr ⟨hsize, hdata⟩
  rw [bytesAt, List.take_append_of_le_length hfront, List.take_take, Nat.min_eq_left hsize]

namespace DeleteRequest

open BlockManager (sizeofBlock sizeofBlockID)

variable {beyond : Nat → Nat → UInt8} {id : BlockID} {node : BlockNode}

theorem copyID_eq {beyond : Nat → UInt8} {data : Bytes} {size : Nat} (hsize : 8 ≤ size)
    (hdata : Carries id data) : copyID beyond data size = id := by
  rw [copyID, sizeofBlockID, take_bytesAt hsize hdata.length_le, hdata, bytesOf,
    ofLE_le_of_lt id.toNat_lt, UInt64.ofNat_toNat]

theorem carries_bytesAt {beyond : Nat → UInt8} {data : Bytes} (hdata : Carries id data) :
    Carries id (bytesAt beyond data sizeofBlock) := by
  rw [Carries, take_bytesAt (by decide) hdata.length_le]
  exact hdata

theorem names_handleDeleteBlock {msg : Message} (hmsg : Carries id msg.data) :
    (handleDeleteBlock beyond node msg).Names id := by
  refine ⟨fun step hstep => ?_, fun send hsend => absurd hsend List.not_mem_nil⟩
  rw [List.mem_singleton.mp hstep]
  exact copyID_eq (by decide) hmsg

theorem names_handleDoDelete {msg : Message} (hmsg : Carries id msg.data) :
    (handleDoDelete beyond node msg).Names id := by
  have hgot : (gotID (beyond 1) msg.data sizeofBlock).Names id := copyID_eq (by decide) hmsg
  unfold handleDoDelete
  dsimp only
  split
  next =>
    refine ⟨fun step hstep => ?_, fun send hsend => absurd hsend List.not_mem_nil⟩
    rwa [List.mem_singleton.mp hstep]
  next attr _ =>
    have hcmd : Carries id (bytesAt (beyond 2) msg.data sizeofBlock) := carries_bytesAt hmsg
    have hdelete := @names_handleDeleteBlock beyond id
      (node.modify attr fun attr => { attr with state := .deleting })
      ((Message.new .block .deleteBlock).addData (bytesAt (beyond 2) msg.data sizeofBlock)) hcmd
    refine ⟨fun step hstep => ?_, fun send hsend => ?_⟩
    · rcases List.mem_cons.mp hstep with rfl | hstep
      · exact hgot
      · rcases List.mem_cons.mp hstep with rfl | hstep
        · trivial
        · exact hdelete.steps step hstep
    · rcases List.mem_cons.mp hsend with rfl | hsend
      · exact hcmd
      · exact hdelete.sent send hsend

theorem names_deleteBlock (me : MachineID) : (deleteBlock beyond me node id).Names id := by
  have hnone : Handled.Names id ⟨node, [], []⟩ :=
    ⟨fun _ hstep => absurd hstep List.not_mem_nil, fun _ hsend => absurd hsend List.not_mem_nil⟩
  have hmsg : Carries id ((Message.new .block .doDelete).addData (bytesOf id)).data :=
    carries_bytesOf id
  unfold deleteBlock
  split
  next => exact hnone
  next attr _ =>
    split
    next => exact hnone
    next first _ _ =>
      dsimp only
      split
      next =>
        have hdone := @names_handleDoDelete beyond id node _ hmsg
        refine ⟨fun step hstep => ?_, hdone.sent⟩
        rcases List.mem_cons.mp hstep with rfl | hstep
        · trivial
        · exact hdone.steps step hstep
      next =>
        refine ⟨fun step hstep => ?_, fun send hsend => ?_⟩
        · rw [List.mem_singleton.mp hstep]
          trivial
        · rw [List.mem_singleton.mp hsend]
          exact hmsg

theorem names_requestDelete {msg : Message} (hmsg : Carries id msg.data) :
    (requestDelete beyond node msg).Names id := by
  unfold requestDelete
  split
  next => exact names_handleDoDelete hmsg
  next =>
    split
    next => exact names_handleDeleteBlock hmsg
    next =>
      exact ⟨fun _ hstep => absurd hstep List.not_mem_nil,
        fun _ hsend => absurd hsend List.not_mem_nil⟩

variable {holder : BlockNode} {others : List BlockNode}

/-- What comes of messages that name the block names it. -/
theorem names_of_mem_arrive {sent : List (Target × Message)}
    (hsent : ∀ send ∈ sent, Carries id send.2.data) {handled : Handled}
    (hmem : handled ∈ arrive beyond holder others sent) : handled.Names id := by
  obtain ⟨send, hsend, hmem⟩ := List.mem_flatMap.mp hmem
  obtain ⟨node, -, rfl⟩ := List.mem_map.mp hmem
  exact names_requestDelete (hsent send hsend)

/-- On every machine, and whatever is behind the payloads, the ID is the one of the request. -/
theorem names_of_mem_deleteSteps {me : MachineID} {step : DeleteStep}
    (hmem : step ∈ deleteSteps beyond me node holder others id) : step.Names id := by
  have hasked := @names_deleteBlock beyond id node me
  have hfirst {handled : Handled}
      (hmem : handled ∈ arrive beyond holder others (deleteBlock beyond me node id).sent) :
      handled.Names id := names_of_mem_arrive hasked.sent hmem
  rw [deleteSteps, List.mem_append, List.mem_append] at hmem
  rcases hmem with (hmem | hmem) | hmem
  · exact hasked.steps step hmem
  · obtain ⟨handled, hhandled, hmem⟩ := List.mem_flatMap.mp hmem
    exact (hfirst hhandled).steps step hmem
  · obtain ⟨handled, hhandled, hmem⟩ := List.mem_flatMap.mp hmem
    refine (names_of_mem_arrive (fun send hsend => ?_) hhandled).steps step hmem
    obtain ⟨sender, hsender, hsend⟩ := List.mem_flatMap.mp hsend
    exact (hfirst hsender).sent send hsend

/-! ## The blocks that are deleted -/

theorem node_handleDeleteBlock {msg : Message} (hmsg : Carries id msg.data) :
    (handleDeleteBlock beyond node msg).node = node.afterDeleteBlock id := by
  unfold handleDeleteBlock
  dsimp only
  rw [copyID_eq (by decide) hmsg, BlockNode.afterDeleteBlock]

theorem node_handleDoDelete {msg : Message} (hmsg : Carries id msg.data) :
    (handleDoDelete beyond node msg).node = (node.afterDoDelete id).1 := by
  have hid : copyID (beyond 1) msg.data sizeofBlock = id := copyID_eq (by decide) hmsg
  unfold handleDoDelete BlockNode.afterDoDelete
  dsimp only
  rw [hid]
  cases node.askBlockDetail id with
  | none => rfl
  | some attr =>
      exact @node_handleDeleteBlock beyond id _
        ((Message.new .block .deleteBlock).addData (bytesAt (beyond 2) msg.data sizeofBlock))
        (carries_bytesAt hmsg)

/-- The machine that is asked is left as it is by a request that names the block itself. -/
theorem node_deleteBlock (me : MachineID) :
    (deleteBlock beyond me node id).node = (node.afterDelete me id).1 := by
  have hmsg : Carries id ((Message.new .block .doDelete).addData (bytesOf id)).data :=
    carries_bytesOf id
  unfold deleteBlock BlockNode.afterDelete
  cases node.askBlockDetail id with
  | none => rfl
  | some attr =>
      dsimp only
      cases (node.attrs attr).machine with
      | nil => rfl
      | cons first rest =>
          dsimp only
          split
          next => exact node_handleDoDelete hmsg
          next => rfl

/-! ## The bytes that are copied -/

/-- The variable has no room for the bytes of a block. -/
theorem not_intact_gotID {beyond : Nat → UInt8} {data : Bytes} :
    ¬ (gotID beyond data sizeofBlock).Intact id := by
  intro h
  have hroom : sizeofBlock ≤ sizeofBlockID := h.1.2
  exact absurd hroom (by decide)

/-- The size that the other handlers copy is that of an ID. -/
theorem intact_gotID {beyond : Nat → UInt8} {data : Bytes} (hdata : Carries id data) :
    (gotID beyond data sizeofBlockID).Intact id :=
  ⟨⟨hdata.length_le, Nat.le_refl _⟩, copyID_eq (Nat.le_refl _) hdata⟩

theorem gotID_mem_handleDoDelete (msg : Message) :
    gotID (beyond 1) msg.data sizeofBlock ∈ (handleDoDelete beyond node msg).steps := by
  unfold handleDoDelete
  dsimp only
  split
  next => exact List.mem_cons_self
  next => exact List.mem_cons_self

/-- The handler of a request is reached, on this machine or on the one that it is sent to. -/
theorem exists_gotID_mem {me first : MachineID} (hfirst : node.firstHolder id = some first) :
    gotID (beyond 1) (bytesOf id) sizeofBlock ∈ deleteSteps beyond me node holder others id := by
  obtain ⟨attr, hattr, hhead⟩ := Option.bind_eq_some_iff.mp hfirst
  obtain ⟨rest, hmachine⟩ := List.head?_eq_some_iff.mp hhead
  have hgot (node : BlockNode) := @gotID_mem_handleDoDelete beyond node
    ((Message.new .block .doDelete).addData (bytesOf id))
  rw [deleteSteps, List.mem_append, List.mem_append]
  left
  unfold deleteBlock
  simp only [hattr, hmachine]
  split
  next => exact Or.inl (List.mem_cons_of_mem _ (hgot node))
  next =>
    refine Or.inr (List.mem_flatMap.mpr ⟨_, ?_, hgot holder⟩)
    exact List.mem_cons_self

/-- No request that is made is carried intact, neither on this machine nor on another one. -/
theorem deleteSteps_intact_iff (beyond : Nat → Nat → UInt8) (me : MachineID)
    (node holder : BlockNode) (others : List BlockNode) (id : BlockID) :
    (∀ step ∈ deleteSteps beyond me node holder others id, step.Intact id) ↔
      node.firstHolder id = none := by
  constructor
  · intro hintact
    cases hfirst : node.firstHolder id with
    | none => rfl
    | some first => exact absurd (hintact _ (exists_gotID_mem hfirst)) not_intact_gotID
  · intro hnone step hmem
    have hasked : deleteBlock beyond me node id = ⟨node, [], []⟩ := by
      unfold deleteBlock
      split
      next => rfl
      next attr hattr =>
        rw [BlockNode.firstHolder, hattr, Option.bind_some, List.head?_eq_none_iff] at hnone
        rw [hnone]
    rw [deleteSteps, hasked] at hmem
    exact absurd hmem List.not_mem_nil

/-- Machine 1 has block 7 alone and is asked to delete it, or machine 2 is. -/
theorem exists_deleteSteps_not_intact :
    ∃ node : BlockNode, node.firstHolder 7 = some 1 ∧
      (∃ step ∈ deleteSteps (fun _ _ => 0) 1 node node [] 7, ¬ step.Intact 7) ∧
      ∃ step ∈ deleteSteps (fun _ _ => 0) 2 node node [] 7, ¬ step.Intact 7 := by
  refine ⟨{ BlockNode.empty with
    localIDs := (∅ : Std.TreeMap BlockID Nat).insert 7 0
    attrs := fun _ => ⟨7, [1], .available⟩ }, by decide, ?_, ?_⟩
  · exact ⟨.got ⟨8, 8, 24⟩ 7, by decide, fun h => absurd h.1.1 (by decide)⟩
  · exact ⟨.got ⟨8, 8, 24⟩ 7, by decide, fun h => absurd h.1.1 (by decide)⟩

end DeleteRequest

end Doopey
