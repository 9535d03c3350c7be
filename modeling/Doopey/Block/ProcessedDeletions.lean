import Doopey.Block.Deletions

/-!
# Deletions that are processed

A machine deletes several blocks, and the others handle what it tells them, in any
order. A block is gone afterwards just when the first machine on the list that was
found could be reached and knew the block, or when nobody had it before. The handlers
copy more bytes than an ID has; where that is no harm is left open, and elsewhere they
fail, and no block is deleted.
-/

namespace Doopey

open Foundation

namespace BlockNode

/-- The machine that is asked to delete a block. -/
def firstHolder (node : BlockNode) (id : BlockID) : Option MachineID :=
  (node.askBlockDetail id).bind fun attr => (node.attrs attr).machine.head?

/-- Nothing has changed for a block, and its list of machines is the same. -/
structure Intact (id : BlockID) (node node' : BlockNode) : Prop where
  localIDs : node'.localIDs[id]? = node.localIDs[id]?
  remoteIDs : node'.remoteIDs[id]? = node.remoteIDs[id]?
  files : node'.files id = node.files id
  machine {attr : Nat} : node.askBlockDetail id = some attr →
    (node'.attrs attr).machine = (node.attrs attr).machine

section Node

variable {node node' node'' : BlockNode} {id : BlockID}

namespace Intact

theorem refl (id : BlockID) (node : BlockNode) : Intact id node node :=
  ⟨rfl, rfl, rfl, fun _ => rfl⟩

theorem askBlockDetail (h : Intact id node node') :
    node'.askBlockDetail id = node.askBlockDetail id := by
  rw [BlockNode.askBlockDetail, BlockNode.askBlockDetail, h.localIDs, h.remoteIDs]

theorem trans (h : Intact id node node') (h' : Intact id node' node'') : Intact id node node'' where
  localIDs := h'.localIDs.trans h.localIDs
  remoteIDs := h'.remoteIDs.trans h.remoteIDs
  files := h'.files.trans h.files
  machine hask := (h'.machine (h.askBlockDetail.trans hask)).trans (h.machine hask)

theorem firstHolder (h : Intact id node node') : node'.firstHolder id = node.firstHolder id := by
  unfold BlockNode.firstHolder
  rw [h.askBlockDetail]
  cases hask : node.askBlockDetail id with
  | none => rfl
  | some attr =>
      rw [Option.bind_some, Option.bind_some, h.machine hask]

theorem absent_iff (h : Intact id node node') : node'.Absent id ↔ node.Absent id := by
  unfold Absent
  rw [h.localIDs, h.files]

/-- Another block is deleted. -/
theorem afterDeleteBlock (node : BlockNode) {id' : BlockID} (hne : id' ≠ id) :
    Intact id node (node.afterDeleteBlock id') where
  localIDs := (getElem?_erase_id _ _ _).trans (if_neg hne.symm)
  remoteIDs := (getElem?_erase_id _ _ _).trans (if_neg hne.symm)
  files := Function.update_of_ne hne.symm _ _
  machine _ := rfl

theorem afterDoDelete (node : BlockNode) {id' : BlockID} (hne : id' ≠ id) :
    Intact id node (node.afterDoDelete id').1 := by
  unfold BlockNode.afterDoDelete
  split
  next => exact refl id node
  next attr hask =>
    have hmarked : Intact id node
        (node.modify attr fun attr => { attr with state := .deleting }) := by
      refine ⟨rfl, rfl, rfl, fun {other} _ => ?_⟩
      unfold modify
      dsimp only
      rw [Function.update_apply]
      split
      next heq => rw [heq]
      next => rfl
    exact hmarked.trans (afterDeleteBlock _ hne)

theorem afterDelete (node : BlockNode) (me : MachineID) {id' : BlockID} (hne : id' ≠ id) :
    Intact id node (node.afterDelete me id').1 := by
  unfold BlockNode.afterDelete
  split
  next => exact refl id node
  next =>
    split
    next => exact refl id node
    next =>
      split
      next => exact afterDoDelete node hne
      next => exact refl id node

end Intact

theorem Absent.afterDeleteBlock (h : node.Absent id) (id' : BlockID) :
    (node.afterDeleteBlock id').Absent id := by
  by_cases heq : id' = id
  · rw [heq]
    exact absent_afterDeleteBlock node id
  · exact (same_afterDeleteBlock node heq).absent h

theorem Absent.afterDoDelete (h : node.Absent id) (id' : BlockID) :
    (node.afterDoDelete id').1.Absent id := by
  by_cases hask : node.askBlockDetail id = none
  · exact (same_afterDoDelete fun _ => hask).absent h
  · by_cases heq : id' = id
    · rw [heq]
      exact absent_afterDoDelete hask
    · exact (same_afterDoDelete fun h => absurd h heq).absent h

/-- What `deleteBlock` does, by the machine that is asked. -/
theorem afterDelete_eq (node : BlockNode) (me : MachineID) (id : BlockID) :
    node.afterDelete me id = match node.firstHolder id with
      | none => (node, [])
      | some first => if me = first then node.afterDoDelete id
          else (node, [(.machine first, .doDelete id)]) := by
  unfold afterDelete firstHolder
  cases node.askBlockDetail id with
  | none => rfl
  | some attr =>
      rw [Option.bind_some]
      dsimp only
      cases (node.attrs attr).machine with
      | nil => rfl
      | cons first rest => rfl

theorem afterDoDelete_eq (node : BlockNode) (id : BlockID) :
    (node.afterDoDelete id).2 =
      if node.askBlockDetail id = none then [] else [(.others, .deleteBlock id)] := by
  unfold afterDoDelete
  cases node.askBlockDetail id with
  | none => rfl
  | some attr => rfl

end Node

end BlockNode

namespace BlockNet

open BlockManager (sizeofBlock)

/-- No machine sends anything to itself. -/
theorem inFlight_act_self (net : BlockNet) (n : MachineID) (node : BlockNode)
    (sends : List (Target × BlockMessage)) :
    (net.act n node sends).inFlight n = net.inFlight n := by
  have hnone : arriving n sends n = 0 := by
    apply Multiset.eq_zero_of_forall_notMem
    intro sent hmem
    obtain ⟨⟨target, msg⟩, -, hreaches, -⟩ := mem_arriving.mp hmem
    cases target with
    | machine m => exact hreaches.2 rfl
    | others => exact hreaches rfl
  change net.inFlight n + arriving n sends n = net.inFlight n
  rw [hnone, Multiset.add_zero]

/-- The machine that is asked to delete the block carries it out. -/
def Effective (up : MachineID → Prop) (net : BlockNet) (n : MachineID) (id : BlockID) : Prop :=
  ∃ first, (net.nodes n).firstHolder id = some first ∧
    (first = n ∨ up first ∧ (net.nodes first).askBlockDetail id ≠ none)

/-- A machine calls `deleteBlock`, or one that can be reached handles what follows from it.
Without room for the bytes that are copied the handlers fail: what a machine would carry out
itself does not take place, and a message comes to nothing. -/
def Deletes (room : Nat) (up : MachineID → Prop) (n : MachineID) (net : BlockNet) :
    BlockEvent → Prop
  | .delete m id => m = n ∧ ((net.nodes n).firstHolder id = some n → sizeofBlock ≤ room)
  | .deliver m _ (.doDelete _) | .deliver m _ (.deleteBlock _) => up m ∧ sizeofBlock ≤ room
  | .drop _ _ (.doDelete _) | .drop _ _ (.deleteBlock _) => ¬ sizeofBlock ≤ room
  | _ => False

/-- A step that leaves a block and the deletion of it alone. -/
structure Apart (id : BlockID) (net net' : BlockNet) : Prop where
  nodes (m : MachineID) : BlockNode.Intact id (net.nodes m) (net'.nodes m)
  asked (m src : MachineID) : (src, .doDelete id) ∈ net'.inFlight m ↔
    (src, .doDelete id) ∈ net.inFlight m
  told (m src : MachineID) : (src, .deleteBlock id) ∈ net'.inFlight m ↔
    (src, .deleteBlock id) ∈ net.inFlight m

/-- The deletions of the blocks are processed, and whatever else happens leaves them alone. -/
def Processing (blockReplica : UInt64) (room : Nat) (up : MachineID → Prop) (n : MachineID)
    (ids : List BlockID) (net : BlockNet) (event : BlockEvent) : Prop :=
  Deletes room up n net event ∨
    ∀ id ∈ ids, ∀ net', BlockStep blockReplica net event net' → Apart id net net'

/-- No deletion of the block is under way. -/
def Processed (up : MachineID → Prop) (net : BlockNet) (id : BlockID) : Prop :=
  ∀ m, up m → ∀ src, (src, .doDelete id) ∉ net.inFlight m ∧ (src, .deleteBlock id) ∉ net.inFlight m

/-- The deletion of the block has not been carried out anywhere. It may be `called` for. -/
structure Untouched (up : MachineID → Prop) (net start : BlockNet) (n : MachineID)
    (id : BlockID) (called : Prop) : Prop where
  nodes (m : MachineID) : BlockNode.Intact id (start.nodes m) (net.nodes m)
  told {m src : MachineID} : up m → (src, .deleteBlock id) ∉ net.inFlight m
  asked {m src : MachineID} : up m → (src, .doDelete id) ∈ net.inFlight m →
    called ∧ (start.nodes n).firstHolder id = some m ∧ m ≠ n
  sent : called → start.Effective up n id → ∃ first src,
    (start.nodes n).firstHolder id = some first ∧ up first ∧
      (src, .doDelete id) ∈ net.inFlight first

/-- Every machine has deleted the block or is told to. -/
def Spread (up : MachineID → Prop) (id : BlockID) (net : BlockNet) : Prop :=
  ∀ m, up m → (net.nodes m).Absent id ∨ ∃ src, (src, .deleteBlock id) ∈ net.inFlight m

/-- How far the deletion of a block is. -/
def Tracked (up : MachineID → Prop) (net start : BlockNet) (n : MachineID) (id : BlockID)
    (called : Prop) : Prop :=
  net.Untouched up start n id called ∨ (called ∧ start.Effective up n id ∧ net.Spread up id)

section Steps

variable {blockReplica : UInt64} {room : Nat} {up : MachineID → Prop} {net net' start : BlockNet}
  {n : MachineID} {id : BlockID} {ids : List BlockID} {called : Prop}

theorem Untouched.apart (h : net.Untouched up start n id called) (hapart : Apart id net net') :
    net'.Untouched up start n id called where
  nodes m := (h.nodes m).trans (hapart.nodes m)
  told hm := fun htold => h.told hm ((hapart.told _ _).mp htold)
  asked hm hasked := h.asked hm ((hapart.asked _ _).mp hasked)
  sent hcalled heffective := by
    obtain ⟨first, src, hfirst, hup, hsent⟩ := h.sent hcalled heffective
    exact ⟨first, src, hfirst, hup, (hapart.asked _ _).mpr hsent⟩

theorem Spread.apart (h : net.Spread up id) (hapart : Apart id net net') :
    net'.Spread up id := by
  intro m hm
  rcases h m hm with habsent | ⟨src, htold⟩
  · exact Or.inl ((hapart.nodes m).absent_iff.mpr habsent)
  · exact Or.inr ⟨src, (hapart.told m src).mpr htold⟩

theorem Tracked.apart (h : net.Tracked up start n id called) (hapart : Apart id net net') :
    net'.Tracked up start n id called :=
  h.imp (·.apart hapart) fun h => ⟨h.1, h.2.1, h.2.2.apart hapart⟩

/-- A machine that has nothing of the block has nothing of it afterwards either. -/
theorem Spread.act {node : BlockNode} {sends : List (Target × BlockMessage)} {m : MachineID}
    (h : net.Spread up id) (hkeep : (net.nodes m).Absent id → node.Absent id) :
    (net.act m node sends).Spread up id := by
  intro k hk
  rcases h k hk with habsent | ⟨src, htold⟩
  · left
    by_cases heq : k = m
    · rw [heq, nodes_act_self]
      exact hkeep (heq ▸ habsent)
    · rw [nodes_act_of_ne heq]
      exact habsent
  · exact Or.inr ⟨src, Multiset.mem_add.mpr (Or.inl htold)⟩

/-- The machine that is asked deletes the block and tells the others. -/
theorem Spread.of_afterDoDelete {m : MachineID}
    (hask : (net.nodes m).askBlockDetail id ≠ none) :
    (net.act m ((net.nodes m).afterDoDelete id).1 ((net.nodes m).afterDoDelete id).2).Spread
      up id := by
  intro k _
  by_cases heq : k = m
  · left
    rw [heq, nodes_act_self]
    exact BlockNode.absent_afterDoDelete hask
  · right
    refine ⟨m, Multiset.mem_add.mpr (Or.inr (mem_arriving.mpr ?_))⟩
    refine ⟨(.others, .deleteBlock id), ?_, heq, rfl⟩
    rw [BlockNode.afterDoDelete_eq, if_neg hask]
    exact List.mem_singleton_self _

/-- A machine sends messages that are not about the block. -/
theorem Apart.act {node : BlockNode} {sends : List (Target × BlockMessage)} (m : MachineID)
    (hintact : BlockNode.Intact id (net.nodes m) node)
    (hsends : ∀ send ∈ sends, send.2 ≠ .doDelete id ∧ send.2 ≠ .deleteBlock id) :
    Apart id net (net.act m node sends) := by
  have hnot {k src : MachineID} {msg : BlockMessage}
      (hmsg : msg = .doDelete id ∨ msg = .deleteBlock id) :
      (src, msg) ∈ net.inFlight k + arriving m sends k ↔ (src, msg) ∈ net.inFlight k := by
    rw [Multiset.mem_add]
    refine ⟨fun hmem => hmem.resolve_right fun hnew => ?_, Or.inl⟩
    obtain ⟨send, hsend, -, heq⟩ := mem_arriving.mp hnew
    -- what arrives is among the messages that are sent
    have hsame := (Prod.mk.inj heq).2
    rcases hmsg with rfl | rfl
    · exact (hsends send hsend).1 hsame.symm
    · exact (hsends send hsend).2 hsame.symm
  refine ⟨fun k => ?_, fun k src => hnot (Or.inl rfl), fun k src => hnot (Or.inr rfl)⟩
  by_cases heq : k = m
  · rw [heq, nodes_act_self]
    exact hintact
  · rw [nodes_act_of_ne heq]
    exact .refl id _

/-- A message has left the network, and the messages of another kind are still there. -/
theorem mem_without_of_ne {m src : MachineID} {msg : BlockMessage}
    {rest : Multiset (MachineID × BlockMessage)} (hflight : net.inFlight m = (src, msg) ::ₘ rest)
    {k src' : MachineID} {msg' : BlockMessage} (hne : msg' ≠ msg) :
    (src', msg') ∈ (net.without m rest).inFlight k ↔ (src', msg') ∈ net.inFlight k := by
  change _ ∈ Function.update net.inFlight m rest k ↔ _
  by_cases heq : k = m
  · rw [heq, Function.update_self, hflight, Multiset.mem_cons]
    exact ⟨Or.inr, fun hmem => hmem.resolve_left fun h => hne (Prod.mk.inj h).2⟩
  · rw [Function.update_of_ne heq]

theorem Apart.without {m src : MachineID} {msg : BlockMessage}
    {rest : Multiset (MachineID × BlockMessage)} (hflight : net.inFlight m = (src, msg) ::ₘ rest)
    (hdo : .doDelete id ≠ msg) (hdelete : .deleteBlock id ≠ msg) :
    Apart id net (net.without m rest) where
  nodes _ := .refl id _
  asked _ _ := mem_without_of_ne hflight hdo
  told _ _ := mem_without_of_ne hflight hdelete

theorem Apart.trans {net'' : BlockNet} (h : Apart id net net') (h' : Apart id net' net'') :
    Apart id net net'' where
  nodes m := (h.nodes m).trans (h'.nodes m)
  asked m src := (h'.asked m src).trans (h.asked m src)
  told m src := (h'.told m src).trans (h.told m src)

/-- Another block is deleted. -/
theorem Apart.deletes (hroom : sizeofBlock ≤ room) {event : BlockEvent}
    (hdeletes : Deletes room up n net event) (hstep : BlockStep blockReplica net event net')
    (hcall : ∀ m, event ≠ .delete m id) (hasked : ∀ m src, event ≠ .deliver m src (.doDelete id))
    (htold : ∀ m src, event ≠ .deliver m src (.deleteBlock id)) : Apart id net net' := by
  cases hstep with
  | delete m id' room' node sends hrun =>
      have hne : id' ≠ id := fun heq => hcall m (by rw [heq])
      have hintact : BlockNode.Intact id (net.nodes m) ((net.nodes m).afterDelete m id').1 :=
        .afterDelete _ m hne
      rw [BlockNode.eq_of_deleteBlock hrun] at hintact
      apply Apart.act m hintact
      intro send hsend
      rcases BlockNode.mem_deleteBlock hrun hsend with rfl | ⟨first, rfl⟩
      · simp [hne]
      · simp [hne]
  | deliver m src msg rest room' pick node sends hflight hpick hrun =>
      cases msg with
      | doDelete id' =>
          have hne : id' ≠ id := fun heq => hasked m src (by rw [heq])
          apply (Apart.without hflight (by simp [hne.symm]) (by simp)).trans
          obtain ⟨-, hrun⟩ := BlockNode.eq_of_handleDoDelete hrun
          have hintact : BlockNode.Intact id ((net.without m rest).nodes m)
              ((net.nodes m).afterDoDelete id').1 := .afterDoDelete _ hne
          have hsends := (net.nodes m).afterDoDelete_eq id'
          rw [hrun] at hintact hsends
          apply Apart.act m hintact
          intro send hsend
          rw [show sends = _ from hsends] at hsend
          split at hsend
          next => exact absurd hsend List.not_mem_nil
          next => simp [List.mem_singleton.mp hsend, hne]
      | deleteBlock id' =>
          have hne : id' ≠ id := fun heq => htold m src (by rw [heq])
          apply (Apart.without hflight (by simp) (by simp [hne.symm])).trans
          obtain ⟨-, rfl, rfl⟩ := BlockNode.eq_of_request_deleteBlock hrun
          exact Apart.act m (.afterDeleteBlock _ hne) fun _ hsend => absurd hsend List.not_mem_nil
      | _ => exact False.elim hdeletes
  | drop m src msg rest hflight =>
      cases msg with
      | doDelete id' => exact absurd hroom hdeletes
      | deleteBlock id' => exact absurd hroom hdeletes
      | _ => exact False.elim hdeletes
  | _ => exact False.elim hdeletes

/-- The machine is asked to delete the block itself. -/
theorem Tracked.delete (h : net.Tracked up start n id called) :
    (net.act n ((net.nodes n).afterDelete n id).1 ((net.nodes n).afterDelete n id).2).Tracked
      up start n id True := by
  rcases h with h | ⟨-, heffective, hspread⟩
  · have hfirst := (h.nodes n).firstHolder
    rw [BlockNode.afterDelete_eq, hfirst]
    cases hstart : (start.nodes n).firstHolder id with
    | none =>
        -- nobody is known to have the block, and nothing is sent
        have hsame := h.apart
          (Apart.act n (.refl id _) fun _ hsend => absurd hsend List.not_mem_nil)
        refine Or.inl ⟨hsame.nodes, hsame.told, fun hm hasked => ?_, fun _ heffective => ?_⟩
        · exact (hsame.asked hm hasked).imp_left fun _ => trivial
        · obtain ⟨first, hsome, -⟩ := heffective
          exact absurd (hstart.symm.trans hsome) (by simp)
    | some first =>
        dsimp only
        by_cases heq : n = first
        · rw [if_pos heq]
          refine Or.inr ⟨trivial, ⟨first, hstart, Or.inl heq.symm⟩,
            .of_afterDoDelete fun hnone => ?_⟩
          rw [hstart, BlockNode.firstHolder, hnone] at hfirst
          exact absurd hfirst (by simp)
        · rw [if_neg heq]
          left
          refine ⟨fun m => ?_, fun hm htold => ?_, fun {m src} hm hasked => ?_,
            fun _ heffective => ?_⟩
          · -- only the request to the first machine is new
            have hsame : (net.act n (net.nodes n) [(.machine first, .doDelete id)]).nodes m =
                net.nodes m := congrFun (Function.update_eq_self n net.nodes) m
            rw [hsame]
            exact h.nodes m
          · rcases Multiset.mem_add.mp htold with hold | hnew
            · exact h.told hm hold
            · obtain ⟨send, hsend, -, heq⟩ := mem_arriving.mp hnew
              rw [List.mem_singleton.mp hsend] at heq
              exact absurd (Prod.mk.inj heq).2 (by simp)
          · refine ⟨trivial, ?_⟩
            rcases Multiset.mem_add.mp hasked with hold | hnew
            · exact (h.asked hm hold).2
            · obtain ⟨send, hsend, hreaches, -⟩ := mem_arriving.mp hnew
              rw [List.mem_singleton.mp hsend] at hreaches
              rw [hstart, ← hreaches.1]
              exact ⟨rfl, Ne.symm heq⟩
          · obtain ⟨first', hsome, hup⟩ := heffective
            obtain rfl : first = first' := Option.some.inj (hstart.symm.trans hsome)
            refine ⟨first, n, hstart, (hup.resolve_left (Ne.symm heq)).1, ?_⟩
            exact Multiset.mem_add.mpr (Or.inr (mem_arriving.mpr
              ⟨_, List.mem_singleton_self _, ⟨rfl, Ne.symm heq⟩, rfl⟩))
  · refine Or.inr ⟨trivial, heffective, hspread.act fun habsent => ?_⟩
    rw [BlockNode.afterDelete_eq]
    split
    next => exact habsent
    next =>
      split
      next => exact habsent.afterDoDelete id
      next => exact habsent

/-- A machine handles a request to delete the block. -/
theorem Tracked.doDelete (h : net.Tracked up start n id called) {m src : MachineID}
    {rest : Multiset (MachineID × BlockMessage)} (hm : up m)
    (hflight : net.inFlight m = (src, .doDelete id) ::ₘ rest) :
    ((net.without m rest).act m ((net.nodes m).afterDoDelete id).1
      ((net.nodes m).afterDoDelete id).2).Tracked up start n id called := by
  rcases h with h | ⟨hcalled, heffective, hspread⟩
  · have hmem : (src, .doDelete id) ∈ net.inFlight m := by
      rw [hflight]
      exact Multiset.mem_cons_self _ _
    obtain ⟨hcalled, hfirst, hne⟩ := h.asked hm hmem
    have hdetail := (h.nodes m).askBlockDetail
    by_cases hask : (net.nodes m).askBlockDetail id = none
    · left
      -- the request comes to a machine that does not know the block, and is lost
      have hsame : (net.nodes m).afterDoDelete id = (net.nodes m, []) := by
        rw [BlockNode.afterDoDelete, hask]
      have hnothing : (net.without m rest).act m (net.nodes m) [] = net.without m rest :=
        act_nothing _ m
      rw [hsame, hnothing]
      refine ⟨h.nodes, fun hk htold => h.told hk (mem_inFlight_of_without hflight htold),
        fun hk hasked => h.asked hk (mem_inFlight_of_without hflight hasked),
        fun _ heffective => ?_⟩
      obtain ⟨first, hsome, hup⟩ := heffective
      obtain rfl : m = first := Option.some.inj (hfirst.symm.trans hsome)
      exact absurd (hdetail.symm.trans hask) (hup.resolve_left hne).2
    · refine Or.inr ⟨hcalled, ⟨m, hfirst, Or.inr ⟨hm, hdetail ▸ hask⟩⟩, ?_⟩
      exact @Spread.of_afterDoDelete up (net.without m rest) id m hask
  · refine Or.inr ⟨hcalled, heffective, ?_⟩
    -- the deletion was carried out by another request
    have hwithout : (net.without m rest).Spread up id := by
      intro k hk
      refine (hspread k hk).imp_right ?_
      rintro ⟨src', htold⟩
      exact ⟨src', (mem_without_of_ne hflight (by simp)).mpr htold⟩
    exact hwithout.act fun habsent => habsent.afterDoDelete id

/-- A machine handles the deletion of the block. -/
theorem Tracked.deleteBlock (h : net.Tracked up start n id called) {m src : MachineID}
    {rest : Multiset (MachineID × BlockMessage)} (hm : up m)
    (hflight : net.inFlight m = (src, .deleteBlock id) ::ₘ rest) :
    ((net.without m rest).act m ((net.nodes m).afterDeleteBlock id) []).Tracked
      up start n id called := by
  rcases h with h | ⟨hcalled, heffective, hspread⟩
  · refine absurd ?_ (@h.told m src hm)
    rw [hflight]
    exact Multiset.mem_cons_self _ _
  · refine Or.inr ⟨hcalled, heffective, fun k hk => ?_⟩
    by_cases heq : k = m
    · left
      rw [heq, nodes_act_self]
      exact BlockNode.absent_afterDeleteBlock _ id
    · refine (hspread k hk).imp (fun habsent => ?_) fun ⟨src', htold⟩ => ⟨src', ?_⟩
      · rw [nodes_act_of_ne heq]
        exact habsent
      · refine Multiset.mem_add.mpr (Or.inl ?_)
        change _ ∈ Function.update net.inFlight m rest k
        rw [Function.update_of_ne heq]
        exact htold

theorem Tracked.step (hroom : sizeofBlock ≤ room) {event : BlockEvent}
    (h : net.Tracked up start n id called) (hid : id ∈ ids)
    (hprocessing : Processing blockReplica room up n ids net event)
    (hstep : BlockStep blockReplica net event net') :
    net'.Tracked up start n id (called ∨ event = .delete n id) := by
  by_cases hcall : event = .delete n id
  · subst hcall
    cases hstep with
    | delete _ _ _ node sends hrun =>
        have htracked := h.delete
        rw [BlockNode.eq_of_deleteBlock hrun] at htracked
        simpa using htracked
  · rw [or_iff_left hcall]
    rcases hprocessing with hdeletes | hapart
    · by_cases hasked : ∃ m src, event = .deliver m src (.doDelete id)
      · obtain ⟨m, src, rfl⟩ := hasked
        cases hstep with
        | deliver _ _ _ rest _ pick node sends hflight hpick hrun =>
            obtain ⟨-, hrun⟩ := BlockNode.eq_of_handleDoDelete hrun
            have htracked := h.doDelete hdeletes.1 hflight
            rw [hrun] at htracked
            exact htracked
      · by_cases htold : ∃ m src, event = .deliver m src (.deleteBlock id)
        · obtain ⟨m, src, rfl⟩ := htold
          cases hstep with
          | deliver _ _ _ rest _ pick node sends hflight hpick hrun =>
              obtain ⟨-, rfl, rfl⟩ := BlockNode.eq_of_request_deleteBlock hrun
              exact h.deleteBlock hdeletes.1 hflight
        · refine h.apart (Apart.deletes hroom hdeletes hstep (fun m heq => ?_)
            (fun m src heq => hasked ⟨m, src, heq⟩) fun m src heq => htold ⟨m, src, heq⟩)
          rw [heq] at hdeletes hcall
          exact hcall (by rw [hdeletes.1])
    · exact h.apart (hapart id hid _ hstep)

/-- The system in which the deletions of the blocks are processed. -/
def processing (blockReplica : UInt64) (room : Nat) (up : MachineID → Prop) (n : MachineID)
    (ids : List BlockID) : System BlockNet BlockEvent :=
  (blockSystem blockReplica).restrict (Processing blockReplica room up n ids)

theorem Tracked.steps (hroom : sizeofBlock ≤ room) {events : List BlockEvent}
    (h : net.Tracked up start n id called) (hid : id ∈ ids)
    (hsteps : (processing blockReplica room up n ids).Steps net events net') :
    net'.Tracked up start n id (called ∨ .delete n id ∈ events) := by
  induction hsteps generalizing called with
  | nil => simpa using h
  | cons hstep hsteps ih =>
      have htracked := ih (h.step hroom hid hstep.1 hstep.2)
      rwa [or_assoc, eq_comm, ← List.mem_cons] at htracked

/-- Without room for the bytes that are copied, every machine keeps what it has of the block. -/
theorem Processing.intact (hroom : ¬ sizeofBlock ≤ room) {event : BlockEvent} (hid : id ∈ ids)
    (hprocessing : Processing blockReplica room up n ids net event)
    (hstep : BlockStep blockReplica net event net') (m : MachineID) :
    BlockNode.Intact id (net.nodes m) (net'.nodes m) := by
  rcases hprocessing with hdeletes | hapart
  · cases hstep with
    | delete k id' room' node sends hrun =>
        obtain ⟨rfl, hfirst⟩ := hdeletes
        have hnode : net.nodes k = node := by
          have hrun := BlockNode.eq_of_deleteBlock hrun
          rw [BlockNode.afterDelete_eq] at hrun
          split at hrun
          next => exact (Prod.mk.inj hrun).1
          next first hsome =>
            split at hrun
            next heq => exact absurd (hfirst (heq ▸ hsome)) hroom
            next => exact (Prod.mk.inj hrun).1
        have hsame : (net.act k node sends).nodes = net.nodes := by
          rw [← hnode]
          exact Function.update_eq_self k net.nodes
        rw [hsame]
        exact .refl id _
    | deliver k src msg rest room' pick node sends hflight hpick hrun =>
        cases msg with
        | doDelete id' => exact absurd hdeletes.2 hroom
        | deleteBlock id' => exact absurd hdeletes.2 hroom
        | _ => exact False.elim hdeletes
    | drop => exact .refl id _
    | _ => exact False.elim hdeletes
  · exact (hapart id hid _ hstep).nodes m

theorem intact_of_steps (hroom : ¬ sizeofBlock ≤ room) {events : List BlockEvent} (hid : id ∈ ids)
    (hsteps : (processing blockReplica room up n ids).Steps net events net') (m : MachineID) :
    BlockNode.Intact id (net.nodes m) (net'.nodes m) := by
  induction hsteps with
  | nil => exact .refl id _
  | cons hstep hsteps ih => exact (hstep.1.intact hroom hid hstep.2 m).trans ih

/-- A block is gone from all machines just when the machine that is asked carries out the
deletion, for which its copies need room, or when none of them had it before. -/
theorem absent_iff_of_processed {events : List BlockEvent} (hid : id ∈ ids)
    (hstart : start.Processed up id)
    (hsteps : (processing blockReplica room up n ids).Steps start events net)
    (hend : net.Processed up id) :
    (∀ m, up m → (net.nodes m).Absent id) ↔
      (sizeofBlock ≤ room ∧ .delete n id ∈ events ∧ start.Effective up n id) ∨
        ∀ m, up m → (start.nodes m).Absent id := by
  by_cases hroom : sizeofBlock ≤ room
  swap
  · rw [or_iff_right fun h => hroom h.1]
    exact forall₂_congr fun m _ => (intact_of_steps hroom hid hsteps m).absent_iff
  rw [and_iff_right hroom]
  have hinit : start.Tracked up start n id False := by
    left
    exact ⟨fun m => .refl id _, fun hm => (hstart _ hm _).2,
      fun hm hasked => absurd hasked (hstart _ hm _).1, fun hcalled => hcalled.elim⟩
  have htracked := hinit.steps hroom hid hsteps
  rw [false_or] at htracked
  rcases htracked with huntouched | ⟨hcalled, heffective, hspread⟩
  · -- a request that is carried out in the end would still be under way
    have hnot : ¬(.delete n id ∈ events ∧ start.Effective up n id) := by
      rintro ⟨hcalled, heffective⟩
      obtain ⟨first, src, -, hup, hsent⟩ := huntouched.sent hcalled heffective
      exact (hend first hup src).1 hsent
    rw [or_iff_right hnot]
    exact forall₂_congr fun m _ => (huntouched.nodes m).absent_iff
  · refine iff_of_true (fun m hm => (hspread m hm).resolve_right ?_) (Or.inl ⟨hcalled, heffective⟩)
    rintro ⟨src, htold⟩
    exact (hend m hm src).2 htold

end Steps

end BlockNet

end Doopey
