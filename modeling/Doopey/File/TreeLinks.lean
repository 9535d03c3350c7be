import Doopey.File.TreeKeys

/-!
# The links between cells

What holds of the links in every tree, whatever its removals have done to it: they
lead to cells in use and, along `_next`, to younger ones, and a cell whose
`_parent` was assigned is nobody's successor. So a path that passes the checks of
`addFile` can always be added.
-/

namespace Doopey

open Foundation

namespace FileTree

/-- The links that additions and removals keep up. -/
structure Linked (tree : FileTree) : Prop where
  live {address : Nat} {node : TreeNode} : tree.heap address = some node → address < tree.brk
  next {address next : Nat} {node : TreeNode} : tree.heap address = some node →
    node.next = some next → address < next ∧ ∃ cell, tree.heap next = some cell ∧ cell.parent = none
  last {address last : Nat} {node : TreeNode} : tree.heap address = some node →
    node.last = some last → last < address
  children {address first : Nat} {node : TreeNode} : tree.heap address = some node →
    node.children = some first → ∃ cell, tree.heap first = some cell ∧
      (cell.parent = none ∨ cell.parent = some address)

/-- The table of a tree has no part in its links. -/
theorem Linked.of_eq {tree tree' : FileTree} (h : tree.Linked) (hheap : tree'.heap = tree.heap)
    (hbrk : tree'.brk = tree.brk) : tree'.Linked := by
  obtain ⟨hlive, hnext, hlast, hchildren⟩ := h
  rw [← hheap] at hlive hnext hlast hchildren
  exact ⟨fun hnode => hbrk ▸ hlive hnode, hnext, hlast, hchildren⟩

theorem Linked.removeNode {tree tree' : FileTree} {tn : Nat} (h : tree.Linked)
    (hrun : tree.removeNode tn = .ok tree') : tree'.Linked := by
  obtain ⟨hbrk, node, parent, hnode, hparent, hheap⟩ := removeNode_spec hrun
  have hold {address : Nat} {cell : TreeNode} (hcell : tree'.heap address = some cell) :
      address ≠ tn ∧ ∃ old, tree.heap address = some old ∧
        cell = relink node tn parent address old := by
    rw [hheap] at hcell
    split at hcell
    next => exact absurd hcell (by simp)
    next hne =>
      obtain ⟨old, hold, heq⟩ := Option.map_eq_some_iff.mp hcell
      exact ⟨hne, old, hold, heq.symm⟩
  have hnew {address : Nat} (hne : address ≠ tn) {old : TreeNode}
      (hcell : tree.heap address = some old) :
      tree'.heap address = some (relink node tn parent address old) := by
    rw [hheap, if_neg hne, hcell, Option.map_some]
  -- the successor of a cell is not `tn`, which has a parent
  have hnext {address next : Nat} {cell : TreeNode} (hcell : tree.heap address = some cell)
      (hnext : cell.next = some next) : address < next ∧
        ∃ cell, tree'.heap next = some cell ∧ cell.parent = none := by
    obtain ⟨hlt, old, hnextCell, hnone⟩ := h.next hcell hnext
    refine ⟨hlt, _, hnew ?_ hnextCell, hnone⟩
    rintro rfl
    obtain rfl := Option.some.inj (hnode.symm.trans hnextCell)
    simp [hnone] at hparent
  refine ⟨?_, ?_, ?_, ?_⟩
  · intro address cell hcell
    obtain ⟨-, old, hcell₀, -⟩ := hold hcell
    rw [hbrk]
    exact h.live hcell₀
  · intro address next cell hcell hlink
    obtain ⟨-, old, hcell₀, rfl⟩ := hold hcell
    by_cases hlast : node.last = some address
    · rw [relink, if_pos hlast] at hlink
      obtain ⟨hlt, hcell'⟩ := hnext hnode hlink
      exact ⟨Nat.lt_trans (h.last hnode hlast) hlt, hcell'⟩
    · rw [relink, if_neg hlast] at hlink
      exact hnext hcell₀ hlink
  · intro address last cell hcell hlink
    obtain ⟨-, old, hcell₀, rfl⟩ := hold hcell
    by_cases hsucc : node.next = some address
    · rw [relink, if_pos hsucc] at hlink
      exact Nat.lt_trans (h.last hnode hlink) (h.next hnode hsucc).1
    · rw [relink, if_neg hsucc] at hlink
      exact h.last hcell₀ hlink
  · intro address first cell hcell hlink
    obtain ⟨-, old, hcell₀, rfl⟩ := hold hcell
    by_cases hdir : address = parent ∧ old.children = some tn
    · rw [relink, if_pos hdir] at hlink
      obtain ⟨-, cell, hcell, hnone⟩ := hnext hnode hlink
      exact ⟨cell, hcell, Or.inl hnone⟩
    · rw [relink, if_neg hdir] at hlink
      obtain ⟨old', hfirst, hcases⟩ := h.children hcell₀ hlink
      refine ⟨_, hnew ?_ hfirst, hcases⟩
      rintro rfl
      obtain rfl := Option.some.inj (hnode.symm.trans hfirst)
      rcases hcases with hnone | hsome
      · simp [hnone] at hparent
      · rw [hparent, Option.some.injEq] at hsome
        exact hdir ⟨hsome.symm, hlink⟩

theorem kept_linked : Kept Linked where
  remove h _ := h.of_eq rfl rfl
  removeNode h hunlink := h.removeNode hunlink

/-- The walk to the last child ends at a cell that is in use. -/
theorem Linked.lastSibling {tree : FileTree} (h : tree.Linked) {fuel insert : Nat}
    {node : TreeNode} (hnode : tree.heap insert = some node) (hfuel : tree.brk ≤ insert + fuel) :
    ∃ last cell, tree.lastSibling fuel insert = .ok last ∧ tree.heap last = some cell ∧
      cell.next = none := by
  induction fuel generalizing insert node with
  | zero => exact absurd (h.live hnode) (by omega)
  | succ fuel ih =>
      rw [FileTree.lastSibling, deref_eq_ok_iff.mpr hnode, ok_bind]
      cases hnext : node.next with
      | none => exact ⟨insert, node, rfl, hnode, hnext⟩
      | some next =>
          obtain ⟨hlt, cell, hcell, -⟩ := h.next hnode hnext
          exact ih hcell (by omega)

/-- A new cell, and a cell that is made to point to it. -/
theorem Linked.alloc_assign {tree : FileTree} (h : tree.Linked) {filled : TreeNode} {address : Nat}
    {change : TreeNode → TreeNode} (hcell : ∃ node, tree.heap address = some node)
    (hfilled : filled.next = none ∧ filled.children = none ∧
      ∀ last, filled.last = some last → last < tree.brk)
    (hkeep : ∀ node, (change node).parent = node.parent ∧ (change node).last = node.last)
    (hnext : ∀ node, (change node).next = node.next ∨
      (change node).next = some tree.brk ∧ filled.parent = none)
    (hchildren : ∀ node, (change node).children = node.children ∨
      (change node).children = some tree.brk ∧ filled.parent = some address) :
    ((tree.alloc filled).assign address change).Linked := by
  have hne : address ≠ tree.brk := by
    obtain ⟨node, hnode⟩ := hcell
    exact Nat.ne_of_lt (h.live hnode)
  have hfresh : ((tree.alloc filled).assign address change).heap tree.brk = some filled := by
    rw [heap_assign, if_neg hne.symm]
    simp [alloc]
  have hother {other : Nat} (hne : other ≠ tree.brk) :
      ((tree.alloc filled).assign address change).heap other =
        (tree.heap other).map (if other = address then change else id) := by
    rw [heap_assign]
    simp [alloc, hne]
  have hparent {other : Nat} {old : TreeNode} (hold : tree.heap other = some old) :
      ∃ cell, ((tree.alloc filled).assign address change).heap other = some cell ∧
        cell.parent = old.parent := by
    rw [hother (Nat.ne_of_lt (h.live hold)), hold, Option.map_some]
    split
    next => exact ⟨_, rfl, (hkeep old).1⟩
    next => exact ⟨_, rfl, rfl⟩
  have hcases {other : Nat} {cell : TreeNode}
      (hcell : ((tree.alloc filled).assign address change).heap other = some cell) :
      other = tree.brk ∧ cell = filled ∨ ∃ old, tree.heap other = some old ∧
        (cell = old ∨ other = address ∧ cell = change old) := by
    by_cases heq : other = tree.brk
    · subst heq
      exact Or.inl ⟨rfl, Option.some.inj (hcell.symm.trans hfresh)⟩
    · rw [hother heq] at hcell
      obtain ⟨old, hold, rfl⟩ := Option.map_eq_some_iff.mp hcell
      refine Or.inr ⟨old, hold, ?_⟩
      split
      next haddress => exact Or.inr ⟨haddress, rfl⟩
      next => exact Or.inl rfl
  have hnextOld {other next : Nat} {old : TreeNode} (hold : tree.heap other = some old)
      (hlink : old.next = some next) : other < next ∧ ∃ cell,
        ((tree.alloc filled).assign address change).heap next = some cell ∧ cell.parent = none := by
    obtain ⟨hlt, cell, hcell, hnone⟩ := h.next hold hlink
    obtain ⟨cell', hcell', hsame⟩ := hparent hcell
    exact ⟨hlt, cell', hcell', hsame.trans hnone⟩
  have hchildrenOld {other first : Nat} {old : TreeNode} (hold : tree.heap other = some old)
      (hlink : old.children = some first) : ∃ cell,
        ((tree.alloc filled).assign address change).heap first = some cell ∧
          (cell.parent = none ∨ cell.parent = some other) := by
    obtain ⟨cell, hcell, hcases⟩ := h.children hold hlink
    obtain ⟨cell', hcell', hsame⟩ := hparent hcell
    exact ⟨cell', hcell', by rwa [hsame]⟩
  refine ⟨?_, ?_, ?_, ?_⟩
  · intro other cell hcell
    rcases hcases hcell with ⟨rfl, -⟩ | ⟨old, hold, -⟩
    · exact Nat.lt_succ_self _
    · exact Nat.lt_succ_of_lt (h.live hold)
  · intro other next cell hcell hlink
    rcases hcases hcell with ⟨-, rfl⟩ | ⟨old, hold, rfl | ⟨rfl, rfl⟩⟩
    · simp [hfilled.1] at hlink
    · exact hnextOld hold hlink
    · rcases hnext old with hsame | ⟨hset, hnone⟩
      · exact hnextOld hold (hsame ▸ hlink)
      · obtain rfl := Option.some.inj (hset.symm.trans hlink)
        exact ⟨h.live hold, filled, hfresh, hnone⟩
  · intro other last cell hcell hlink
    rcases hcases hcell with ⟨rfl, rfl⟩ | ⟨old, hold, rfl | ⟨rfl, rfl⟩⟩
    · exact hfilled.2.2 last hlink
    · exact h.last hold hlink
    · exact h.last hold ((hkeep old).2 ▸ hlink)
  · intro other first cell hcell hlink
    rcases hcases hcell with ⟨-, rfl⟩ | ⟨old, hold, rfl | ⟨rfl, rfl⟩⟩
    · simp [hfilled.2.1] at hlink
    · exact hchildrenOld hold hlink
    · rcases hchildren old with hsame | ⟨hset, hsome⟩
      · exact hchildrenOld hold (hsame ▸ hlink)
      · obtain rfl := Option.some.inj (hset.symm.trans hlink)
        exact ⟨filled, hfresh, Or.inr hsome⟩

/-- A new cell can be hung into every directory. -/
theorem Linked.insertChild {tree : FileTree} (h : tree.Linked) {insert : Nat} {dir : TreeNode}
    (hdir : tree.heap insert = some dir) (name path : Bytes) (metaID : BlockID) :
    ∃ tree', tree.insertChild insert name path metaID = .ok tree' ∧ tree'.Linked := by
  unfold FileTree.insertChild
  rw [deref_eq_ok_iff.mpr hdir, ok_bind]
  dsimp only
  cases hchildren : dir.children with
  | some first =>
      obtain ⟨firstCell, hfirst, -⟩ := h.children hdir hchildren
      have hwalk : tree.brk ≤ first + tree.brk := Nat.le_add_left _ _
      obtain ⟨last, cell, hlast, hcell, -⟩ := h.lastSibling hfirst hwalk
      dsimp only
      rw [hlast, ok_bind]
      have hlinked : ((tree.alloc { TreeNode.new with
          name := name, isFile := decide (metaID ≠ 0), metaID := metaID, last := some last }).assign
            last fun node => { node with next := some tree.brk }).Linked := by
        refine h.alloc_assign ⟨cell, hcell⟩ ⟨rfl, rfl, ?_⟩ (fun _ => ⟨rfl, rfl⟩)
          (fun _ => Or.inr ⟨rfl, rfl⟩) fun _ => Or.inl rfl
        rintro last' hlink
        obtain rfl := Option.some.inj hlink
        exact h.live hcell
      exact ⟨_, rfl, hlinked.of_eq rfl rfl⟩
  | none =>
      have hlinked : ((tree.alloc { TreeNode.new with
          name := name, isFile := decide (metaID ≠ 0), metaID := metaID
          parent := some insert }).assign
            insert fun node => { node with children := some tree.brk }).Linked := by
        refine h.alloc_assign ⟨dir, hdir⟩ ⟨rfl, rfl, fun last hlink => ?_⟩ (fun _ => ⟨rfl, rfl⟩)
          (fun _ => Or.inl rfl) fun _ => Or.inr ⟨rfl, rfl⟩
        exact absurd hlink (by simp [TreeNode.new])
      exact ⟨_, rfl, hlinked.of_eq rfl rfl⟩

/-- A path that passes the checks of `addFile` is added. -/
theorem Linked.addFile_of_admits {tree : FileTree} (h : tree.Linked) {path : Bytes}
    (hadmits : tree.Admits path) (metaID : BlockID) :
    ∃ tree', tree.addFile path metaID = .ok (tree', true) := by
  obtain ⟨hfree, dir, insert, node, hdir, hsearch, hnode, hfile⟩ := hadmits
  obtain ⟨tree', hinsert, -⟩ := h.insertChild hnode (getFileName path) path metaID
  refine ⟨tree', ?_⟩
  rw [addFile, if_neg (by simpa using hfree), hdir]
  dsimp only
  rw [hsearch]
  dsimp only
  rw [deref_eq_ok_iff.mpr hnode, ok_bind, if_neg (by simp [hfile]), hinsert, ok_bind]

theorem Linked.addFile {tree tree' : FileTree} (h : tree.Linked) {path : Bytes} {metaID : BlockID}
    {result : Bool} (hrun : tree.addFile path metaID = .ok (tree', result)) : tree'.Linked := by
  rcases addFile_cases hrun with ⟨-, -, rfl⟩ | ⟨-, -, insert, node, hnode, hinsert⟩
  · exact h
  · obtain ⟨inserted, hinsert', hlinked⟩ := h.insertChild hnode (getFileName path) path metaID
    obtain rfl := Except.ok.inj (hinsert.symm.trans hinsert')
    exact hlinked

theorem linked_new (keyHash : Bytes → Nat) : (new keyHash).Linked := by
  have hroot {address : Nat} {node : TreeNode} (hnode : (new keyHash).heap address = some node) :
      address = 0 ∧ node = { TreeNode.new with name := rootPath } := by
    by_cases heq : address = 0
    · subst heq
      exact ⟨rfl, (Option.some.inj hnode).symm⟩
    · simp [new, heq] at hnode
  refine ⟨fun hnode => ?_, fun hnode hlink => ?_, fun hnode hlink => ?_, fun hnode hlink => ?_⟩ <;>
    obtain ⟨rfl, rfl⟩ := hroot hnode
  · exact Nat.zero_lt_one
  · exact absurd hlink (by simp [TreeNode.new])
  · exact absurd hlink (by simp [TreeNode.new])
  · exact absurd hlink (by simp [TreeNode.new])

end FileTree

/-- Links are kept up by any calls. -/
theorem invariant_linked (keyHash : Bytes → Nat) :
    (treeSystem keyHash).Invariant FileTree.Linked :=
  FileTree.kept_linked.invariant (FileTree.linked_new keyHash) fun h hrun => h.addFile hrun

end Doopey
