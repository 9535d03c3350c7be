import Doopey.File.TreeLinks
import Doopey.File.TreeListings

/-!
# Removing a file

`removeFile` drops the key of a file from the table and unlinks its cell. Both can go
wrong: a key that is neither the first nor the second of its chain is looked for
forever, and the cell of an entry has no `_parent` unless it is the first of its
directory. The results below say when a removal goes through and what a caller sees of
it.
-/

namespace Doopey

open Foundation Foundation.DoublyLinked

namespace FileTree

/-- The cell of a path can be unlinked: the key is near the front of its chain, and the
links that `removeNode` follows lead to cells. -/
structure Severable (tree : FileTree) (path : Bytes) : Prop where
  near : tree.fileMap.Near path
  links {address : Nat} {node : TreeNode} : tree.fileMap.getValue path = some address →
    tree.heap address = some node → ∃ parent, node.parent = some parent ∧
      ∀ link, node.last = some link ∨ node.next = some link ∨ parent = link →
        (tree.heap link).isSome

section Removal

variable {tree tree' : FileTree} {path : Bytes}

/-- What `removeFile` does to a file, by the place of its key. -/
theorem removeFile_of_file (hwf : tree.fileMap.WF) {address : Nat} {node : TreeNode}
    (hvalue : tree.fileMap.getValue path = some address) (hnode : tree.heap address = some node)
    (hkind : node.isFile = true) :
    tree.removeFile path = if tree.fileMap.Near path then
      (tree.dropKey path).removeNode address >>= fun tree => .ok (tree, true)
    else .error .divergence := by
  have hlookup : tree.fileMap.lookup path = some (some address) := by
    unfold HashList.getValue at hvalue
    cases hlookup : tree.fileMap.lookup path with
    | none => exact absurd ((congrArg (·.getD default) hlookup).symm.trans hvalue) (by simp)
    | some value => rw [← hvalue, hlookup, Option.getD_some]
  unfold removeFile
  rw [hvalue]
  dsimp only
  rw [deref_eq_ok_iff.mpr hnode, ok_bind, if_neg (by simp [hkind])]
  split
  next hnear =>
    rw [HashList.remove_of_near hwf hnear, ok_bind]
    rfl
  next hfar =>
    rw [HashList.remove_of_not_near hlookup hfar]
    rfl

/-- When the path of a file can be removed. -/
theorem exists_removeFile_iff (hwf : tree.fileMap.WF) {id : BlockID}
    (hfile : tree.HasFile path id) :
    (∃ tree' result, tree.removeFile path = .ok (tree', result)) ↔ tree.Severable path := by
  obtain ⟨address, node, hvalue, hnode, hkind, -⟩ := hfile
  have hunlink := @exists_removeNode_iff (tree.dropKey path) address node hnode
  rw [removeFile_of_file hwf hvalue hnode hkind]
  split
  next hnear =>
    constructor
    · rintro ⟨tree', result, hrun⟩
      obtain ⟨tree', hremove, -⟩ := bind_eq_ok_iff.mp hrun
      refine ⟨hnear, fun hvalue' hnode' => ?_⟩
      obtain rfl := Option.some.inj (hvalue.symm.trans hvalue')
      obtain rfl := Option.some.inj (hnode.symm.trans hnode')
      exact hunlink.mp ⟨tree', hremove⟩
    · intro hsever
      obtain ⟨tree', hremove⟩ := hunlink.mpr (hsever.links hvalue hnode)
      exact ⟨tree', true, by rw [hremove, ok_bind]⟩
  next hfar =>
    refine iff_of_false ?_ fun hsever => hfar hsever.near
    rintro ⟨tree', result, hrun⟩
    exact absurd hrun (by simp)

/-- A file that is removed is gone. -/
theorem absent_of_removeFile (hwf : tree.fileMap.WF) {id : BlockID} (hfile : tree.HasFile path id)
    {result : Bool} (hrun : tree.removeFile path = .ok (tree', result)) :
    tree'.fileMap.getValue path = none := by
  obtain ⟨address, node, hvalue, hnode, hkind, -⟩ := hfile
  rw [removeFile_of_file hwf hvalue hnode hkind] at hrun
  split at hrun
  next =>
    obtain ⟨removed, hremove, hrun⟩ := bind_eq_ok_iff.mp hrun
    obtain ⟨rfl, -⟩ := Prod.mk.inj (Except.ok.inj hrun)
    rw [fileMap_removeNode hremove, HashList.getValue]
    unfold FileTree.dropKey
    rw [HashList.lookup_erase, if_pos rfl]
    rfl
  next => exact absurd hrun (by simp)

/-- A file that was removed could be detached. -/
theorem detachable_of_removeFile (hwf : tree.fileMap.WF) {address : Nat} {node : TreeNode}
    (hvalue : tree.fileMap.getValue path = some address) (hnode : tree.heap address = some node)
    (hkind : node.isFile = true) {result : Bool}
    (hrun : tree.removeFile path = .ok (tree', result)) : tree.Detachable path node := by
  obtain ⟨hnear, hlinks⟩ := (exists_removeFile_iff hwf ⟨address, node, hvalue, hnode, hkind, rfl⟩).mp
    ⟨tree', result, hrun⟩
  obtain ⟨parent, hparent, -⟩ := hlinks hvalue hnode
  exact ⟨hnear, ⟨address, hvalue, hnode⟩, by rw [hparent]; rfl⟩

/-- A call of `removeFile` that came to an end has unlinked what it was after. -/
theorem unlinks_of_removeFile (hwf : tree.fileMap.WF) {result : Bool}
    (hrun : tree.removeFile path = .ok (tree', result)) :
    (TreeOp.removeFile path).Unlinks tree := by
  intro address node hvalue hnode hkind
  exact detachable_of_removeFile hwf hvalue hnode hkind hrun

/-- The links of the cell of a path: its `_parent` is the cell of its directory, and its
neighbors in the chain of siblings link back. -/
structure Attached (tree : FileTree) (path : Bytes) (address : Nat) (node : TreeNode) : Prop where
  value : tree.fileMap.getValue path = some address
  cell : tree.heap address = some node
  parent : ∃ dir parent, dirOf path = some dir ∧ tree.fileMap.getValue dir = some parent ∧
    node.parent = some parent
  last {prior : Nat} : node.last = some prior →
    ∃ cell, tree.heap prior = some cell ∧ cell.next = some address
  next {after : Nat} : node.next = some after →
    ∃ cell, tree.heap after = some cell ∧ cell.last = some address

section Represents

variable {ns : PathTree} {addr : Bytes → Nat} {node : TreeNode}

/-- The siblings of an entry form a chain; the `_parent` of a detachable one is set. -/
theorem Represents.attached (h : Represents tree ns [] addr) (hdetach : tree.Detachable path node) :
    ∃ address, tree.Attached path address node := by
  obtain ⟨id, dir, rest, hentry, hnode, -, -, hlist, hparent⟩ := h.of_detachable hdetach
  have hmem : path ∈ ns.listing dir := by
    rw [hlist]
    exact List.mem_cons_self
  have hdir := ns.entry_of_mem_listing hmem
  obtain ⟨_, _, hdirCell⟩ := h.cell hdir
  have hlinked := List.mem_map_of_mem (f := addr) hmem
  refine ⟨addr path, ?_, hnode, ⟨dir, addr dir, (ns.mem_listing.mp hmem).2.2, ?_, hparent⟩, ?_, ?_⟩
  · rw [h.getValue List.not_mem_nil, hentry, Option.map_some]
  · rw [h.getValue List.not_mem_nil, hdir, Option.map_some]
  · intro prior hprior
    rcases hdirCell.children.next_of_last hlinked hnode hprior with ⟨hnone, -⟩ | hcell
    · exact absurd hnone (by simp)
    · exact hcell
  · intro after hafter
    exact hdirCell.children.last_of_next hlinked hnode hafter

/-- A file that can be detached is cut off. -/
theorem Represents.removeFile_cut (h : Represents tree ns [] addr)
    (hdetach : tree.Detachable path node) {id : BlockID} (hfile : tree.HasFile path id) :
    ∃ tree', tree.removeFile path = .ok (tree', true) ∧ tree.Cut tree' path id := by
  obtain ⟨id', dir, rest, hentry, hnode, hcell, hroot, -⟩ := h.of_detachable hdetach
  obtain ⟨address, node', hvalue, hnode', hkind, hid⟩ := hfile
  have haddress : addr path = address := by
    rw [h.getValue List.not_mem_nil, hentry] at hvalue
    exact Option.some.inj hvalue
  subst haddress
  obtain rfl := Option.some.inj (hnode.symm.trans hnode')
  have hid' : id' = id := hcell.metaID.symm.trans hid
  subst hid'
  have hne : id' ≠ 0 := by simpa [hcell.isFile] using hkind
  obtain ⟨tree', ns', hrun, h', -, hpruned⟩ := removeFile_of_detachable h hdetach hentry hne
  exact ⟨tree', hrun, h.cut h' hpruned hentry hroot⟩

end Represents

end Removal

end FileTree

/-- The call does not remove a directory. -/
def TreeOp.KeepsDirs : TreeOp → Prop
  | removeDir _ => False
  | _ => True

/-- Of calls that do not remove directories, those that come to an end unlink what they
are after. -/
theorem invariant_keepsDirs (keyHash : Bytes → Nat) :
    ((treeSystem keyHash).restrict fun _ op => op.KeepsDirs).Invariant FileTree.Faithful where
  init := (invariant_faithful keyHash).init
  step := by
    rintro tree tree' op ⟨ns, addr, h⟩ ⟨hkeeps, fuel, result, hrun⟩
    have hunlinks : op.Unlinks tree := by
      cases op with
      | addFile path metaID => trivial
      | addDir path => trivial
      | removeFile path => exact FileTree.unlinks_of_removeFile h.wf hrun
      | removeDir path => exact hkeeps.elim
    obtain ⟨ns', addr', h', -⟩ := h.of_run hunlinks hrun
    exact ⟨ns', addr', h'⟩

theorem faithful_of_keepsDirs (keyHash : Bytes → Nat) {ops : List TreeOp} {tree : FileTree}
    (hrun : (treeSystem keyHash).Run ops tree) (hkeeps : ∀ op ∈ ops, op.KeepsDirs) :
    tree.Faithful := by
  obtain ⟨start, hstart, hsteps⟩ := hrun
  exact (invariant_keepsDirs keyHash).run
    ⟨start, hstart, hsteps.restrict fun op hop _ => hkeeps op hop⟩

/-- After any additions and removals of files, a file is removed along links that were
set, and nothing but the file, exactly if its key is near the front of its chain and the
`_parent` of its cell was assigned. -/
theorem removeFile_iff_detachable (keyHash : Bytes → Nat) {ops : List TreeOp} {tree : FileTree}
    (hrun : (treeSystem keyHash).Run ops tree) (hkeeps : ∀ op ∈ ops, op.KeepsDirs) {path : Bytes}
    {id : BlockID} (hfile : tree.HasFile path id) :
    ((∃ tree', tree.removeFile path = .ok (tree', true) ∧ tree.Cut tree' path id) ∧
      ∃ address node, tree.Attached path address node) ↔ ∃ node, tree.Detachable path node := by
  obtain ⟨ns, addr, h⟩ := faithful_of_keepsDirs keyHash hrun hkeeps
  constructor
  · rintro ⟨⟨tree', hremove, -⟩, -⟩
    obtain ⟨address, node, hvalue, hnode, hkind, -⟩ := hfile
    exact ⟨node, FileTree.detachable_of_removeFile h.wf hvalue hnode hkind hremove⟩
  · rintro ⟨node, hdetach⟩
    obtain ⟨address, hattached⟩ := h.attached hdetach
    exact ⟨h.removeFile_cut hdetach hfile, address, node, hattached⟩

/-- The first of two files of the root, after another one was removed. -/
theorem removeFile_iff_detachable_example : ∃ tree tree',
    (treeSystem List.length).Run [.addFile (ascii "/c") 3, .removeFile (ascii "/c"),
      .addFile (ascii "/a") 1, .addFile (ascii "/bb") 2] tree ∧
    tree.removeFile (ascii "/a") = .ok (tree', true) ∧ tree.Cut tree' (ascii "/a") 1 := by
  have hrun : ∃ tree, (treeSystem List.length).Run [.addFile (ascii "/c") 3,
      .removeFile (ascii "/c"), .addFile (ascii "/a") 1, .addFile (ascii "/bb") 2] tree ∧
      tree.HasFile (ascii "/a") 1 ∧ ∃ node, tree.Detachable (ascii "/a") node :=
    ⟨_, ⟨_, rfl, .cons ⟨0, true, rfl⟩ (.cons ⟨0, true, rfl⟩ (.cons ⟨0, true, rfl⟩
      (.cons ⟨0, true, rfl⟩ (.nil _))))⟩, ⟨2, _, rfl, rfl, rfl, rfl⟩,
      _, by decide, ⟨2, rfl, rfl⟩, rfl⟩
  obtain ⟨tree, hrun, hfile, hdetach⟩ := hrun
  obtain ⟨⟨tree', hremove, hcut⟩, -⟩ := (removeFile_iff_detachable _ hrun
    (by simp [TreeOp.KeepsDirs]) hfile).mpr hdetach
  exact ⟨tree, tree', hrun, hremove, hcut⟩

/-- The second of two files of the root. -/
theorem not_forall_removeFile : ¬ ∀ (ops : List TreeOp) (tree : FileTree),
    (treeSystem List.length).Run ops tree → (∀ op ∈ ops, op.KeepsDirs) →
    ∀ (path : Bytes) (id : BlockID), tree.HasFile path id →
      (∃ tree', tree.removeFile path = .ok (tree', true) ∧ tree.Cut tree' path id) ∧
        ∃ address node, tree.Attached path address node := by
  intro hall
  have hrun : ∃ tree, (treeSystem List.length).Run [.addFile (ascii "/a") 1,
      .addFile (ascii "/bb") 2] tree ∧ tree.HasFile (ascii "/bb") 2 ∧ tree.Keyed ∧
      ∃ node, tree.fileMap.getValue (ascii "/bb") = some 2 ∧ tree.heap 2 = some node ∧
        node.isFile = true ∧ node.parent = none := by
    have hrun : (treeSystem List.length).Run [.addFile (ascii "/a") 1, .addFile (ascii "/bb") 2] _ :=
      ⟨_, rfl, .cons ⟨0, true, rfl⟩ (.cons ⟨0, true, rfl⟩ (.nil _))⟩
    exact ⟨_, hrun, ⟨2, _, rfl, rfl, rfl, rfl⟩, (invariant_keyed _).run hrun, _, rfl, rfl, rfl, rfl⟩
  obtain ⟨tree, hrun, hfile, hkeyed, node, hvalue, hnode, hkind, hparent⟩ := hrun
  obtain ⟨⟨tree', hremove, -⟩, -⟩ := hall _ tree hrun (by simp [TreeOp.KeepsDirs]) _ _ hfile
  have hassigned := (FileTree.detachable_of_removeFile hkeyed.1 hvalue hnode hkind hremove).parent
  rw [hparent] at hassigned
  exact absurd hassigned (by simp)

end Doopey
