import Doopey.File.FileRemoval
import Doopey.File.TreeAdditions

/-!
# Removing a directory

`removeDir` removes the children of a directory before its cell. After each child it
goes on with the sibling of the directory itself, so that it comes to an end only if
there is no child or no sibling, and leaves nothing behind only if there is at most one
child. The results below make this precise: a directory is cut off exactly if it is
`Removable`.
-/

namespace Doopey

open Foundation Foundation.DoublyLinked

namespace FileTree

/-! ## What no removal changes -/

/-- A cell whose `_parent` was assigned has no sibling in front of it. -/
def Headed (tree : FileTree) : Prop :=
  ∀ address node, tree.heap address = some node → node.parent.isSome → node.last = none

section Headed

variable {tree tree' : FileTree}

theorem Headed.removeNode (h : tree.Headed) (hlinked : tree.Linked) {tn : Nat}
    (hrun : tree.removeNode tn = .ok tree') : tree'.Headed := by
  obtain ⟨-, node, parent, hnode, -, hheap⟩ := removeNode_spec hrun
  intro address cell hcell hassigned
  rw [hheap] at hcell
  split at hcell
  next => exact absurd hcell (by simp)
  next =>
    obtain ⟨old, hold, rfl⟩ := Option.map_eq_some_iff.mp hcell
    -- only the next sibling gets another `_last`, and its `_parent` is not assigned
    have hnot : node.next ≠ some address := by
      intro hnext
      obtain ⟨-, found, hfound, hnone⟩ := hlinked.next hnode hnext
      obtain rfl := Option.some.inj (hold.symm.trans hfound)
      have hparent : old.parent.isSome := hassigned
      rw [hnone] at hparent
      exact absurd hparent (by simp)
    rw [relink, if_neg hnot]
    exact h address old hold hassigned

/-- A new cell without a parent or without a sibling in front of it. -/
theorem Headed.alloc_assign (h : tree.Headed) {filled : TreeNode} {address : Nat}
    {change : TreeNode → TreeNode} (hfilled : filled.parent.isSome → filled.last = none)
    (hkeep : ∀ node, (change node).parent = node.parent ∧ (change node).last = node.last) :
    ((tree.alloc filled).assign address change).Headed := by
  have halloc : (tree.alloc filled).Headed := by
    intro other cell hcell hassigned
    by_cases heq : other = tree.brk
    · subst heq
      obtain rfl : filled = cell := by simpa [alloc] using hcell
      exact hfilled hassigned
    · have hold : tree.heap other = some cell := by simpa [alloc, heq] using hcell
      exact h other cell hold hassigned
  intro other cell hcell hassigned
  rw [heap_assign] at hcell
  obtain ⟨old, hold, rfl⟩ := Option.map_eq_some_iff.mp hcell
  by_cases heq : other = address
  · rw [if_pos heq] at hassigned ⊢
    rw [(hkeep old).1] at hassigned
    rw [(hkeep old).2]
    exact halloc other old hold hassigned
  · rw [if_neg heq] at hassigned ⊢
    exact halloc other old hold hassigned

theorem Headed.addFile (h : tree.Headed) {path : Bytes} {metaID : BlockID} {result : Bool}
    (hrun : tree.addFile path metaID = .ok (tree', result)) : tree'.Headed := by
  rcases addFile_cases hrun with ⟨-, -, rfl⟩ | ⟨-, -, insert, node, -, hinsert⟩
  · exact h
  · obtain ⟨filled, address, change, rfl, -, -, hfilled, hchange⟩ := insertChild_cases hinsert
    exact h.alloc_assign hfilled fun node => (hchange node).2.2

theorem kept_headed : Kept fun tree => tree.Linked ∧ tree.Headed where
  remove h _ := ⟨h.1.of_eq rfl rfl, h.2⟩
  removeNode h hunlink := ⟨h.1.removeNode hunlink, h.2.removeNode h.1 hunlink⟩

/-- The forward and parent links of the cells that a removal leaves are those they had. -/
theorem kept_linksKept (start : FileTree) :
    Kept fun tree => (tree.Linked ∧ tree.Headed) ∧ LinksKept start tree where
  remove h hremove := ⟨kept_headed.remove h.1 hremove, h.2⟩
  removeNode {tree tree' tn} h hunlink := by
    refine ⟨kept_headed.removeNode h.1 hunlink, h.2.trans ?_⟩
    obtain ⟨-, node, parent, hnode, hparent, -⟩ := removeNode_spec hunlink
    have hlast : node.last = none := h.1.2 tn node hnode (by rw [hparent]; rfl)
    exact linksKept_removeNode hnode hlast hunlink

theorem LinksKept.refl (tree : FileTree) : LinksKept tree tree :=
  fun _ node' hnode' => ⟨node', hnode', rfl, rfl⟩

/-- A removal leaves the other keys in the table. -/
theorem keptUnder_lookup {path key : Bytes} (hkey : ¬ (key = path ∨ Below path key))
    (value : Option (Option Nat)) : KeptUnder (fun path' => path' = path ∨ Below path path')
      fun tree => tree.fileMap.WF ∧ tree.fileMap.lookup key = value where
  remove := by
    rintro tree fileMap path' result ⟨hwf, hvalue⟩ hpath hremove
    have hne : key ≠ path' := by
      rintro rfl
      exact hkey hpath
    refine ⟨HashList.wf_remove hwf hremove, ?_⟩
    dsimp only
    rw [HashList.remove_spec hwf hremove]
    split
    next => rw [HashList.lookup_erase, if_neg hne, hvalue]
    next => exact hvalue
  removeNode h hunlink := by
    rw [fileMap_removeNode hunlink]
    exact h

end Headed

/-! ## When a directory is cut off -/

section Necessary

variable {tree tree' : FileTree} {ns : PathTree} {hidden : List Bytes} {addr : Bytes → Nat}
  {path : Bytes}

/-- The removal of one child in the loop of `removeDir`. -/
def removeChild (fuel : Nat) (tree : FileTree) (child : TreeNode) (path : Bytes) :
    Except Fault (FileTree × Bool) :=
  if child.isFile then tree.removeFile path else removeDir fuel tree path

theorem KeptUnder.removeChild {allowed : Bytes → Prop} {P : FileTree → Prop}
    (hkept : KeptUnder allowed P)
    (hentry : ∀ path name, allowed path → allowed (path ++ slash :: name)) {fuel : Nat} (h : P tree)
    {child : TreeNode} (hpath : allowed path) {result : Bool}
    (hrun : removeChild fuel tree child path = .ok (tree', result)) : P tree' := by
  unfold FileTree.removeChild at hrun
  split at hrun
  next => exact hkept.removeFile h hpath hrun
  next => exact (hkept.removeDir hentry fuel).1 h hpath hrun

theorem removeChildren_succ {fuel remove first : Nat}
    (hrun : removeChildren (fuel + 1) tree path remove (some first) = .ok tree') :
    ∃ child tree₁ result node, tree.heap first = some child ∧
      removeChild fuel tree child (path ++ slash :: child.name) = .ok (tree₁, result) ∧
      tree₁.heap remove = some node ∧
      removeChildren fuel tree₁ path remove node.next = .ok tree' := by
  rw [removeChildren] at hrun
  obtain ⟨child, hchild, hrun⟩ := bind_eq_ok_iff.mp hrun
  rw [deref_eq_ok_iff] at hchild
  dsimp only at hrun
  split at hrun
  next hfile =>
    obtain ⟨⟨tree₁, result⟩, hremove, hrun⟩ := bind_eq_ok_iff.mp hrun
    obtain ⟨node, hnode, hrun⟩ := bind_eq_ok_iff.mp hrun
    exact ⟨child, tree₁, result, node, hchild, (if_pos hfile).trans hremove,
      deref_eq_ok_iff.mp hnode, hrun⟩
  next hdir =>
    obtain ⟨⟨tree₁, result⟩, hremove, hrun⟩ := bind_eq_ok_iff.mp hrun
    obtain ⟨node, hnode, hrun⟩ := bind_eq_ok_iff.mp hrun
    exact ⟨child, tree₁, result, node, hchild, (if_neg hdir).trans hremove,
      deref_eq_ok_iff.mp hnode, hrun⟩

/-- The loop over a directory with a sibling behind it never ends. -/
theorem next_eq_none_of_removeChildren (hlinked : tree.Linked) (hheaded : tree.Headed)
    {fuel remove first : Nat} {node : TreeNode} (hnode : tree.heap remove = some node)
    (hrun : removeChildren fuel tree path remove (some first) = .ok tree') : node.next = none := by
  induction fuel generalizing tree first node with
  | zero => exact absurd hrun (by simp [removeChildren])
  | succ fuel ih =>
      obtain ⟨child, tree₁, result, node₁, -, hremove, hnode₁, hrest⟩ := removeChildren_succ hrun
      obtain ⟨⟨hlinked₁, hheaded₁⟩, hkept⟩ := (kept_linksKept tree).under.removeChild
        (fun _ _ _ => trivial) ⟨⟨hlinked, hheaded⟩, .refl tree⟩ trivial hremove
      obtain ⟨old, hold, hnext, -⟩ := hkept _ _ hnode₁
      obtain rfl := Option.some.inj (hnode.symm.trans hold)
      -- the loop goes on with the sibling of the directory, the same in every round
      cases hcase : node₁.next with
      | none => rw [← hnext, hcase]
      | some next =>
          rw [hcase] at hrest
          have hnone := ih hlinked₁ hheaded₁ hnode₁ hrest
          rw [hcase] at hnone
          exact absurd hnone (by simp)

/-- The loop goes around once. -/
theorem removeChildren_once (hlinked : tree.Linked) (hheaded : tree.Headed)
    {fuel remove first : Nat} {node : TreeNode} (hnode : tree.heap remove = some node)
    (hrun : removeChildren fuel tree path remove (some first) = .ok tree') :
    node.next = none ∧ ∃ fuel' child result, fuel' < fuel ∧ tree.heap first = some child ∧
      removeChild fuel' tree child (path ++ slash :: child.name) = .ok (tree', result) := by
  have hnext := next_eq_none_of_removeChildren hlinked hheaded hnode hrun
  refine ⟨hnext, ?_⟩
  cases fuel with
  | zero => exact absurd hrun (by simp [removeChildren])
  | succ fuel =>
      obtain ⟨child, tree₁, result, node₁, hchild, hremove, hnode₁, hrest⟩ := removeChildren_succ hrun
      obtain ⟨-, hkept⟩ := (kept_linksKept tree).under.removeChild (fun _ _ _ => trivial)
        ⟨⟨hlinked, hheaded⟩, .refl tree⟩ trivial hremove
      obtain ⟨old, hold, hsame, -⟩ := hkept _ _ hnode₁
      obtain rfl := Option.some.inj (hnode.symm.trans hold)
      rw [hsame, hnext] at hrest
      cases fuel with
      | zero => exact absurd hrest (by simp [removeChildren])
      | succ fuel =>
          obtain rfl := Except.ok.inj hrest
          exact ⟨fuel + 1, child, result, Nat.lt_succ_self _, hchild, hremove⟩

/-- A call of `removeDir` for a directory that came to its end. -/
theorem removeDir_ok (h : Represents tree ns hidden addr) (hvisible : path ∉ hidden)
    (hentry : ns.entry path = some 0) {node : TreeNode} (hnode : tree.heap (addr path) = some node)
    {fuel : Nat} {result : Bool} (hrun : removeDir (fuel + 1) tree path = .ok (tree', result)) :
    tree.fileMap.Near path ∧ ∃ emptied,
      removeChildren fuel (tree.dropKey path) path (addr path) node.children = .ok emptied ∧
        emptied.removeNode (addr path) = .ok tree' := by
  have hlookup : tree.fileMap.lookup path = some (some (addr path)) := by
    rw [h.lookup, if_neg hvisible, hentry, Option.map_some]
  obtain ⟨node', hderef, hnode', hcell⟩ := h.deref hentry
  obtain rfl := Option.some.inj (hnode.symm.trans hnode')
  have hfile : ¬ node.isFile = true := by simp [hcell.isFile]
  rw [removeDir, h.getValue hvisible, hentry, Option.map_some] at hrun
  dsimp only at hrun
  rw [hderef, ok_bind, if_neg hfile] at hrun
  by_cases hnear : tree.fileMap.Near path
  · rw [HashList.remove_of_near h.wf hnear, ok_bind] at hrun
    dsimp only at hrun
    rw [if_neg (by simp)] at hrun
    obtain ⟨emptied, hchildren, hrun⟩ := bind_eq_ok_iff.mp hrun
    obtain ⟨unlinked, hunlink, hrun⟩ := bind_eq_ok_iff.mp hrun
    obtain ⟨rfl, -⟩ := Prod.mk.inj (Except.ok.inj hrun)
    exact ⟨hnear, emptied, hchildren, hunlink⟩
  · rw [HashList.remove_of_not_near hlookup hnear] at hrun
    exact absurd hrun (by simp)

/-- The `_parent` of the directory is read in the end, and no removal assigns it. -/
theorem parent_isSome_of_removeNode (hlinked : tree.Linked) (hheaded : tree.Headed)
    {fuel remove : Nat} {next : Option Nat} {node : TreeNode} {emptied : FileTree}
    (hnode : tree.heap remove = some node)
    (hchildren : removeChildren fuel tree path remove next = .ok emptied)
    (hunlink : emptied.removeNode remove = .ok tree') : node.parent.isSome := by
  obtain ⟨-, last, parent, hlast, hparent, -⟩ := removeNode_spec hunlink
  obtain ⟨-, hkept⟩ := ((kept_linksKept tree).removeDir fuel).2
    ⟨⟨hlinked, hheaded⟩, .refl tree⟩ hchildren
  obtain ⟨old, hold, -, hsame⟩ := hkept _ _ hlast
  obtain rfl := Option.some.inj (hnode.symm.trans hold)
  rw [← hsame, hparent]
  rfl

/-- What is not at or below the child that was removed is still in the table: the other
entries of the directory. -/
theorem eq_nil_of_gone (h : Represents tree ns (path :: hidden) addr) (hroot : path ≠ rootPath)
    (hhidden : ∀ other ∈ hidden, ¬ (other = path ∨ Below path other)) {key : Bytes}
    {rest : List Bytes} (hlist : ns.listing path = key :: rest) {fuel : Nat} {child : TreeNode}
    {result : Bool} (hremove : removeChild fuel tree child key = .ok (tree', result))
    (hgone : ∀ key, Below path key → tree'.fileMap.lookup key = none) : rest = [] := by
  cases rest with
  | nil => rfl
  | cons second rest =>
      have hmem : second ∈ ns.listing path := by simp [hlist]
      have hkeyMem : key ∈ ns.listing path := by simp [hlist]
      have hnodup := ns.listing_nodup path
      rw [hlist] at hnodup
      obtain ⟨-, hbound, hdir⟩ := ns.mem_listing.mp hmem
      have hbelow : Below path second := below_of_dirOf hdir hroot
      -- a sibling is neither the child nor below it
      have hother : ¬ (second = key ∨ Below key second) := by
        obtain ⟨hkeyRoot, hkeyBound, hkeyDir⟩ := ns.mem_listing.mp hkeyMem
        apply not_below_of_mem_listing (ne_nil_of_entry ns hkeyBound)
          (not_below_of_dirOf hkeyDir hkeyRoot) hmem
        rintro rfl
        exact (List.nodup_cons.mp hnodup).1 List.mem_cons_self
      have hvisible : second ∉ path :: hidden := by
        intro hmem'
        rcases List.mem_cons.mp hmem' with rfl | hmem'
        · exact dirOf_ne_self hdir (ns.mem_listing.mp hmem).1 rfl
        · exact hhidden second hmem' (Or.inr hbelow)
      have hchild : ∀ path name, path = key ∨ Below key path →
          path ++ slash :: name = key ∨ Below key (path ++ slash :: name) := by
        rintro path name (rfl | hunder)
        · exact Or.inr (below_append _ name)
        · exact Or.inr (hunder.trans (below_append path name))
      have hkept := (keptUnder_lookup hother (tree.fileMap.lookup second)).removeChild hchild
        ⟨h.wf, rfl⟩ (Or.inl rfl) hremove
      have hnone := hgone second hbelow
      rw [hkept.2, h.lookup, if_neg hvisible] at hnone
      cases hentry : ns.entry second with
      | none => exact absurd hentry hbound
      | some id =>
          rw [hentry] at hnone
          exact absurd hnone (by simp)

/-- The keys that are gone above a child, with that of its directory. -/
theorem not_mem_below {key : Bytes} (hbelow : Below path key)
    (hhidden : ∀ other ∈ hidden, ¬ (other = path ∨ Below path other)) :
    ∀ other ∈ path :: hidden, ¬ (other = key ∨ Below key other) := by
  intro other hmem hcase
  have hunder : Below path other := by
    rcases hcase with rfl | hunder
    · exact hbelow
    · exact hbelow.trans hunder
  rcases List.mem_cons.mp hmem with rfl | hmem
  · exact Nat.lt_irrefl _ hunder.length_lt
  · exact hhidden other hmem (Or.inr hunder)

/-- A file that was removed has no children. -/
theorem removable_of_removeFile (h : Represents tree ns hidden addr) (hvisible : path ∉ hidden)
    {id : BlockID} (hentry : ns.entry path = some id) {node : TreeNode}
    (hnode : tree.heap (addr path) = some node) (hfile : node.isFile = true) {result : Bool}
    (hremove : tree.removeFile path = .ok (tree', result)) : Removable tree path := by
  obtain ⟨node', hnode', hcell⟩ := h.cell hentry
  obtain rfl := Option.some.inj (hnode.symm.trans hnode')
  have hvalue : tree.fileMap.getValue path = some (addr path) := by
    rw [h.getValue hvisible, hentry, Option.map_some]
  have hleaf : ns.listing path = [] := by
    apply ns.listing_eq_nil
    rw [hentry]
    simpa [hcell.isFile] using hfile
  have hchain := hcell.children
  rw [hleaf, List.map_nil, chain_nil] at hchain
  exact .leaf (detachable_of_removeFile h.wf hvalue hnode hfile hremove) hchain

/-- If nothing is left of a directory that was removed, it was removable. -/
theorem removable_of_removeDir (fuel : Nat) :
    ∀ {tree tree' : FileTree} {ns : PathTree} {hidden : List Bytes} {addr : Bytes → Nat}
      {path : Bytes} {result : Bool}, Represents tree ns hidden addr → tree.Linked → tree.Headed →
      (∀ other ∈ hidden, ¬ (other = path ∨ Below path other)) → path ≠ rootPath →
      ns.entry path = some 0 → removeDir fuel tree path = .ok (tree', result) →
      (∀ key, Below path key → tree'.fileMap.lookup key = none) → Removable tree path := by
  induction fuel using Nat.strong_induction_on with
  | h fuel ih =>
      intro tree tree' ns hidden addr path result h hlinked hheaded hhidden hroot hentry hrun hgone
      cases fuel with
      | zero => exact absurd hrun (by simp [removeDir])
      | succ fuel =>
          -- the loop runs in the tree without the key of the directory
          have hvisible : path ∉ hidden := fun hmem => hhidden path hmem (Or.inl rfl)
          obtain ⟨node, hnode, hcell⟩ := h.cell hentry
          obtain ⟨hnear, emptied, hchildren, hunlink⟩ := removeDir_ok h hvisible hentry hnode hrun
          rw [fileMap_removeNode hunlink] at hgone
          have h₁ := h.dropKey path
          have hlinked₁ : (tree.dropKey path).Linked := hlinked.of_eq rfl rfl
          have hheaded₁ : (tree.dropKey path).Headed := hheaded
          have hnode₁ : (tree.dropKey path).heap (addr path) = some node := hnode
          have hdetach : tree.Detachable path node :=
            ⟨hnear, ⟨addr path, by rw [h.getValue hvisible, hentry, Option.map_some], hnode⟩,
              parent_isSome_of_removeNode hlinked₁ hheaded₁ hnode₁ hchildren hunlink⟩
          cases hfirst : node.children with
          | none => exact .leaf hdetach hfirst
          | some first =>
              -- it goes around once, with a child that has no sibling
              rw [hfirst] at hchildren
              obtain ⟨hnext, fuel', child, result', hlt, hchild, hremove⟩ :=
                removeChildren_once hlinked₁ hheaded₁ hnode₁ hchildren
              obtain ⟨rest, hlist, hfirstAddr⟩ := h.first_entry hroot hcell hfirst hchild
              obtain rfl := eq_nil_of_gone h₁ hroot hhidden hlist hremove hgone
              have hsingle : child.next = none := by
                rw [(h.head_links hlist (hfirstAddr ▸ hchild)).2]
                rfl
              refine .only hdetach hnext hfirst hchild hsingle ?_
              generalize hkey : path ++ slash :: child.name = key at hlist hremove hfirstAddr ⊢
              have hbelow : Below path key := hkey ▸ below_append path child.name
              have hmem : key ∈ ns.listing path := by
                rw [hlist]
                exact List.mem_singleton_self _
              obtain ⟨hkeyRoot, hbound, -⟩ := ns.mem_listing.mp hmem
              obtain ⟨keyID, hkeyID⟩ := Option.ne_none_iff_exists'.mp hbound
              have hhidden₁ := not_mem_below hbelow hhidden
              rw [← hfirstAddr] at hchild
              unfold removeChild at hremove
              split at hremove
              next hfile =>
                exact removable_of_removeFile h₁ (fun hmem => hhidden₁ key hmem (Or.inl rfl)) hkeyID
                  hchild hfile hremove
              next hdir =>
                obtain ⟨child', hchild', hchildCell⟩ := h.cell hkeyID
                obtain rfl := Option.some.inj (hchild.symm.trans hchild')
                obtain rfl : keyID = 0 := by simpa [hchildCell.isFile] using hdir
                exact ih fuel' (Nat.lt_succ_of_lt hlt) h₁ hlinked₁ hheaded₁ hhidden₁ hkeyRoot hkeyID
                  hremove fun key' hunder => hgone key' (hbelow.trans hunder)

end Necessary

/-- A directory, seen in the namespace. -/
theorem Represents.value_of_dir (h : Represents tree ns [] addr) {path : Bytes} {id : BlockID}
    (hdir : tree.find path = .ok (some (false, id))) :
    id = 0 ∧ ns.entry path = some 0 := by
  have hentry := (h.find_dir_iff path).mp ⟨id, hdir⟩
  rw [h.find_eq, hentry] at hdir
  have hpair := Option.some.inj (Except.ok.inj hdir)
  exact ⟨(congrArg Prod.snd hpair).symm, hentry⟩

end FileTree

/-- A directory that the call removes can be removed. -/
def TreeOp.Clears (tree : FileTree) : TreeOp → Prop
  | removeDir path => (∃ id, tree.find path = .ok (some (false, id))) → tree.Removable path
  | _ => True

/-- Links are kept up by any calls, and a cell with a `_parent` is the first of its
directory. -/
theorem invariant_headed (keyHash : Bytes → Nat) :
    (treeSystem keyHash).Invariant fun tree => tree.Linked ∧ tree.Headed := by
  refine FileTree.kept_headed.invariant ⟨FileTree.linked_new keyHash, ?_⟩
    fun h hrun => ⟨h.1.addFile hrun, h.2.addFile hrun⟩
  intro address node hnode _
  by_cases heq : address = 0
  · subst heq
    obtain rfl := Option.some.inj hnode
    rfl
  · exact absurd hnode (by simp [FileTree.new, heq])

/-- Of calls that remove directories only if they are removable, those that come to an end
unlink what they are after. -/
theorem invariant_clears (keyHash : Bytes → Nat) :
    ((treeSystem keyHash).restrict fun tree op => op.Clears tree).Invariant FileTree.Faithful where
  init := (invariant_faithful keyHash).init
  step := by
    rintro tree tree' op ⟨ns, addr, h⟩ ⟨hclears, fuel, result, hrun⟩
    have hunlinks : op.Unlinks tree := by
      cases op with
      | addFile path metaID => trivial
      | addDir path => trivial
      | removeFile path => exact FileTree.unlinks_of_removeFile h.wf hrun
      | removeDir path =>
          intro address node hvalue hnode hkind
          apply hclears
          refine ⟨node.getID, ?_⟩
          rw [FileTree.find, hvalue]
          dsimp only
          rw [FileTree.deref_eq_ok_iff.mpr hnode, ok_bind]
          simp [hkind]
    obtain ⟨ns', addr', h', -⟩ := h.of_run hunlinks hrun
    exact ⟨ns', addr', h'⟩

/-- After any calls that removed only removable directories, a directory other than the
root is removed with all that is below it, and nothing else, exactly if it is removable. -/
theorem removeDir_iff_removable (keyHash : Bytes → Nat) {ops : List TreeOp} {tree : FileTree}
    (hrun : ((treeSystem keyHash).restrict fun tree op => op.Clears tree).Run ops tree)
    {path : Bytes} {id : BlockID} (hroot : path ≠ rootPath)
    (hdir : tree.find path = .ok (some (false, id))) :
    (∃ fuel tree', FileTree.removeDir fuel tree path = .ok (tree', true) ∧
      tree.Cut tree' path id) ↔ tree.Removable path := by
  obtain ⟨ns, addr, h⟩ := (invariant_clears keyHash).run hrun
  obtain ⟨rfl, hentry⟩ := h.value_of_dir hdir
  constructor
  · rintro ⟨fuel, tree', hremove, hcut⟩
    obtain ⟨hlinked, hheaded⟩ := ((invariant_headed keyHash).restrict _).run hrun
    have hkeyed : tree'.Keyed := (FileTree.kept_keyed.removeDir fuel).1
      (((invariant_keyed keyHash).restrict _).run hrun) hremove
    apply FileTree.removable_of_removeDir fuel h hlinked hheaded (by simp) hroot hentry hremove
    intro key hbelow
    exact hkeyed.2.lookup_eq_none (hcut.gone (Or.inr hbelow)).1
  · intro hremovable
    obtain ⟨fuel, tree', ns', hremove, h', -, hpruned⟩ :=
      FileTree.remove_of_removable hremovable h hentry
    exact ⟨fuel, tree', hremove, h.cut h' hpruned hentry hroot⟩

/-- A directory with one file, the first entry of the root. -/
theorem removeDir_iff_removable_example : ∃ tree fuel tree',
    (treeSystem List.length).Run [.addDir (ascii "/a"), .addFile (ascii "/a/b") 1] tree ∧
    FileTree.removeDir fuel tree (ascii "/a") = .ok (tree', true) ∧
    tree.Cut tree' (ascii "/a") 0 := by
  have hrun : ∃ tree, ((treeSystem List.length).restrict fun tree op => op.Clears tree).Run
      [.addDir (ascii "/a"), .addFile (ascii "/a/b") 1] tree ∧
      tree.find (ascii "/a") = .ok (some (false, 0)) ∧ tree.Removable (ascii "/a") :=
    ⟨_, ⟨_, rfl, .cons ⟨trivial, 0, true, rfl⟩ (.cons ⟨trivial, 0, true, rfl⟩ (.nil _))⟩, rfl,
      .only ⟨by decide, ⟨1, rfl, rfl⟩, rfl⟩ rfl rfl rfl rfl
        (.leaf ⟨by decide, ⟨2, rfl, rfl⟩, rfl⟩ rfl)⟩
  obtain ⟨tree, ⟨start, hstart, hsteps⟩, hdir, hremovable⟩ := hrun
  obtain ⟨fuel, tree', hremove, hcut⟩ :=
    (removeDir_iff_removable _ ⟨start, hstart, hsteps⟩ (by decide) hdir).mpr hremovable
  exact ⟨tree, fuel, tree', ⟨start, hstart, hsteps.of_restrict⟩, hremove, hcut⟩

/-- A directory with two files: the second one is still found. -/
theorem not_forall_removeDir : ¬ ∀ (ops : List TreeOp) (tree : FileTree),
    (treeSystem List.length).Run ops tree → ∀ (path : Bytes) (id : BlockID), path ≠ rootPath →
      tree.find path = .ok (some (false, id)) →
      ∃ fuel tree', FileTree.removeDir fuel tree path = .ok (tree', true) ∧
        tree.Cut tree' path id := by
  intro hall
  have hrun : ∃ tree tree', (treeSystem List.length).Run [.addDir (ascii "/a"),
      .addFile (ascii "/a/b") 1, .addFile (ascii "/a/c") 2] tree ∧
      tree.find (ascii "/a") = .ok (some (false, 0)) ∧
      FileTree.removeDir 3 tree (ascii "/a") = .ok (tree', true) ∧
      tree'.fileMap.getValue (ascii "/a/c") = some 3 :=
    ⟨_, _, ⟨_, rfl, .cons ⟨0, true, rfl⟩ (.cons ⟨0, true, rfl⟩ (.cons ⟨0, true, rfl⟩ (.nil _)))⟩,
      rfl, rfl, rfl⟩
  obtain ⟨tree, tree', hrun, hdir, hremove, hvalue⟩ := hrun
  obtain ⟨fuel, tree'', hremove', hcut⟩ := hall _ tree hrun _ _ (by decide) hdir
  have hsame := Extends.unique_of_succ
    (fun fuel => (FileTree.removeDir_extends fuel).1 tree (ascii "/a")) hremove hremove'
  obtain ⟨rfl, -⟩ := Prod.mk.inj hsame
  have hbelow : FileTree.Below (ascii "/a") (ascii "/a/c") := ⟨ascii "c", rfl⟩
  have hgone := (hcut.gone (Or.inr hbelow)).1
  rw [hvalue] at hgone
  exact absurd hgone (by simp)

end Doopey
