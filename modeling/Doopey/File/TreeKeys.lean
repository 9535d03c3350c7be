import Doopey.File.TreeRuns

/-!
# Keys are bound to cells

What an addition does to the table and to the heap, and the little that holds of
every tree, whatever its removals have done to it: no key is bound to `NULL`.
-/

namespace Doopey

open Foundation

namespace FileTree

/-- No key is bound to `NULL`. -/
def Bound (tree : FileTree) : Prop := ∀ i, ∀ item ∈ tree.fileMap.list i, item.2 ≠ none

theorem Bound.lookup_eq_none {tree : FileTree} (h : tree.Bound) {path : Bytes}
    (hvalue : tree.fileMap.getValue path = none) : tree.fileMap.lookup path = none := by
  unfold HashList.getValue HashList.lookup at *
  cases hfind : (tree.fileMap.chain path).find? (fun item => item.1 = path) with
  | none => rfl
  | some item =>
      rw [hfind] at hvalue
      exact absurd hvalue (h _ item (List.mem_of_find?_eq_some hfind))

/-- A cell is made to point to a new one, and no field of it but its forward or its downward
link is assigned. Only a new cell without a sibling in front of it has a `_parent`. -/
theorem insertChild_cases {tree tree' : FileTree} {insert : Nat} {name path : Bytes}
    {metaID : BlockID} (hrun : tree.insertChild insert name path metaID = .ok tree') :
    ∃ (filled : TreeNode) (address : Nat) (change : TreeNode → TreeNode),
      tree' = { (tree.alloc filled).assign address change with
        fileMap := tree.fileMap.add path (some tree.brk) } ∧
      filled.isFile = decide (metaID ≠ 0) ∧ filled.metaID = metaID ∧
      (filled.parent.isSome → filled.last = none) ∧
      ∀ node, (change node).isFile = node.isFile ∧ (change node).metaID = node.metaID ∧
        (change node).parent = node.parent ∧ (change node).last = node.last := by
  unfold insertChild at hrun
  obtain ⟨dir, -, hrun⟩ := bind_eq_ok_iff.mp hrun
  split at hrun
  next first _ =>
    obtain ⟨last, -, hrun⟩ := bind_eq_ok_iff.mp hrun
    exact ⟨_, last, _, (Except.ok.inj hrun).symm, rfl, rfl,
      fun hassigned => absurd hassigned (by simp [TreeNode.new]), fun _ => ⟨rfl, rfl, rfl, rfl⟩⟩
  next =>
    exact ⟨_, insert, _, (Except.ok.inj hrun).symm, rfl, rfl, fun _ => rfl,
      fun _ => ⟨rfl, rfl, rfl, rfl⟩⟩

theorem insertChild_spec {tree tree' : FileTree} {insert : Nat} {name path : Bytes}
    {metaID : BlockID} (hrun : tree.insertChild insert name path metaID = .ok tree') :
    tree'.fileMap = tree.fileMap.add path (some tree.brk) ∧
      ∃ node, tree'.heap tree.brk = some node ∧ node.isFile = decide (metaID ≠ 0) ∧
        node.metaID = metaID := by
  obtain ⟨filled, address, change, rfl, hkind, hmeta, -, hchange⟩ := insertChild_cases hrun
  refine ⟨rfl, ?_⟩
  by_cases heq : tree.brk = address
  · subst heq
    refine ⟨change filled, by simp [assign, alloc], ?_, ?_⟩
    · rw [(hchange filled).1, hkind]
    · rw [(hchange filled).2.1, hmeta]
  · exact ⟨filled, by simp [assign, alloc, heq], hkind, hmeta⟩

/-- The checks of `addFile`: the path is free, and what is left of its last name
is a directory. -/
def Admits (tree : FileTree) (path : Bytes) : Prop :=
  tree.fileMap.getValue path = none ∧ ∃ dir insert node, dirOf path = some dir ∧
    tree.searchDir dir = some insert ∧ tree.heap insert = some node ∧ node.isFile = false

/-- An addition that fails its checks changes nothing; one that passes them hangs a new cell
into the directory. -/
theorem addFile_cases {tree tree' : FileTree} {path : Bytes} {metaID : BlockID} {result : Bool}
    (hrun : tree.addFile path metaID = .ok (tree', result)) :
    (¬ tree.Admits path ∧ result = false ∧ tree' = tree) ∨
      (tree.Admits path ∧ result = true ∧ ∃ insert node, tree.heap insert = some node ∧
        tree.insertChild insert (getFileName path) path metaID = .ok tree') := by
  have hrefused (hnot : ¬ tree.Admits path)
      (hreturn : Except.ok (ε := Fault) (tree, false) = .ok (tree', result)) :
      ¬ tree.Admits path ∧ result = false ∧ tree' = tree := by
    obtain ⟨rfl, rfl⟩ := Prod.mk.inj (Except.ok.inj hreturn)
    exact ⟨hnot, rfl, rfl⟩
  unfold addFile at hrun
  split at hrun
  next hused => exact Or.inl (hrefused (fun hadmits => hused hadmits.1) hrun)
  next hfree =>
    split at hrun
    next hdir =>
      refine Or.inl (hrefused ?_ hrun)
      rintro ⟨-, dir, insert, node, hsome, -⟩
      simp [hdir] at hsome
    next dir hdir =>
      split at hrun
      next hsearch =>
        refine Or.inl (hrefused ?_ hrun)
        rintro ⟨-, dir', insert, node, hsome, hsearch', -⟩
        obtain rfl := Option.some.inj (hdir.symm.trans hsome)
        simp [hsearch] at hsearch'
      next insert hsearch =>
        obtain ⟨node, hnode, hrun⟩ := bind_eq_ok_iff.mp hrun
        rw [deref_eq_ok_iff] at hnode
        split at hrun
        next hfile =>
          refine Or.inl (hrefused ?_ hrun)
          rintro ⟨-, dir', insert', node', hsome, hsearch', hnode', hfile'⟩
          obtain rfl := Option.some.inj (hdir.symm.trans hsome)
          obtain rfl := Option.some.inj (hsearch.symm.trans hsearch')
          obtain rfl := Option.some.inj (hnode.symm.trans hnode')
          simp [hfile] at hfile'
        next hfile =>
          obtain ⟨inserted, hinsert, hrun⟩ := bind_eq_ok_iff.mp hrun
          obtain ⟨rfl, rfl⟩ := Prod.mk.inj (Except.ok.inj hrun)
          refine Or.inr ⟨⟨?_, dir, insert, node, hdir, hsearch, hnode, ?_⟩, rfl, insert, node,
            hnode, hinsert⟩
          · simpa using hfree
          · simpa using hfile

/-- An addition succeeds if it passes the checks, and then the path is bound to
the cell of a new entry. -/
theorem addFile_spec {tree tree' : FileTree} {path : Bytes} {metaID : BlockID} {result : Bool}
    (hrun : tree.addFile path metaID = .ok (tree', result)) :
    (¬ tree.Admits path ∧ result = false ∧ tree' = tree) ∨
      (tree.Admits path ∧ result = true ∧
        tree'.fileMap = tree.fileMap.add path (some tree.brk) ∧
          ∃ node, tree'.heap tree.brk = some node ∧ node.isFile = decide (metaID ≠ 0) ∧
            node.metaID = metaID) := by
  rcases addFile_cases hrun with hrefused | ⟨hadmits, hresult, insert, node, -, hinsert⟩
  · exact Or.inl hrefused
  · exact Or.inr ⟨hadmits, hresult, insertChild_spec hinsert⟩

theorem Bound.addFile {tree tree' : FileTree} (h : tree.Bound) {path : Bytes} {metaID : BlockID}
    {result : Bool} (hrun : tree.addFile path metaID = .ok (tree', result)) : tree'.Bound := by
  rcases addFile_spec hrun with ⟨-, -, rfl⟩ | ⟨-, -, htable, -⟩
  · exact h
  · unfold Bound
    rw [htable]
    exact HashList.forall_add h (by simp)

/-- The path is that of a file with this ID. -/
def HasFile (tree : FileTree) (path : Bytes) (id : BlockID) : Prop :=
  ∃ address node, tree.fileMap.getValue path = some address ∧ tree.heap address = some node ∧
    node.isFile = true ∧ node.metaID = id

/-- A path that is entered with an ID other than `0` is that of a file. -/
theorem Bound.hasFile_of_addFile {tree tree' : FileTree} (h : tree.Bound) {path : Bytes}
    {id : BlockID} (hid : id ≠ 0) (hrun : tree.addFile path id = .ok (tree', true)) :
    tree'.HasFile path id := by
  rcases addFile_spec hrun with ⟨-, hfalse, -⟩ | ⟨hadmits, -, htable, node, hnode, hkind, hmeta⟩
  · exact absurd hfalse (by simp)
  · refine ⟨tree.brk, node, ?_, hnode, by simp [hkind, hid], hmeta⟩
    rw [htable, HashList.getValue, HashList.lookup_add _ _ _ _ (h.lookup_eq_none hadmits.1),
      if_pos rfl]
    rfl

theorem HasFile.getMetaID_eq {tree : FileTree} {path : Bytes} {id : BlockID}
    (h : tree.HasFile path id) : tree.getMetaID path = .ok id := by
  obtain ⟨address, node, hvalue, hnode, -, hid⟩ := h
  rw [getMetaID, hvalue]
  dsimp only
  rw [deref_eq_ok_iff.mpr hnode, ok_bind, TreeNode.getID, hid]

/-- A property of trees that outlives the removal of a key and of a cell. -/
structure Kept (P : FileTree → Prop) : Prop where
  remove {tree : FileTree} {fileMap : HashList Bytes (Option Nat)} {path : Bytes} {result : Bool} :
    P tree → tree.fileMap.remove path = .ok (fileMap, result) → P { tree with fileMap := fileMap }
  removeNode {tree tree' : FileTree} {tn : Nat} : P tree → tree.removeNode tn = .ok tree' → P tree'

/-- A property of trees that outlives the removal of some of the keys, and of cells. -/
structure KeptUnder (allowed : Bytes → Prop) (P : FileTree → Prop) : Prop where
  remove {tree : FileTree} {fileMap : HashList Bytes (Option Nat)} {path : Bytes} {result : Bool} :
    P tree → allowed path → tree.fileMap.remove path = .ok (fileMap, result) →
      P { tree with fileMap := fileMap }
  removeNode {tree tree' : FileTree} {tn : Nat} : P tree → tree.removeNode tn = .ok tree' → P tree'

theorem Kept.under {P : FileTree → Prop} (hkept : Kept P) : KeptUnder (fun _ => True) P where
  remove h _ hremove := hkept.remove h hremove
  removeNode h hunlink := hkept.removeNode h hunlink

theorem KeptUnder.removeFile {allowed : Bytes → Prop} {P : FileTree → Prop}
    (hkept : KeptUnder allowed P) {tree tree' : FileTree} (h : P tree) {path : Bytes}
    (hpath : allowed path) {result : Bool}
    (hrun : tree.removeFile path = .ok (tree', result)) : P tree' := by
  unfold FileTree.removeFile at hrun
  split at hrun
  next =>
    obtain ⟨rfl, -⟩ := Prod.mk.inj (Except.ok.inj hrun)
    exact h
  next =>
    obtain ⟨node, -, hrun⟩ := bind_eq_ok_iff.mp hrun
    split at hrun
    next =>
      obtain ⟨rfl, -⟩ := Prod.mk.inj (Except.ok.inj hrun)
      exact h
    next =>
      obtain ⟨⟨fileMap, removed⟩, hremove, hrun⟩ := bind_eq_ok_iff.mp hrun
      have hdropped := hkept.remove h hpath hremove
      dsimp only at hrun
      split at hrun
      next =>
        obtain ⟨rfl, -⟩ := Prod.mk.inj (Except.ok.inj hrun)
        exact hdropped
      next =>
        obtain ⟨unlinked, hunlink, hrun⟩ := bind_eq_ok_iff.mp hrun
        obtain ⟨rfl, -⟩ := Prod.mk.inj (Except.ok.inj hrun)
        exact hkept.removeNode hdropped hunlink

theorem KeptUnder.removeDir {allowed : Bytes → Prop} {P : FileTree → Prop}
    (hkept : KeptUnder allowed P)
    (hentry : ∀ path name, allowed path → allowed (path ++ slash :: name)) (fuel : Nat) :
    (∀ {tree : FileTree} {path : Bytes} {tree' : FileTree} {result : Bool}, P tree →
      allowed path → FileTree.removeDir fuel tree path = .ok (tree', result) → P tree') ∧
    (∀ {tree : FileTree} {path : Bytes} {remove : Nat} {next : Option Nat} {tree' : FileTree},
      P tree → allowed path → removeChildren fuel tree path remove next = .ok tree' → P tree') := by
  induction fuel with
  | zero => exact ⟨fun _ _ hrun => absurd hrun (by simp [FileTree.removeDir]),
      fun _ _ hrun => absurd hrun (by simp [removeChildren])⟩
  | succ fuel ih =>
      obtain ⟨ihDir, ihChildren⟩ := ih
      refine ⟨?_, ?_⟩
      · intro tree path tree' result h hpath hrun
        rw [FileTree.removeDir] at hrun
        split at hrun
        next =>
          obtain ⟨rfl, -⟩ := Prod.mk.inj (Except.ok.inj hrun)
          exact h
        next =>
          obtain ⟨node, -, hrun⟩ := bind_eq_ok_iff.mp hrun
          split at hrun
          next =>
            obtain ⟨rfl, -⟩ := Prod.mk.inj (Except.ok.inj hrun)
            exact h
          next =>
            obtain ⟨⟨fileMap, removed⟩, hremove, hrun⟩ := bind_eq_ok_iff.mp hrun
            have hdropped := hkept.remove h hpath hremove
            dsimp only at hrun
            split at hrun
            next =>
              obtain ⟨rfl, -⟩ := Prod.mk.inj (Except.ok.inj hrun)
              exact hdropped
            next =>
              obtain ⟨emptied, hchildren, hrun⟩ := bind_eq_ok_iff.mp hrun
              obtain ⟨unlinked, hunlink, hrun⟩ := bind_eq_ok_iff.mp hrun
              obtain ⟨rfl, -⟩ := Prod.mk.inj (Except.ok.inj hrun)
              exact hkept.removeNode (ihChildren hdropped hpath hchildren) hunlink
      · intro tree path remove next tree' h hpath hrun
        cases next with
        | none =>
            obtain rfl := Except.ok.inj hrun
            exact h
        | some next =>
            rw [removeChildren] at hrun
            obtain ⟨child, -, hrun⟩ := bind_eq_ok_iff.mp hrun
            dsimp only at hrun
            split at hrun
            next =>
              obtain ⟨⟨tree₁, removed⟩, hchild, hrun⟩ := bind_eq_ok_iff.mp hrun
              obtain ⟨node, -, hrun⟩ := bind_eq_ok_iff.mp hrun
              exact ihChildren (hkept.removeFile h (hentry path _ hpath) hchild) hpath hrun
            next =>
              obtain ⟨⟨tree₁, removed⟩, hchild, hrun⟩ := bind_eq_ok_iff.mp hrun
              obtain ⟨node, -, hrun⟩ := bind_eq_ok_iff.mp hrun
              exact ihChildren (ihDir h (hentry path _ hpath) hchild) hpath hrun

theorem Kept.removeFile {P : FileTree → Prop} (hkept : Kept P) {tree tree' : FileTree}
    (h : P tree) {path : Bytes} {result : Bool}
    (hrun : tree.removeFile path = .ok (tree', result)) : P tree' :=
  hkept.under.removeFile h trivial hrun

theorem Kept.removeDir {P : FileTree → Prop} (hkept : Kept P) (fuel : Nat) :
    (∀ {tree : FileTree} {path : Bytes} {tree' : FileTree} {result : Bool}, P tree →
      FileTree.removeDir fuel tree path = .ok (tree', result) → P tree') ∧
    (∀ {tree : FileTree} {path : Bytes} {remove : Nat} {next : Option Nat} {tree' : FileTree},
      P tree → removeChildren fuel tree path remove next = .ok tree' → P tree') := by
  obtain ⟨hdir, hchildren⟩ := hkept.under.removeDir (fun _ _ _ => trivial) fuel
  exact ⟨fun h hrun => hdir h trivial hrun, fun h hrun => hchildren h trivial hrun⟩

/-- With additions keeping it up as well, such a property holds after any calls. -/
theorem Kept.invariant {P : FileTree → Prop} (hkept : Kept P) {keyHash : Bytes → Nat}
    (hnew : P (new keyHash)) (hadd : ∀ {tree : FileTree} {path : Bytes} {metaID : BlockID}
      {tree' : FileTree} {result : Bool}, P tree →
        tree.addFile path metaID = .ok (tree', result) → P tree') :
    (treeSystem keyHash).Invariant P where
  init := by
    rintro tree rfl
    exact hnew
  step := by
    rintro tree tree' op h ⟨fuel, result, hrun⟩
    cases op with
    | addFile path metaID => exact hadd h hrun
    | addDir path => exact hadd h hrun
    | removeFile path => exact hkept.removeFile h hrun
    | removeDir path => exact (hkept.removeDir fuel).1 h hrun

theorem kept_bound : Kept Bound where
  remove h hremove := HashList.forall_remove h hremove
  removeNode h hunlink := by
    unfold Bound
    rw [fileMap_removeNode hunlink]
    exact h

/-- No key occurs twice, and none is bound to `NULL`. -/
def Keyed (tree : FileTree) : Prop := tree.fileMap.WF ∧ tree.Bound

theorem Keyed.addFile {tree tree' : FileTree} (h : tree.Keyed) {path : Bytes} {metaID : BlockID}
    {result : Bool} (hrun : tree.addFile path metaID = .ok (tree', result)) : tree'.Keyed := by
  refine ⟨?_, h.2.addFile hrun⟩
  rcases addFile_spec hrun with ⟨-, -, rfl⟩ | ⟨hadmits, -, htable, -⟩
  · exact h.1
  · rw [htable]
    exact HashList.wf_add h.1 _ _ (h.2.lookup_eq_none hadmits.1)

theorem kept_keyed : Kept Keyed where
  remove h hremove := ⟨HashList.wf_remove h.1 hremove, HashList.forall_remove h.2 hremove⟩
  removeNode h hunlink := ⟨by rw [fileMap_removeNode hunlink]; exact h.1,
    kept_bound.removeNode h.2 hunlink⟩

/-- The path is absent. -/
def Lacks (path : Bytes) (tree : FileTree) : Prop :=
  tree.fileMap.WF ∧ tree.fileMap.lookup path = none

/-- A path that is absent stays so in removals. -/
theorem kept_lacks (path : Bytes) : Kept (Lacks path) where
  remove := by
    rintro tree fileMap path' result ⟨hwf, habsent⟩ hremove
    refine ⟨HashList.wf_remove hwf hremove, ?_⟩
    dsimp only
    rw [HashList.remove_spec hwf hremove]
    split
    next => rw [HashList.lookup_erase, habsent, ite_self]
    next => exact habsent
  removeNode h hunlink := by
    unfold Lacks
    rw [fileMap_removeNode hunlink]
    exact h

/-- The path of a directory that was removed was there before and is not there
afterwards. -/
theorem absent_of_removeDir {tree tree' : FileTree} (hwf : tree.fileMap.WF) {fuel : Nat}
    {path : Bytes} (hrun : removeDir fuel tree path = .ok (tree', true)) :
    tree.fileMap.getValue path ≠ none ∧ tree'.fileMap.getValue path = none := by
  cases fuel with
  | zero => exact absurd hrun (by simp [removeDir])
  | succ fuel =>
      rw [removeDir] at hrun
      split at hrun
      next => exact absurd (Prod.mk.inj (Except.ok.inj hrun)).2 (by simp)
      next address hvalue =>
        obtain ⟨node, -, hrun⟩ := bind_eq_ok_iff.mp hrun
        split at hrun
        next => exact absurd (Prod.mk.inj (Except.ok.inj hrun)).2 (by simp)
        next =>
          obtain ⟨⟨fileMap, removed⟩, hremove, hrun⟩ := bind_eq_ok_iff.mp hrun
          dsimp only at hrun
          split at hrun
          next => exact absurd (Prod.mk.inj (Except.ok.inj hrun)).2 (by simp)
          next hremoved =>
            obtain ⟨emptied, hchildren, hrun⟩ := bind_eq_ok_iff.mp hrun
            obtain ⟨unlinked, hunlink, hrun⟩ := bind_eq_ok_iff.mp hrun
            obtain ⟨rfl, -⟩ := Prod.mk.inj (Except.ok.inj hrun)
            have hgone : Lacks path { tree with fileMap := fileMap } := by
              refine ⟨HashList.wf_remove hwf hremove, ?_⟩
              dsimp only
              rw [HashList.remove_spec hwf hremove, if_pos (by simpa using hremoved),
                HashList.lookup_erase, if_pos rfl]
            have hempty := ((kept_lacks path).removeDir fuel).2 hgone hchildren
            refine ⟨by simp [hvalue], ?_⟩
            rw [HashList.getValue, ((kept_lacks path).removeNode hempty hunlink).2]
            rfl

end FileTree

/-- No key occurs twice after any calls. -/
theorem invariant_keyed (keyHash : Bytes → Nat) :
    (treeSystem keyHash).Invariant FileTree.Keyed :=
  FileTree.kept_keyed.invariant
    ⟨HashList.wf_add (HashList.wf_new _ _) _ _ (HashList.lookup_new _ _ _),
      HashList.forall_add (fun _ _ hmem => absurd hmem List.not_mem_nil) (by simp)⟩
    fun h hrun => h.addFile hrun

/-- No key is bound to `NULL` after any calls. -/
theorem invariant_bound (keyHash : Bytes → Nat) :
    (treeSystem keyHash).Invariant FileTree.Bound :=
  FileTree.kept_bound.invariant
    (HashList.forall_add (fun _ _ hmem => absurd hmem List.not_mem_nil) (by simp))
    fun h hrun => h.addFile hrun

end Doopey
