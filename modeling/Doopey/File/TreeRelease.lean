import Doopey.File.TreeDump
import Doopey.File.TreeLinks

/-!
# Deleting a file tree

The destructor of a `TreeNode` deletes its children, one after the other, and reads the link to
the next one before it deletes one. After any calls that unlink what they remove, the destructor
of the tree finds every cell that was ever made and not freed, and frees it once.
-/

namespace Doopey

open Foundation Foundation.DoublyLinked

namespace FileTree

mutual

/-- `delete` of a `TreeNode`, which runs `TreeNode::~TreeNode` first. The cell must not have
been freed meanwhile. -/
def deleteNode : Nat → FileTree → Nat → Except Fault FileTree
  | 0, _, _ => .error .divergence
  | fuel + 1, tree, tn => do
      let node ← tree.deref tn
      let tree ← deleteChildren fuel tree node.children
      let _ ← tree.deref tn
      .ok (tree.free tn)

/-- The loop of `TreeNode::~TreeNode`. -/
def deleteChildren : Nat → FileTree → Option Nat → Except Fault FileTree
  | 0, _, _ => .error .divergence
  | _ + 1, tree, none => .ok tree
  | fuel + 1, tree, some work => do
      let node ← tree.deref work
      let tree ← deleteNode fuel tree work
      deleteChildren fuel tree node.next

end

/-- `FileTree::~FileTree`, as far as the cells are concerned: the items of the hash table are
freed with it. -/
def release (fuel : Nat) (tree : FileTree) : Except Fault FileTree := deleteNode fuel tree tree.root

/-- A larger bound on the number of steps changes nothing. -/
theorem deleteNode_extends (fuel : Nat) :
    (∀ tree tn, Extends (deleteNode fuel tree tn) (deleteNode (fuel + 1) tree tn)) ∧
    (∀ tree next, Extends (deleteChildren fuel tree next) (deleteChildren (fuel + 1) tree next)) := by
  induction fuel with
  | zero => exact ⟨fun _ _ => .of_error _ _, fun _ _ => .of_error _ _⟩
  | succ fuel ih =>
      obtain ⟨ihNode, ihChildren⟩ := ih
      refine ⟨?_, ?_⟩
      · intro tree tn
        rw [deleteNode, deleteNode]
        exact .bind (.refl _) fun node => .bind (ihChildren _ _) fun _ => .refl _
      · intro tree next
        cases next with
        | none => exact .refl _
        | some work =>
            rw [deleteChildren, deleteChildren]
            exact .bind (.refl _) fun _ => .bind (ihNode _ _) fun _ => ihChildren _ _

/-! ## Every cell is freed -/

/-- The cells at some addresses are freed. -/
def freeAll (tree : FileTree) (addresses : List Nat) : FileTree :=
  { tree with heap := fun address => if address ∈ addresses then none else tree.heap address }

section FreeAll

variable (tree : FileTree)

@[simp] theorem freeAll_nil : tree.freeAll [] = tree := by
  simp [freeAll]

@[simp] theorem freeAll_freeAll (first second : List Nat) :
    (tree.freeAll first).freeAll second = tree.freeAll (first ++ second) := by
  unfold freeAll
  congr 1
  funext address
  by_cases hfirst : address ∈ first <;> by_cases hsecond : address ∈ second <;>
    simp [hfirst, hsecond]

theorem free_freeAll (addresses : List Nat) (address : Nat) :
    (tree.freeAll addresses).free address = tree.freeAll (address :: addresses) := by
  unfold freeAll free
  congr 1
  funext other
  by_cases heq : other = address <;> simp [heq]

theorem heap_freeAll_of_not_mem {addresses : List Nat} {address : Nat}
    (hmem : address ∉ addresses) : (tree.freeAll addresses).heap address = tree.heap address :=
  if_neg hmem

end FreeAll

section Delete

variable {tree : FileTree} {ns : PathTree} {addr : Bytes → Nat}

/-- The loop over the entries of a directory frees what `delete` frees for each of them, if no
cell belongs to two entries. -/
theorem deleteChildren_eq {cells : Bytes → List Nat} {entries : List Bytes}
    {before first : Option Nat} {now : FileTree}
    (hchain : Chain TreeNode.next TreeNode.last tree.heap before first (entries.map addr))
    (hself : ∀ path ∈ entries, addr path ∈ cells path)
    (hapart : entries.Pairwise fun path other => ∀ address ∈ cells path, address ∉ cells other)
    (hkept : ∀ path ∈ entries, ∀ address ∈ cells path, now.heap address = tree.heap address)
    (hentries : ∀ path ∈ entries, ∀ now : FileTree,
      (∀ address ∈ cells path, now.heap address = tree.heap address) →
        ∃ fuel, deleteNode fuel now (addr path) = .ok (now.freeAll (cells path))) :
    ∃ fuel, deleteChildren fuel now first = .ok (now.freeAll (entries.flatMap cells)) := by
  induction entries generalizing before first now with
  | nil =>
      rw [List.map_nil, chain_nil] at hchain
      rw [hchain]
      exact ⟨1, by simp [deleteChildren]⟩
  | cons path entries ih =>
      obtain ⟨rfl, node, hnode, -, hrest⟩ := hchain
      obtain ⟨hhead, htail⟩ := List.pairwise_cons.mp hapart
      have hmem {other : Bytes} (hother : other ∈ entries) : other ∈ path :: entries :=
        List.mem_cons_of_mem path hother
      obtain ⟨fuel, hrun⟩ := hentries path List.mem_cons_self now (hkept path List.mem_cons_self)
      obtain ⟨fuel', hloop⟩ := @ih _ _ (now.freeAll (cells path)) hrest
        (fun other hother => hself other (hmem hother)) htail
        (fun other hother address haddress => by
          rw [heap_freeAll_of_not_mem _ fun hfreed => hhead other hother address hfreed haddress]
          exact hkept other (hmem hother) address haddress)
        fun other hother => hentries other (hmem hother)
      refine ⟨max fuel fuel' + 1, ?_⟩
      have hrun' := Extends.of_le (fun fuel => (deleteNode_extends fuel).1 now (addr path))
        (Nat.le_max_left fuel fuel') _ hrun
      have hloop' := Extends.of_le
        (fun fuel => (deleteNode_extends fuel).2 (now.freeAll (cells path)) node.next)
        (Nat.le_max_right fuel fuel') _ hloop
      have hderef : now.deref (addr path) = .ok node := by
        rw [FileTree.deref, hkept path List.mem_cons_self _ (hself path List.mem_cons_self), hnode]
      rw [deleteChildren, hderef, ok_bind, hrun', ok_bind, hloop', freeAll_freeAll,
        List.flatMap_cons]

/-- The cells of a path and of all that is below it. -/
def cellsBelow (ns : PathTree) (addr : Bytes → Nat) (depth : Nat) (path : Bytes) : List Nat :=
  (ns.walk depth path).map addr

/-- A cell is that of one path only. -/
theorem Represents.mem_of_addr (h : Represents tree ns [] addr) {depth : Nat} {path top : Bytes}
    (hentry : ns.entry path ≠ none) (htop : ns.entry top ≠ none)
    (hmem : addr path ∈ cellsBelow ns addr depth top) : path ∈ ns.walk depth top := by
  obtain ⟨other, hother, heq⟩ := List.mem_map.mp hmem
  rw [← h.addr_inj (ns.entry_of_mem_walk htop hother) hentry heq]
  exact hother

/-- `delete` of a cell frees it with all that is below it. -/
theorem Represents.deleteNode_eq (h : Represents tree ns [] addr) {bound : Nat}
    (hbound : ∀ path, ns.entry path ≠ none → path.length < bound) (depth : Nat) {path : Bytes}
    (hentry : ns.entry path ≠ none) (hdepth : bound ≤ path.length + depth) {now : FileTree}
    (hkept : ∀ address ∈ cellsBelow ns addr depth path, now.heap address = tree.heap address) :
    ∃ fuel, deleteNode fuel now (addr path) =
      .ok (now.freeAll (cellsBelow ns addr depth path)) := by
  induction depth generalizing path now with
  | zero => exact absurd (hbound path hentry) (Nat.not_lt_of_le hdepth)
  | succ depth ih =>
      obtain ⟨id, hid⟩ := Option.ne_none_iff_exists'.mp hentry
      obtain ⟨node, -, hnode, hcell⟩ := h.deref hid
      have hbelow {entry : Bytes} (hmem : entry ∈ ns.listing path) :
          ns.entry entry ≠ none ∧ bound ≤ entry.length + depth := by
        obtain ⟨hroot, hentry', hdir⟩ := ns.mem_listing.mp hmem
        have hlt := length_dirOf_lt hdir hroot
        exact ⟨hentry', by omega⟩
      have hmore {entry : Bytes} (hmem : entry ∈ ns.listing path) {address : Nat}
          (haddress : address ∈ cellsBelow ns addr depth entry) :
          address ∈ cellsBelow ns addr (depth + 1) path := by
        obtain ⟨other, hother, heq⟩ := List.mem_map.mp haddress
        exact List.mem_map.mpr
          ⟨other, Namespace.mem_walk_succ.mpr (Or.inr ⟨entry, hmem, hother⟩), heq⟩
      have hnodup := ns.nodup_walk length_dirOf_lt (depth + 1) path
      rw [Namespace.walk, List.nodup_cons, List.nodup_flatMap] at hnodup
      obtain ⟨hpath, -, hapart⟩ := hnodup
      obtain ⟨fuel, hloop⟩ := @deleteChildren_eq tree addr (cellsBelow ns addr depth) _ _ _ now
        hcell.children
        (fun entry hmem => by
          obtain ⟨hentry', hdeep⟩ := hbelow hmem
          have hlt := hbound entry hentry'
          obtain ⟨depth, rfl⟩ : ∃ less, depth = less + 1 := ⟨depth - 1, by omega⟩
          exact List.mem_map_of_mem (Namespace.mem_walk_succ.mpr (Or.inl rfl)))
        (hapart.imp_of_mem fun {first second} hfirst hsecond hdisjoint address hin hin' => by
          obtain ⟨other, hother, rfl⟩ := List.mem_map.mp hin
          have hentry' := ns.entry_of_mem_walk (hbelow hfirst).1 hother
          exact hdisjoint hother (h.mem_of_addr hentry' (hbelow hsecond).1 hin'))
        (fun entry hmem address haddress => hkept address (hmore hmem haddress))
        fun entry hmem now hkept => ih (hbelow hmem).1 (hbelow hmem).2 hkept
      have hcells : cellsBelow ns addr (depth + 1) path =
          addr path :: (ns.listing path).flatMap (cellsBelow ns addr depth) := by
        unfold cellsBelow
        rw [Namespace.walk, List.map_cons, List.map_flatMap]
      have hderef : now.deref (addr path) = .ok node := by
        rw [FileTree.deref, hkept _ (hcells ▸ List.mem_cons_self), hnode]
      -- none of the entries is the directory itself
      have hlive : (now.freeAll ((ns.listing path).flatMap (cellsBelow ns addr depth))).deref
          (addr path) = .ok node := by
        rw [FileTree.deref, heap_freeAll_of_not_mem]
        · exact hderef
        · intro hfreed
          obtain ⟨entry, hmem, haddress⟩ := List.mem_flatMap.mp hfreed
          exact hpath (List.mem_flatMap.mpr
            ⟨entry, hmem, h.mem_of_addr hentry (hbelow hmem).1 haddress⟩)
      refine ⟨fuel + 1, ?_⟩
      rw [deleteNode, hderef, ok_bind, hloop, ok_bind, hlive, ok_bind, free_freeAll, hcells]

end Delete

/-! ## No cell is lost -/

/-- Every cell is in the hash table, except those that are about to be freed. -/
structure Covered (pending : List Nat) (tree : FileTree) : Prop where
  keyed : tree.Keyed
  key {address : Nat} : tree.heap address ≠ none →
    address ∈ pending ∨ ∃ path, tree.fileMap.getValue path = some address

namespace Covered

variable {tree tree' : FileTree} {pending : List Nat} {path : Bytes} {remove tn : Nat}
  {fileMap : HashList Bytes (Option Nat)} {result : Bool}

/-- The key of a cell goes before the cell. -/
theorem dropKey (h : tree.Covered pending) (hvalue : tree.fileMap.getValue path = some remove)
    (hremove : tree.fileMap.remove path = .ok (fileMap, true)) :
    Covered (remove :: pending) { tree with fileMap := fileMap } := by
  refine ⟨kept_keyed.remove h.keyed hremove, fun {address} hlive => ?_⟩
  have hspec := HashList.remove_spec h.keyed.1 hremove
  rw [if_pos rfl] at hspec
  rcases h.key hlive with hpending | ⟨key, hkey⟩
  · exact Or.inl (List.mem_cons_of_mem _ hpending)
  · by_cases heq : key = path
    · rw [heq, hvalue] at hkey
      rw [Option.some.inj hkey]
      exact Or.inl List.mem_cons_self
    · refine Or.inr ⟨key, ?_⟩
      rw [hspec, HashList.getValue, HashList.lookup_erase, if_neg heq]
      exact hkey

/-- A key that is not found stays. -/
theorem dropKey_false (h : tree.Covered pending)
    (hremove : tree.fileMap.remove path = .ok (fileMap, false)) :
    Covered pending { tree with fileMap := fileMap } := by
  have hspec := HashList.remove_spec h.keyed.1 hremove
  rw [if_neg (by simp)] at hspec
  rw [hspec]
  exact h

theorem removeNode (h : tree.Covered (tn :: pending)) (hrun : tree.removeNode tn = .ok tree') :
    tree'.Covered pending := by
  refine ⟨kept_keyed.removeNode h.keyed hrun, fun {address} hlive => ?_⟩
  obtain ⟨-, node, parent, -, -, hheap⟩ := removeNode_spec hrun
  rw [hheap] at hlive
  split at hlive
  next => exact absurd rfl hlive
  next hne =>
    rw [fileMap_removeNode hrun]
    rcases h.key fun hnone => hlive (by rw [hnone]; rfl) with hmem | hkey
    · exact Or.inl ((List.mem_cons.mp hmem).resolve_left hne)
    · exact Or.inr hkey

theorem removeFile (h : tree.Covered pending)
    (hrun : tree.removeFile path = .ok (tree', result)) : tree'.Covered pending := by
  unfold FileTree.removeFile at hrun
  split at hrun
  next =>
    obtain ⟨rfl, -⟩ := Prod.mk.inj (Except.ok.inj hrun)
    exact h
  next remove hvalue =>
    obtain ⟨node, -, hrun⟩ := bind_eq_ok_iff.mp hrun
    split at hrun
    next =>
      obtain ⟨rfl, -⟩ := Prod.mk.inj (Except.ok.inj hrun)
      exact h
    next =>
      obtain ⟨⟨fileMap, removed⟩, hremove, hrun⟩ := bind_eq_ok_iff.mp hrun
      cases removed with
      | false =>
          obtain ⟨rfl, -⟩ := Prod.mk.inj (Except.ok.inj hrun)
          exact h.dropKey_false hremove
      | true =>
          obtain ⟨unlinked, hunlink, hrun⟩ := bind_eq_ok_iff.mp hrun
          obtain ⟨rfl, -⟩ := Prod.mk.inj (Except.ok.inj hrun)
          exact (h.dropKey hvalue hremove).removeNode hunlink

/-- The keys and the cells of a directory and of its entries go together. -/
theorem removeDir (fuel : Nat) :
    (∀ {tree : FileTree} {path : Bytes} {tree' : FileTree} {result : Bool} {pending : List Nat},
      tree.Covered pending → FileTree.removeDir fuel tree path = .ok (tree', result) →
        tree'.Covered pending) ∧
    (∀ {tree : FileTree} {path : Bytes} {remove : Nat} {next : Option Nat} {tree' : FileTree}
      {pending : List Nat}, tree.Covered pending →
        removeChildren fuel tree path remove next = .ok tree' → tree'.Covered pending) := by
  induction fuel with
  | zero =>
      refine ⟨fun _ hrun => ?_, fun _ hrun => ?_⟩
      · cases hrun
      · cases hrun
  | succ fuel ih =>
      obtain ⟨ihDir, ihChildren⟩ := ih
      refine ⟨fun {tree path tree' result pending} h hrun => ?_,
        fun {tree path remove next tree' pending} h hrun => ?_⟩
      · rw [FileTree.removeDir] at hrun
        split at hrun
        next =>
          obtain ⟨rfl, -⟩ := Prod.mk.inj (Except.ok.inj hrun)
          exact h
        next remove hvalue =>
          obtain ⟨node, -, hrun⟩ := bind_eq_ok_iff.mp hrun
          split at hrun
          next =>
            obtain ⟨rfl, -⟩ := Prod.mk.inj (Except.ok.inj hrun)
            exact h
          next =>
            obtain ⟨⟨fileMap, removed⟩, hremove, hrun⟩ := bind_eq_ok_iff.mp hrun
            cases removed with
            | false =>
                obtain ⟨rfl, -⟩ := Prod.mk.inj (Except.ok.inj hrun)
                exact h.dropKey_false hremove
            | true =>
                obtain ⟨emptied, hchildren, hrun⟩ := bind_eq_ok_iff.mp hrun
                obtain ⟨unlinked, hunlink, hrun⟩ := bind_eq_ok_iff.mp hrun
                obtain ⟨rfl, -⟩ := Prod.mk.inj (Except.ok.inj hrun)
                exact (ihChildren (h.dropKey hvalue hremove) hchildren).removeNode hunlink
      · cases next with
        | none =>
            obtain rfl := Except.ok.inj hrun
            exact h
        | some next =>
            rw [removeChildren] at hrun
            obtain ⟨child, -, hrun⟩ := bind_eq_ok_iff.mp hrun
            dsimp only at hrun
            split at hrun
            next =>
              obtain ⟨⟨middle, removed⟩, hchild, hrun⟩ := bind_eq_ok_iff.mp hrun
              obtain ⟨node, -, hrun⟩ := bind_eq_ok_iff.mp hrun
              exact ihChildren (h.removeFile hchild) hrun
            next =>
              obtain ⟨⟨middle, removed⟩, hchild, hrun⟩ := bind_eq_ok_iff.mp hrun
              obtain ⟨node, -, hrun⟩ := bind_eq_ok_iff.mp hrun
              exact ihChildren (ihDir h hchild) hrun

theorem addFile (h : tree.Covered []) {metaID : BlockID}
    (hrun : tree.addFile path metaID = .ok (tree', result)) : tree'.Covered [] := by
  refine ⟨h.keyed.addFile hrun, fun {address} hlive => Or.inr ?_⟩
  rcases addFile_cases hrun with ⟨-, -, rfl⟩ | ⟨hadmits, -, insert, node, -, hinsert⟩
  · exact (h.key hlive).resolve_left List.not_mem_nil
  · obtain ⟨filled, changed, change, rfl, -⟩ := insertChild_cases hinsert
    have hlookup (key : Bytes) :
        (tree.fileMap.add path (some tree.brk)).getValue key =
          if key = path then some tree.brk else tree.fileMap.getValue key := by
      rw [HashList.getValue, HashList.lookup_add _ _ _ _ (h.keyed.2.lookup_eq_none hadmits.1)]
      by_cases heq : key = path <;> simp [heq, HashList.getValue]
    by_cases hnew : address = tree.brk
    · exact ⟨path, by rw [hlookup, if_pos rfl, hnew]⟩
    · have hold : tree.heap address ≠ none := by
        intro hnone
        apply hlive
        dsimp only
        rw [heap_assign]
        simp [alloc, hnew, hnone]
      obtain ⟨key, hkey⟩ := (h.key hold).resolve_left List.not_mem_nil
      refine ⟨key, ?_⟩
      rw [hlookup, if_neg]
      · exact hkey
      · rintro rfl
        rw [hadmits.1] at hkey
        cases hkey

theorem new (keyHash : Bytes → Nat) : (FileTree.new keyHash).Covered [] := by
  refine ⟨(invariant_keyed keyHash).init rfl, fun {address} hlive => Or.inr ⟨rootPath, ?_⟩⟩
  have hroot : address = 0 := by
    by_contra hne
    exact hlive (by simp [FileTree.new, hne])
  rw [hroot, (represents_new keyHash).getValue List.not_mem_nil]
  rfl

end Covered

end FileTree

/-- Every cell is in the hash table after any calls. -/
theorem invariant_covered (keyHash : Bytes → Nat) :
    (treeSystem keyHash).Invariant (FileTree.Covered []) where
  init := by
    rintro tree rfl
    exact .new keyHash
  step := by
    rintro tree tree' op h ⟨fuel, result, hrun⟩
    cases op with
    | addFile path metaID => exact h.addFile hrun
    | addDir path => exact h.addFile hrun
    | removeFile path => exact h.removeFile hrun
    | removeDir path => exact (FileTree.Covered.removeDir fuel).1 h hrun

/-- After any calls that unlink what they remove, the destructor of the tree comes to an end: it
never touches a cell that was freed, and frees every cell that is left. -/
theorem released_of_run (keyHash : Bytes → Nat) {ops : List TreeOp} {tree : FileTree}
    (hrun : ((treeSystem keyHash).restrict fun tree op => op.Unlinks tree).Run ops tree) :
    ∃ fuel tree', tree.release fuel = .ok tree' ∧ tree'.heap = fun _ => none := by
  obtain ⟨ns, addr, h⟩ := (invariant_faithful keyHash).run hrun
  obtain ⟨start, hstart, hsteps⟩ := hrun
  have hcovered := (invariant_covered keyHash).run ⟨start, hstart, hsteps.of_restrict⟩
  obtain ⟨bound, hbound⟩ := h.exists_length_lt
  have hroot : ns.entry rootPath ≠ none := by simp [ns.root_entry]
  obtain ⟨fuel, hdelete⟩ := h.deleteNode_eq hbound (bound + 1) hroot (by omega) fun _ _ => rfl
  refine ⟨fuel, _, by rw [FileTree.release, ← h.root, hdelete], ?_⟩
  funext address
  by_contra hlive
  have hleft : address ∉ FileTree.cellsBelow ns addr (bound + 1) rootPath ∧
      tree.heap address ≠ none := by
    by_cases hmem : address ∈ FileTree.cellsBelow ns addr (bound + 1) rootPath
    · exact absurd (if_pos hmem) hlive
    · rw [FileTree.heap_freeAll_of_not_mem _ hmem] at hlive
      exact ⟨hmem, hlive⟩
  -- the path that leads to the cell is met on the way
  obtain ⟨path, hkey⟩ := (hcovered.key hleft.2).resolve_left List.not_mem_nil
  rw [h.getValue List.not_mem_nil, Option.map_eq_some_iff] at hkey
  obtain ⟨id, hentry, haddr⟩ := hkey
  have hbound' : ns.entry path ≠ none := by simp [hentry]
  have hwalk := ns.mem_walk_mono (Nat.succ_le_succ (Nat.le_of_lt (hbound path hbound')))
    (ns.mem_walk_root length_dirOf_lt path hbound')
  exact hleft.1 (List.mem_map.mpr ⟨path, hwalk, haddr⟩)

/-- A file is removed from a directory before another one is added. -/
theorem released_of_run_example : ∃ tree fuel tree',
    ((treeSystem List.length).restrict fun tree op => op.Unlinks tree).Run
      [.addDir (ascii "/a"), .addFile (ascii "/a/b") 1, .removeFile (ascii "/a/b"),
        .addFile (ascii "/a/x") 7] tree ∧
    tree.release fuel = .ok tree' ∧ tree'.heap = fun _ => none := by
  have hrun : ∃ tree, ((treeSystem List.length).restrict fun tree op => op.Unlinks tree).Run
      [.addDir (ascii "/a"), .addFile (ascii "/a/b") 1, .removeFile (ascii "/a/b"),
        .addFile (ascii "/a/x") 7] tree := by
    refine ⟨_, _, rfl, .cons ⟨trivial, 0, true, rfl⟩ (.cons ⟨trivial, 0, true, rfl⟩
      (.cons ⟨?_, 0, true, rfl⟩ (.cons ⟨trivial, 0, true, rfl⟩ (.nil _))))⟩
    intro address node hvalue hnode _
    obtain rfl : 2 = address := Option.some.inj hvalue
    obtain rfl := Option.some.inj hnode
    exact ⟨by decide, ⟨2, rfl, rfl⟩, rfl⟩
  obtain ⟨tree, hrun⟩ := hrun
  obtain ⟨fuel, tree', hrelease, hheap⟩ := released_of_run _ hrun
  exact ⟨tree, fuel, tree', hrun, hrelease, hheap⟩

end Doopey
