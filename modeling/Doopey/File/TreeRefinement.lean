import Mathlib.Data.List.Basic
import Mathlib.Data.List.Perm.Subperm
import Mathlib.Data.List.Range
import Doopey.Foundation.DoublyLinked
import Doopey.Foundation.Namespace
import Doopey.File.FileTree

/-!
# The file tree represents a namespace

What the file tree is for is a namespace of paths, each bound to the ID of its
meta block, with `0` for a directory. `Represents` says that the heap and the
hash table of a `FileTree` both hold such a namespace. It also records how much
of the linked structure the code maintains: the `_parent` of a cell is assigned
only if the cell is the first of its directory.

A removal drops keys from the hash table before it unlinks their cells. The
list `hidden` holds the keys that are in that state.
-/

namespace Doopey

open Foundation Foundation.DoublyLinked

/-- Paths bound to meta block IDs; a directory is bound to `0`. -/
abbrev PathTree := Foundation.Namespace rootPath dirOf (0 : BlockID)

namespace FileTree

/-- The cell that stands for a bound path. -/
structure CellOf (heap : Nat → Option TreeNode) (ns : PathTree) (addr : Bytes → Nat)
    (path : Bytes) (id : BlockID) (node : TreeNode) : Prop where
  isFile : node.isFile = decide (id ≠ 0)
  metaID : node.metaID = id
  name : node.name = if path = rootPath then rootPath else getFileName path
  children : Chain TreeNode.next TreeNode.last heap none node.children
    ((ns.listing path).map addr)
  parent : node.parent = none ∨
    ∃ dir, (ns.listing dir).head? = some path ∧ node.parent = some (addr dir)
  root_links : path = rootPath → node.next = none ∧ node.last = none

/-- `tree` holds the namespace `ns`, with the cell of each path at `addr`, except
that the keys in `hidden` are missing from the hash table. -/
structure Represents (tree : FileTree) (ns : PathTree) (hidden : List Bytes)
    (addr : Bytes → Nat) : Prop where
  wf : tree.fileMap.WF
  lookup (path : Bytes) : tree.fileMap.lookup path =
    if path ∈ hidden then none else (ns.entry path).map (fun _ => some (addr path))
  root : addr rootPath = tree.root
  addr_inj {path path' : Bytes} : ns.entry path ≠ none → ns.entry path' ≠ none →
    addr path = addr path' → path = path'
  addr_lt {path : Bytes} : ns.entry path ≠ none → addr path < tree.brk
  cell {path : Bytes} {id : BlockID} : ns.entry path = some id →
    ∃ node, tree.heap (addr path) = some node ∧ CellOf tree.heap ns addr path id node

namespace Represents

variable {tree : FileTree} {ns : PathTree} {hidden : List Bytes} {addr : Bytes → Nat}

theorem getValue (h : Represents tree ns hidden addr) {path : Bytes} (hvisible : path ∉ hidden) :
    tree.fileMap.getValue path = (ns.entry path).map (fun _ => addr path) := by
  unfold HashList.getValue
  rw [h.lookup, if_neg hvisible]
  cases ns.entry path <;> rfl

theorem deref (h : Represents tree ns hidden addr) {path : Bytes} {id : BlockID}
    (hentry : ns.entry path = some id) :
    ∃ node, tree.deref (addr path) = .ok node ∧ tree.heap (addr path) = some node ∧
      CellOf tree.heap ns addr path id node := by
  obtain ⟨node, hnode, hcell⟩ := h.cell hentry
  exact ⟨node, by simp [FileTree.deref, hnode], hnode, hcell⟩

/-- The cells of a listing are distinct. -/
theorem nodup_addr (h : Represents tree ns hidden addr) (dir : Bytes) :
    ((ns.listing dir).map addr).Nodup := by
  refine List.Nodup.map_on ?_ (ns.listing_nodup dir)
  intro path hpath path' hpath' heq
  exact h.addr_inj (ns.mem_listing.mp hpath).2.1 (ns.mem_listing.mp hpath').2.1 heq

/-- A directory has fewer entries than there are cells. -/
theorem length_listing_le (h : Represents tree ns hidden addr) (dir : Bytes) :
    (ns.listing dir).length ≤ tree.brk := by
  have hsub : (ns.listing dir).map addr ⊆ List.range tree.brk := by
    intro address hmem
    obtain ⟨path, hpath, rfl⟩ := List.mem_map.mp hmem
    exact List.mem_range.mpr (h.addr_lt (ns.mem_listing.mp hpath).2.1)
  simpa using ((h.nodup_addr dir).subperm hsub).length_le

end Represents

/-- The walk of `addFile` along a chain stops at its end. -/
theorem lastSibling_eq (tree : FileTree) {before : Option Nat} {first fuel : Nat}
    {addresses : List Nat}
    (hchain : Chain TreeNode.next TreeNode.last tree.heap before (some first) addresses)
    (hne : addresses ≠ []) (hfuel : addresses.length ≤ fuel) :
    tree.lastSibling fuel first = .ok (addresses.getLast hne) := by
  induction addresses generalizing before first fuel with
  | nil => exact absurd rfl hne
  | cons address rest ih =>
      obtain ⟨hfirst, node, hnode, _, hrest⟩ := hchain
      obtain rfl := Option.some.inj hfirst
      cases fuel with
      | zero => simp at hfuel
      | succ fuel =>
          rw [lastSibling, show tree.deref first = .ok node by simp [FileTree.deref, hnode],
            ok_bind]
          cases rest with
          | nil =>
              rw [chain_nil] at hrest
              simp [hrest]
          | cons second rest =>
              have hnext : node.next = some second := hrest.1
              simp only [hnext]
              rw [hnext] at hrest
              rw [List.getLast_cons (List.cons_ne_nil second rest)]
              exact ih hrest (List.cons_ne_nil _ _) (by simpa using hfuel)

/-- A path that the namespace does not accept leaves the tree alone. -/
theorem addFile_of_not_accepts {tree : FileTree} {ns : PathTree} {addr : Bytes → Nat}
    (h : Represents tree ns [] addr) {path : Bytes} (metaID : BlockID)
    (hreject : ¬ ns.Accepts path) : tree.addFile path metaID = .ok (tree, false) := by
  unfold addFile
  rw [h.getValue List.not_mem_nil]
  cases hentry : ns.entry path with
  | some id => rfl
  | none =>
      simp only [Option.map_none, ne_eq, not_true_eq_false, ↓reduceIte]
      cases hdir : dirOf path with
      | none => rfl
      | some dir =>
          simp only [searchDir]
          rw [h.getValue List.not_mem_nil]
          cases hparent : ns.entry dir with
          | none => rfl
          | some id =>
              obtain ⟨node, hderef, _, hcell⟩ := h.deref hparent
              have hfile : node.isFile = true := by
                rw [hcell.isFile, decide_eq_true_eq]
                rintro rfl
                exact hreject ⟨hentry, dir, hdir, hparent⟩
              simp [hderef, hfile]

/-! ## Adding an entry -/

namespace Represents

variable {tree : FileTree} {ns : PathTree} {addr : Bytes → Nat}

/-- The fresh cell is not the cell of a bound path. -/
theorem addr_ne_brk {hidden : List Bytes} (h : Represents tree ns hidden addr) {path : Bytes}
    (hentry : ns.entry path ≠ none) : addr path ≠ tree.brk :=
  Nat.ne_of_lt (h.addr_lt hentry)

theorem map_update_addr {path : Bytes} (hnew : ns.entry path = none) (above : Bytes)
    (fresh : Nat) :
    (ns.listing above).map (Function.update addr path fresh) = (ns.listing above).map addr := by
  refine List.map_congr_left fun path' hmem => Function.update_of_ne ?_ _ _
  rintro rfl
  exact (ns.mem_listing.mp hmem).2.1 hnew

/-- The children of every other directory stay a chain, if their links stay. -/
theorem chain_add_of_ne {path above : Bytes} {id : BlockID} (haccept : ns.Accepts path)
    (hdir : dirOf path ≠ some above) {heap' : Nat → Option TreeNode} {first : Option Nat}
    (hchain : Chain TreeNode.next TreeNode.last tree.heap none first ((ns.listing above).map addr))
    (hkeep : ∀ entry ∈ ns.listing above, ∀ cell, tree.heap (addr entry) = some cell →
      ∃ cell', heap' (addr entry) = some cell' ∧ cell'.next = cell.next ∧ cell'.last = cell.last)
    (fresh : Nat) :
    Chain TreeNode.next TreeNode.last heap' none first
      (((ns.add path id haccept).listing above).map (Function.update addr path fresh)) := by
  rw [ns.listing_add_of_ne id haccept hdir, map_update_addr haccept.1]
  refine hchain.congr fun address hmem cell hcell => ?_
  obtain ⟨entry, hentry, rfl⟩ := List.mem_map.mp hmem
  exact hkeep entry hentry cell hcell

/-- The children of the directory go on with the new cell, if the last of them is made to
point to it. -/
theorem chain_add_parent (h : Represents tree ns [] addr) {path dir : Bytes} {id : BlockID}
    (haccept : ns.Accepts path) (hdir : dirOf path = some dir) (hlisting : ns.listing dir ≠ [])
    {heap' : Nat → Option TreeNode} {first : Option Nat}
    (hchain : Chain TreeNode.next TreeNode.last tree.heap none first ((ns.listing dir).map addr))
    (hkeep : ∀ entry ∈ ns.listing dir, addr entry ≠ addr ((ns.listing dir).getLast hlisting) →
      heap' (addr entry) = tree.heap (addr entry))
    (hend : ∀ cell, tree.heap (addr ((ns.listing dir).getLast hlisting)) = some cell →
      heap' (addr ((ns.listing dir).getLast hlisting)) = some { cell with next := some tree.brk })
    (hfresh : ∃ cell, heap' tree.brk = some cell ∧
      cell.last = some (addr ((ns.listing dir).getLast hlisting)) ∧ cell.next = none) :
    Chain TreeNode.next TreeNode.last heap' none first
      (((ns.add path id haccept).listing dir).map (Function.update addr path tree.brk)) := by
  have hne : (ns.listing dir).map addr ≠ [] := by simpa using hlisting
  have hlast : ((ns.listing dir).map addr).getLast hne =
      addr ((ns.listing dir).getLast hlisting) := List.getLast_map ..
  rw [ns.listing_add_parent id haccept hdir, List.map_append, map_update_addr haccept.1,
    List.map_singleton, Function.update_self]
  refine hchain.append hne (h.nodup_addr dir) ?_ ?_ ?_
  · intro address hmem hother cell hcell
    obtain ⟨entry, hentry, rfl⟩ := List.mem_map.mp hmem
    rw [hlast] at hother
    exact ⟨cell, (hkeep entry hentry hother).trans hcell, rfl, rfl⟩
  · intro cell hcell
    rw [hlast] at hcell ⊢
    exact ⟨_, hend cell hcell, rfl, rfl⟩
  · rw [hlast]
    exact hfresh

/-- A tree with one more key represents the namespace with one more path, if
every cell is right again. -/
theorem add (h : Represents tree ns [] addr) {path : Bytes} {id : BlockID}
    (haccept : ns.Accepts path) {heap' : Nat → Option TreeNode}
    (hold : ∀ {path' : Bytes} {id' : BlockID}, ns.entry path' = some id' →
      ∃ node, heap' (addr path') = some node ∧
        CellOf heap' (ns.add path id haccept) (Function.update addr path tree.brk) path' id' node)
    (hfresh : ∃ node, heap' tree.brk = some node ∧
      CellOf heap' (ns.add path id haccept) (Function.update addr path tree.brk) path id node) :
    Represents ⟨heap', tree.brk + 1, tree.root, tree.fileMap.add path (some tree.brk)⟩
      (ns.add path id haccept) [] (Function.update addr path tree.brk) := by
  have hlookup : tree.fileMap.lookup path = none := by simp [h.lookup, haccept.1]
  have hbound {path' : Bytes} (hpath : path' ≠ path)
      (hentry : (ns.add path id haccept).entry path' ≠ none) : ns.entry path' ≠ none := by
    rwa [ns.entry_add, if_neg hpath] at hentry
  refine ⟨HashList.wf_add h.wf path _ hlookup, ?_, ?_, ?_, ?_, ?_⟩
  · intro path'
    rw [HashList.lookup_add _ _ _ _ hlookup, h.lookup, ns.entry_add]
    by_cases hpath : path' = path <;> simp [hpath]
  · rw [Function.update_of_ne haccept.ne_root.symm, h.root]
  · intro first second hfirst hsecond heq
    by_cases h1 : first = path <;> by_cases h2 : second = path
    · rw [h1, h2]
    · rw [h1, Function.update_self, Function.update_of_ne h2] at heq
      exact absurd heq.symm (h.addr_ne_brk (hbound h2 hsecond))
    · rw [h2, Function.update_self, Function.update_of_ne h1] at heq
      exact absurd heq (h.addr_ne_brk (hbound h1 hfirst))
    · rw [Function.update_of_ne h1, Function.update_of_ne h2] at heq
      exact h.addr_inj (hbound h1 hfirst) (hbound h2 hsecond) heq
  · intro path' hentry
    by_cases hpath : path' = path
    · simp [hpath]
    · rw [Function.update_of_ne hpath]
      exact Nat.lt_succ_of_lt (h.addr_lt (hbound hpath hentry))
  · intro path' id' hentry
    rw [ns.entry_add] at hentry
    by_cases hpath : path' = path
    · subst hpath
      rw [if_pos rfl] at hentry
      rw [Function.update_self, ← Option.some.inj hentry]
      exact hfresh
    · rw [if_neg hpath] at hentry
      rw [Function.update_of_ne hpath]
      exact hold hentry

end Represents

/-- The listing of a directory whose cell has no children is empty. -/
theorem CellOf.listing_eq_nil {heap : Nat → Option TreeNode} {ns : PathTree}
    {addr : Bytes → Nat} {path : Bytes} {id : BlockID} {node : TreeNode}
    (hcell : CellOf heap ns addr path id node) (hnone : node.children = none) :
    ns.listing path = [] := by
  have hchain := hcell.children
  cases hlist : ns.listing path with
  | nil => rfl
  | cons head rest =>
      rw [hlist, List.map_cons, chain_cons, hnone] at hchain
      exact absurd hchain.1 (by simp)

theorem CellOf.listing_ne_nil {heap : Nat → Option TreeNode} {ns : PathTree}
    {addr : Bytes → Nat} {path : Bytes} {id : BlockID} {node : TreeNode}
    (hcell : CellOf heap ns addr path id node) {first : Nat} (hsome : node.children = some first) :
    ns.listing path ≠ [] := by
  intro hnil
  have hchain := hcell.children
  rw [hnil, List.map_nil, chain_nil, hsome] at hchain
  exact absurd hchain (by simp)

/-- The cell that `addFile` fills in for a new path, whatever its links to
siblings and parent. -/
theorem cellOf_new {heap : Nat → Option TreeNode} {ns : PathTree} {addr : Bytes → Nat}
    {path : Bytes} {id : BlockID} (haccept : ns.Accepts path) (last parent : Option Nat)
    (hparent : parent = none ∨ ∃ dir,
      ((ns.add path id haccept).listing dir).head? = some path ∧ parent = some (addr dir)) :
    CellOf heap (ns.add path id haccept) addr path id
      { TreeNode.new with
        name := getFileName path, isFile := decide (id ≠ 0), metaID := id,
        last := last, parent := parent } where
  isFile := rfl
  metaID := rfl
  name := by rw [if_neg haccept.ne_root]
  children := by
    have hnil : ns.listing path = [] := ns.listing_eq_nil (by rw [haccept.1]; simp)
    have hself : dirOf path ≠ some path := by
      intro hdir
      obtain ⟨dir, hdir', hentry⟩ := haccept.2
      rw [Option.some.inj (hdir'.symm.trans hdir), haccept.1] at hentry
      exact absurd hentry (by simp)
    simp [Namespace.add, hnil, hself, TreeNode.new]
  parent := hparent
  root_links := fun hroot => absurd hroot haccept.ne_root

/-- The first entry of a directory stays first when another path is added. -/
theorem head?_listing_add {ns : PathTree} {path first dir : Bytes} {id : BlockID}
    (haccept : ns.Accepts path) (hhead : (ns.listing dir).head? = some first) :
    ((ns.add path id haccept).listing dir).head? = some first := by
  simp only [Namespace.add]
  split
  next => simp [hhead]
  next => exact hhead

theorem CellOf.parent_add {heap : Nat → Option TreeNode} {ns : PathTree} {addr : Bytes → Nat}
    {path path' : Bytes} {id id' : BlockID} {node : TreeNode}
    (hcell : CellOf heap ns addr path' id' node) (haccept : ns.Accepts path) (fresh : Nat) :
    node.parent = none ∨ ∃ dir, ((ns.add path id haccept).listing dir).head? = some path' ∧
      node.parent = some (Function.update addr path fresh dir) := by
  refine hcell.parent.imp_right ?_
  rintro ⟨dir, hhead, hparent⟩
  refine ⟨dir, head?_listing_add haccept hhead, ?_⟩
  have hentry := ns.entry_of_mem_listing (List.mem_of_mem_head? hhead)
  rw [Function.update_of_ne, hparent]
  rintro rfl
  exact absurd (hentry.symm.trans haccept.1) (by simp)

/-- Adding to a directory that has children already. -/
theorem insertChild_of_some {tree : FileTree} {ns : PathTree} {addr : Bytes → Nat}
    (h : Represents tree ns [] addr) {path dir : Bytes} (metaID : BlockID)
    (haccept : ns.Accepts path) (hdir : dirOf path = some dir) {node : TreeNode}
    (hnode : tree.heap (addr dir) = some node) (hcell : CellOf tree.heap ns addr dir 0 node)
    {first : Nat} (hfirst : node.children = some first) :
    ∃ tree', tree.insertChild (addr dir) (getFileName path) path metaID = .ok tree' ∧
      Represents tree' (ns.add path metaID haccept) [] (Function.update addr path tree.brk) := by
  have hlisting : ns.listing dir ≠ [] := hcell.listing_ne_nil hfirst
  have hne : (ns.listing dir).map addr ≠ [] := by simpa using hlisting
  have hchain := hcell.children
  rw [hfirst] at hchain
  have hwalk := lastSibling_eq tree hchain hne (by simpa using h.length_listing_le dir)
  let end_ := (ns.listing dir).getLast hlisting
  have hend : ((ns.listing dir).map addr).getLast hne = addr end_ := List.getLast_map ..
  have hendMem : end_ ∈ ns.listing dir := List.getLast_mem hlisting
  obtain ⟨hendRoot, hendEntry, -⟩ := ns.mem_listing.mp hendMem
  obtain ⟨endID, hendID⟩ := Option.ne_none_iff_exists'.mp hendEntry
  obtain ⟨endNode, hendNode, hendCell⟩ := h.cell hendID
  have hendFresh : addr end_ ≠ tree.brk := h.addr_ne_brk hendEntry
  let filled : TreeNode := { TreeNode.new with
    name := getFileName path, isFile := decide (metaID ≠ 0), metaID := metaID,
    last := some (addr end_), parent := none }
  let heap' := Function.update (Function.update tree.heap tree.brk (some filled)) (addr end_)
    (some { endNode with next := some tree.brk })
  have hheapEnd : heap' (addr end_) = some { endNode with next := some tree.brk } :=
    Function.update_self ..
  have hheapNew : heap' tree.brk = some filled := by
    simp [heap', Function.update_of_ne hendFresh.symm]
  have hheapOld {address : Nat} (hend : address ≠ addr end_) (hbrk : address ≠ tree.brk) :
      heap' address = tree.heap address := by
    simp [heap', Function.update_of_ne hend, Function.update_of_ne hbrk]
  refine ⟨⟨heap', tree.brk + 1, tree.root, tree.fileMap.add path (some tree.brk)⟩, ?_,
    h.add haccept ?_ ?_⟩
  · have hderef : tree.deref (addr dir) = .ok node := by simp [FileTree.deref, hnode]
    simp only [insertChild, hderef, ok_bind, hfirst, hwalk, hend, alloc, assign,
      Function.update_of_ne hendFresh, hendNode, Option.map_some]
    rfl
  · intro path' id' hentry
    obtain ⟨old, hold, holdCell⟩ := h.cell hentry
    have hpath : addr path' ≠ tree.brk := h.addr_ne_brk (by rw [hentry]; simp)
    have hchildren : Chain TreeNode.next TreeNode.last heap' none old.children
        (((ns.add path metaID haccept).listing path').map
          (Function.update addr path tree.brk)) := by
      by_cases hpath' : path' = dir
      · subst hpath'
        refine h.chain_add_parent haccept hdir hlisting holdCell.children ?_ ?_
          ⟨filled, hheapNew, rfl, rfl⟩
        · intro entry hmem hlast
          exact hheapOld hlast (h.addr_ne_brk (ns.mem_listing.mp hmem).2.1)
        · intro cell hcell'
          obtain rfl := Option.some.inj (hcell'.symm.trans hendNode)
          exact hheapEnd
      · have hdir' : dirOf path ≠ some path' := by simpa [hdir] using Ne.symm hpath'
        refine Represents.chain_add_of_ne haccept hdir' holdCell.children ?_ _
        intro entry hmem cell hcell'
        have hbound := (ns.mem_listing.mp hmem).2.1
        -- the last child of one directory is no child of another
        have hother : addr entry ≠ addr end_ := by
          intro heq
          rw [h.addr_inj hbound hendEntry heq] at hmem
          exact hpath' (ns.listing_unique hmem hendMem)
        exact ⟨cell, by rw [hheapOld hother (h.addr_ne_brk hbound), hcell'], rfl, rfl⟩
    by_cases hpathEnd : path' = end_
    · subst hpathEnd
      obtain rfl := Option.some.inj (hold.symm.trans hendNode)
      exact ⟨_, hheapEnd, holdCell.isFile, holdCell.metaID, holdCell.name, hchildren,
        holdCell.parent_add haccept _, fun hroot => absurd hroot hendRoot⟩
    · have hother : addr path' ≠ addr end_ :=
        fun heq => hpathEnd (h.addr_inj (by rw [hentry]; simp) hendEntry heq)
      exact ⟨old, by rw [hheapOld hother hpath, hold], holdCell.isFile, holdCell.metaID,
        holdCell.name, hchildren, holdCell.parent_add haccept _, holdCell.root_links⟩
  · exact ⟨filled, hheapNew, cellOf_new haccept _ _ (Or.inl rfl)⟩

/-- Adding to an empty directory. -/
theorem insertChild_of_none {tree : FileTree} {ns : PathTree} {addr : Bytes → Nat}
    (h : Represents tree ns [] addr) {path dir : Bytes} (metaID : BlockID)
    (haccept : ns.Accepts path) (hdir : dirOf path = some dir) (hentry : ns.entry dir = some 0)
    {node : TreeNode} (hnode : tree.heap (addr dir) = some node)
    (hcell : CellOf tree.heap ns addr dir 0 node) (hnone : node.children = none) :
    ∃ tree', tree.insertChild (addr dir) (getFileName path) path metaID = .ok tree' ∧
      Represents tree' (ns.add path metaID haccept) [] (Function.update addr path tree.brk) := by
  have hlisting : ns.listing dir = [] := hcell.listing_eq_nil hnone
  have hbound : ns.entry dir ≠ none := by rw [hentry]; simp
  have hdirFresh : addr dir ≠ tree.brk := h.addr_ne_brk hbound
  have hdirPath : dir ≠ path := fun heq => hbound (heq ▸ haccept.1)
  let filled : TreeNode := { TreeNode.new with
    name := getFileName path, isFile := decide (metaID ≠ 0), metaID := metaID,
    last := none, parent := some (addr dir) }
  let heap' := Function.update (Function.update tree.heap tree.brk (some filled)) (addr dir)
    (some { node with children := some tree.brk })
  have hheapDir : heap' (addr dir) = some { node with children := some tree.brk } :=
    Function.update_self ..
  have hheapNew : heap' tree.brk = some filled := by
    simp [heap', Function.update_of_ne hdirFresh.symm]
  have hheapOld {address : Nat} (hne : address ≠ addr dir) (hbrk : address ≠ tree.brk) :
      heap' address = tree.heap address := by
    simp [heap', Function.update_of_ne hne, Function.update_of_ne hbrk]
  have hlistDir : (ns.add path metaID haccept).listing dir = [path] := by
    rw [ns.listing_add_parent metaID haccept hdir, hlisting, List.nil_append]
  refine ⟨⟨heap', tree.brk + 1, tree.root, tree.fileMap.add path (some tree.brk)⟩, ?_,
    h.add haccept ?_ ⟨filled, hheapNew, cellOf_new haccept none (some (addr dir)) (Or.inr ?_)⟩⟩
  · have hderef : tree.deref (addr dir) = .ok node := by simp [FileTree.deref, hnode]
    simp only [insertChild, hderef, ok_bind, hnone, alloc, assign,
      Function.update_of_ne hdirFresh, hnode, Option.map_some]
    rfl
  · intro path' id' hentry'
    obtain ⟨old, hold, holdCell⟩ := h.cell hentry'
    by_cases hpath' : path' = dir
    · subst hpath'
      obtain rfl := Option.some.inj (hold.symm.trans hnode)
      refine ⟨_, hheapDir, holdCell.isFile, holdCell.metaID, holdCell.name, ?_,
        holdCell.parent_add haccept _, holdCell.root_links⟩
      rw [hlistDir, List.map_singleton, Function.update_self]
      exact ⟨rfl, filled, hheapNew, rfl, rfl⟩
    · have hother : addr path' ≠ addr dir :=
        fun heq => hpath' (h.addr_inj (by rw [hentry']; simp) hbound heq)
      refine ⟨old, ?_, holdCell.isFile, holdCell.metaID, holdCell.name, ?_,
        holdCell.parent_add haccept _, holdCell.root_links⟩
      · rw [hheapOld hother (h.addr_ne_brk (by rw [hentry']; simp)), hold]
      · have hdir' : dirOf path ≠ some path' := by simpa [hdir] using Ne.symm hpath'
        refine Represents.chain_add_of_ne haccept hdir' holdCell.children ?_ _
        intro entry hmem cell hcell'
        by_cases heq : addr entry = addr dir
        · rw [heq] at hcell' ⊢
          obtain rfl := Option.some.inj (hcell'.symm.trans hnode)
          exact ⟨_, hheapDir, rfl, rfl⟩
        · refine ⟨cell, ?_, rfl, rfl⟩
          rw [hheapOld heq (h.addr_ne_brk (ns.mem_listing.mp hmem).2.1), hcell']
  · exact ⟨dir, by rw [hlistDir]; rfl, by rw [Function.update_of_ne hdirPath]⟩

/-- `addFile` hangs an accepted path into its directory, at the end. -/
theorem addFile_of_accepts {tree : FileTree} {ns : PathTree} {addr : Bytes → Nat}
    (h : Represents tree ns [] addr) {path : Bytes} (metaID : BlockID)
    (haccept : ns.Accepts path) :
    ∃ tree', tree.addFile path metaID = .ok (tree', true) ∧
      Represents tree' (ns.add path metaID haccept) [] (Function.update addr path tree.brk) := by
  obtain ⟨hnew, dir, hdir, hentry⟩ := id haccept
  obtain ⟨node, hderef, hnode, hcell⟩ := h.deref hentry
  have hinsert : ∃ tree', tree.insertChild (addr dir) (getFileName path) path metaID = .ok tree' ∧
      Represents tree' (ns.add path metaID haccept) [] (Function.update addr path tree.brk) := by
    cases hchildren : node.children with
    | some first => exact insertChild_of_some h metaID haccept hdir hnode hcell hchildren
    | none => exact insertChild_of_none h metaID haccept hdir hentry hnode hcell hchildren
  obtain ⟨tree', hrun, hrepr⟩ := hinsert
  refine ⟨tree', ?_, hrepr⟩
  have hfile : node.isFile = false := hcell.isFile
  simp [addFile, searchDir, h.getValue List.not_mem_nil, hnew, hdir, hentry, hderef, hfile, hrun]

end FileTree

end Doopey
