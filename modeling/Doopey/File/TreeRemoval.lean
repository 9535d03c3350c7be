import Doopey.File.NodeRemoval
import Doopey.File.TreeRefinement

/-!
# Unlinking entries of the file tree

`removeNode` works on the first entry of a directory that was added while the
directory was empty: the `_parent` of every other cell was never assigned. The
results below say when a removal goes through and that the tree then represents
the namespace without the removed paths.
-/

namespace Doopey

open Foundation Foundation.DoublyLinked

namespace FileTree

variable {tree : FileTree} {ns : PathTree} {hidden : List Bytes} {addr : Bytes → Nat}

/-- Forget a key. -/
def dropKey (tree : FileTree) (path : Bytes) : FileTree :=
  { tree with fileMap := tree.fileMap.erase path }

/-- `node` is the cell that the table holds for `path`, the key is near the front
of its chain, and the `_parent` of the cell was assigned. -/
structure Detachable (tree : FileTree) (path : Bytes) (node : TreeNode) : Prop where
  near : tree.fileMap.Near path
  cell : ∃ address, tree.fileMap.getValue path = some address ∧ tree.heap address = some node
  parent : node.parent.isSome

/-- Removing `path` only unlinks detachable cells: `path` has no children, or it
has a single one, which can be removed in turn, and no sibling behind it. -/
inductive Removable : FileTree → Bytes → Prop
  | leaf {tree : FileTree} {path : Bytes} {node : TreeNode}
      (hdetach : tree.Detachable path node) (hchildren : node.children = none) :
      Removable tree path
  | only {tree : FileTree} {path : Bytes} {node child : TreeNode} {first : Nat}
      (hdetach : tree.Detachable path node) (hnext : node.next = none)
      (hchildren : node.children = some first) (hchild : tree.heap first = some child)
      (hsingle : child.next = none)
      (hinner : Removable (tree.dropKey path) (path ++ slash :: child.name)) :
      Removable tree path

/-- No cell is added, and the forward and parent links of the cells that are
left do not change. -/
def LinksKept (tree tree' : FileTree) : Prop :=
  ∀ address node', tree'.heap address = some node' →
    ∃ node, tree.heap address = some node ∧ node'.next = node.next ∧ node'.parent = node.parent

theorem LinksKept.trans {tree₁ tree₂ tree₃ : FileTree} (h₁ : LinksKept tree₁ tree₂)
    (h₂ : LinksKept tree₂ tree₃) : LinksKept tree₁ tree₃ := by
  intro address node₃ hnode₃
  obtain ⟨node₂, hnode₂, hnext₂, hparent₂⟩ := h₂ address node₃ hnode₃
  obtain ⟨node₁, hnode₁, hnext₁, hparent₁⟩ := h₁ address node₂ hnode₂
  exact ⟨node₁, hnode₁, hnext₂.trans hnext₁, hparent₂.trans hparent₁⟩

/-- A path whose cell has an assigned `_parent` is the first entry of its directory. -/
theorem CellOf.exists_head {heap : Nat → Option TreeNode} {path : Bytes} {id : BlockID}
    {node : TreeNode} (hcell : CellOf heap ns addr path id node) (hparent : node.parent.isSome) :
    ∃ dir rest, ns.listing dir = path :: rest ∧ node.parent = some (addr dir) := by
  rcases hcell.parent with hnone | ⟨dir, hhead, heq⟩
  · rw [hnone] at hparent
    exact absurd hparent (by simp)
  · obtain ⟨rest, hrest⟩ := List.head?_eq_some_iff.mp hhead
    exact ⟨dir, rest, hrest, heq⟩

/-- No path is its own directory. -/
theorem dirOf_ne_self {path dir : Bytes} (hdir : dirOf path = some dir) (hroot : path ≠ rootPath) :
    dir ≠ path := by
  rintro rfl
  exact Nat.lt_irrefl _ (length_dirOf_lt hdir hroot)

/-- Dropping a key from the table hides its path. -/
theorem Represents.dropKey (h : Represents tree ns hidden addr) (path : Bytes) :
    Represents (tree.dropKey path) ns (path :: hidden) addr := by
  refine ⟨HashList.wf_erase h.wf path, ?_, h.root, h.addr_inj, h.addr_lt, h.cell⟩
  intro path'
  rw [FileTree.dropKey, HashList.lookup_erase, h.lookup]
  by_cases heq : path' = path <;> simp [heq]

/-- The links of the first entry of a directory. -/
theorem Represents.head_links {path dir : Bytes} {rest : List Bytes}
    (h : Represents tree ns hidden addr) (hlist : ns.listing dir = path :: rest)
    {node : TreeNode} (hnode : tree.heap (addr path) = some node) :
    node.last = none ∧ node.next = rest.head?.map addr := by
  have hmem : path ∈ ns.listing dir := by rw [hlist]; exact List.mem_cons_self
  obtain ⟨_, _, hcell⟩ := h.cell (ns.entry_of_mem_listing hmem)
  have hchain := hcell.children
  rw [hlist, List.map_cons] at hchain
  obtain ⟨_, node', hnode', hlast, hrest⟩ := hchain
  obtain rfl := Option.some.inj (hnode'.symm.trans hnode)
  refine ⟨hlast, ?_⟩
  cases rest with
  | nil => exact hrest
  | cons second rest => exact hrest.1

/-- Unlinking a cell without a sibling in front of it keeps the forward and parent links. -/
theorem linksKept_removeNode {tree' : FileTree} {tn : Nat} {node : TreeNode}
    (hnode : tree.heap tn = some node) (hlast : node.last = none)
    (hrun : tree.removeNode tn = .ok tree') : LinksKept tree tree' := by
  obtain ⟨-, node', parent, hnode', -, hheap⟩ := removeNode_spec hrun
  obtain rfl := Option.some.inj (hnode.symm.trans hnode')
  intro address cell hcell
  rw [hheap] at hcell
  split at hcell
  next => exact absurd hcell (by simp)
  next =>
    obtain ⟨old, hold, rfl⟩ := Option.map_eq_some_iff.mp hcell
    have hnot : node.last ≠ some address := by simp [hlast]
    exact ⟨old, hold, by rw [relink, if_neg hnot], rfl⟩

/-- `path` is the first entry of `dir`, `rest` are the entries behind it, and `heap'`
is the heap once the cell of `path` is unlinked. -/
structure Unlinks (tree : FileTree) (ns : PathTree) (addr : Bytes → Nat) (dir path : Bytes)
    (rest : List Bytes) (node : TreeNode) (heap' : Nat → Option TreeNode) : Prop where
  listing : ns.listing dir = path :: rest
  cell : tree.heap (addr path) = some node
  heap (address : Nat) : heap' address = if address = addr path then none else
    (tree.heap address).map (relink node (addr path) (addr dir) address)

namespace Unlinks

variable {dir path : Bytes} {rest : List Bytes} {node : TreeNode} {heap' : Nat → Option TreeNode}

theorem mem_listing (hunlinks : Unlinks tree ns addr dir path rest node heap') :
    path ∈ ns.listing dir := by
  rw [hunlinks.listing]
  exact List.mem_cons_self

theorem mem_listing_of_mem (hunlinks : Unlinks tree ns addr dir path rest node heap')
    {entry : Bytes} (hentry : entry ∈ rest) : entry ∈ ns.listing dir := by
  rw [hunlinks.listing]
  exact List.mem_cons_of_mem _ hentry

theorem not_mem_rest (hunlinks : Unlinks tree ns addr dir path rest node heap') : path ∉ rest := by
  have hnodup := ns.listing_nodup dir
  rw [hunlinks.listing] at hnodup
  exact (List.nodup_cons.mp hnodup).1

/-- No sibling is in front of the cell, so no forward link changes. -/
theorem next_eq (hunlinks : Unlinks tree ns addr dir path rest node heap')
    (h : Represents tree ns (path :: hidden) addr) (address : Nat) (old : TreeNode) :
    (relink node (addr path) (addr dir) address old).next = old.next := by
  have hnot : node.last ≠ some address := by
    simp [(h.head_links hunlinks.listing hunlinks.cell).1]
  exact if_neg hnot

theorem heap_of_ne (hunlinks : Unlinks tree ns addr dir path rest node heap')
    (h : Represents tree ns (path :: hidden) addr) {path' : Bytes} (hne : path' ≠ path)
    (hentry : ns.entry path' ≠ none) {old : TreeNode} (hold : tree.heap (addr path') = some old) :
    heap' (addr path') = some (relink node (addr path) (addr dir) (addr path') old) := by
  have hbound := (ns.mem_listing.mp hunlinks.mem_listing).2.1
  rw [hunlinks.heap, if_neg fun heq => hne (h.addr_inj hentry hbound heq), hold, Option.map_some]

/-- The backward link of a cell changes only at the second entry of `dir`. -/
theorem links (hunlinks : Unlinks tree ns addr dir path rest node heap')
    (h : Represents tree ns (path :: hidden) addr) {listed entry : Bytes}
    (hmem : entry ∈ ns.listing listed) (hne : entry ≠ path) (hsecond : rest.head? ≠ some entry) :
    ∀ cell, tree.heap (addr entry) = some cell → ∃ cell', heap' (addr entry) = some cell' ∧
      cell'.next = cell.next ∧ cell'.last = cell.last := by
  intro cell hcell
  have hentry := (ns.mem_listing.mp hmem).2.1
  refine ⟨_, hunlinks.heap_of_ne h hne hentry hcell, hunlinks.next_eq h _ _, if_neg ?_⟩
  rw [(h.head_links hunlinks.listing hunlinks.cell).2]
  intro heq
  obtain ⟨second, hhead, haddr⟩ := Option.map_eq_some_iff.mp heq
  have hsecondMem := hunlinks.mem_listing_of_mem (List.mem_of_mem_head? hhead)
  obtain rfl := h.addr_inj (ns.mem_listing.mp hsecondMem).2.1 hentry haddr
  exact hsecond hhead

/-- The chain of the directory loses its first cell. -/
theorem chain_rest (hunlinks : Unlinks tree ns addr dir path rest node heap')
    (h : Represents tree ns (path :: hidden) addr) {first : Option Nat}
    (hchain : Chain TreeNode.next TreeNode.last tree.heap none first
      (addr path :: rest.map addr)) :
    Chain TreeNode.next TreeNode.last heap' none node.next (rest.map addr) := by
  obtain ⟨hlast, hnext⟩ := h.head_links hunlinks.listing hunlinks.cell
  have hother {entry : Bytes} (hentryRest : entry ∈ rest) : entry ≠ path :=
    fun heq => hunlinks.not_mem_rest (heq ▸ hentryRest)
  refine hchain.tail hunlinks.cell ?_ ?_
  · intro address haddress cell hcell
    rw [List.head?_map] at haddress
    obtain ⟨second, hhead, rfl⟩ := Option.map_eq_some_iff.mp haddress
    have hsecondMem := List.mem_of_mem_head? hhead
    have hbound := (ns.mem_listing.mp (hunlinks.mem_listing_of_mem hsecondMem)).2.1
    refine ⟨_, hunlinks.heap_of_ne h (hother hsecondMem) hbound hcell, hunlinks.next_eq h _ _, ?_⟩
    exact (if_pos (hnext.trans haddress)).trans hlast
  · intro address haddress cell hcell
    rw [← List.map_tail] at haddress
    obtain ⟨entry, hentryMem, rfl⟩ := List.mem_map.mp haddress
    have hentryRest := List.mem_of_mem_tail hentryMem
    refine hunlinks.links h (hunlinks.mem_listing_of_mem hentryRest) (hother hentryRest) ?_ cell
      hcell
    cases rest with
    | nil => exact absurd hentryMem List.not_mem_nil
    | cons second rest =>
        have hnodup := ns.listing_nodup dir
        rw [hunlinks.listing] at hnodup
        intro heq
        obtain rfl := Option.some.inj heq
        exact (List.nodup_cons.mp (List.nodup_cons.mp hnodup).2).1 hentryMem

/-- No cell of any other chain is unlinked, or was linked to one that is. -/
theorem chain_other (hunlinks : Unlinks tree ns addr dir path rest node heap')
    (h : Represents tree ns (path :: hidden) addr) {listed : Bytes} (hne : listed ≠ dir)
    {first : Option Nat}
    (hchain : Chain TreeNode.next TreeNode.last tree.heap none first
      ((ns.listing listed).map addr)) :
    Chain TreeNode.next TreeNode.last heap' none first ((ns.listing listed).map addr) := by
  refine hchain.congr fun address haddress cell hcell => ?_
  obtain ⟨entry, hentryMem, rfl⟩ := List.mem_map.mp haddress
  refine hunlinks.links h hentryMem ?_ ?_ cell hcell
  · rintro rfl
    exact hne (ns.listing_unique hentryMem hunlinks.mem_listing)
  · intro hsecond
    have hmem := hunlinks.mem_listing_of_mem (List.mem_of_mem_head? hsecond)
    exact hne (ns.listing_unique hentryMem hmem)

/-- What is left of the cell of another path. -/
theorem cellOf (hunlinks : Unlinks tree ns addr dir path rest node heap')
    (h : Represents tree ns (path :: hidden) addr) (hleaf : ns.listing path = [])
    (hroot : path ≠ rootPath) {path' : Bytes} {id : BlockID} {old : TreeNode}
    (hne : path' ≠ path) (hentry : ns.entry path' ≠ none)
    (hold : CellOf tree.heap ns addr path' id old) :
    CellOf heap' (ns.remove path hroot hleaf) addr path' id
      (relink node (addr path) (addr dir) (addr path') old) := by
  have hmem := hunlinks.mem_listing
  refine ⟨hold.isFile, hold.metaID, hold.name, ?_, ?_, ?_⟩
  · by_cases hpathDir : path' = dir
    · subst hpathDir
      have hchain := hold.children
      rw [hunlinks.listing, List.map_cons] at hchain
      have hchildren : (relink node (addr path) (addr path') (addr path') old).children =
          node.next := if_pos ⟨rfl, hchain.1⟩
      rw [ns.listing_remove_of_eq_cons hroot hleaf hunlinks.listing, hchildren]
      exact hunlinks.chain_rest h hchain
    · have hnot : path ∉ ns.listing path' :=
        fun hmem' => hpathDir (ns.listing_unique hmem' hmem)
      have hdirEntry : ns.entry dir ≠ none := by rw [ns.entry_of_mem_listing hmem]; simp
      have hchildren : (relink node (addr path) (addr dir) (addr path') old).children =
          old.children := if_neg fun hcase => hpathDir (h.addr_inj hentry hdirEntry hcase.1)
      rw [ns.listing_remove_of_not_mem hroot hleaf hnot, hchildren]
      exact hunlinks.chain_other h hpathDir hold.children
  · refine hold.parent.imp_right ?_
    rintro ⟨above, hhead, hparent⟩
    refine ⟨above, ?_, hparent⟩
    rw [ns.listing_remove_of_not_mem hroot hleaf, hhead]
    intro hmem'
    rw [ns.listing_unique hmem' hmem, hunlinks.listing] at hhead
    exact hne (Option.some.inj hhead).symm
  · intro hpathRoot
    obtain ⟨hnone, hnone'⟩ := hold.root_links hpathRoot
    refine ⟨(hunlinks.next_eq h _ _).trans hnone, ?_⟩
    rw [relink]
    dsimp only
    split
    next => exact (h.head_links hunlinks.listing hunlinks.cell).1
    next => exact hnone'

end Unlinks

/-- A heap without the cell of `path`, in which its directory and its successor
are relinked, represents the namespace without `path`. -/
theorem Represents.remove {path dir : Bytes} {rest : List Bytes}
    (h : Represents tree ns (path :: hidden) addr) (hleaf : ns.listing path = [])
    (hroot : path ≠ rootPath) {node : TreeNode} {heap' : Nat → Option TreeNode}
    (hunlinks : Unlinks tree ns addr dir path rest node heap') :
    Represents { tree with heap := heap' } (ns.remove path hroot hleaf) hidden addr := by
  have hbound {path' : Bytes} (hentry : (ns.remove path hroot hleaf).entry path' ≠ none) :
      path' ≠ path ∧ ns.entry path' ≠ none := by
    rw [ns.entry_remove] at hentry
    split at hentry
    next => exact absurd rfl hentry
    next hne => exact ⟨hne, hentry⟩
  refine ⟨h.wf, ?_, h.root, ?_, ?_, ?_⟩
  · intro path'
    rw [h.lookup, ns.entry_remove]
    by_cases heq : path' = path <;> simp [heq]
  · exact fun hfirst hsecond heq => h.addr_inj (hbound hfirst).2 (hbound hsecond).2 heq
  · exact fun hentry => h.addr_lt (hbound hentry).2
  · intro path' id' hentry'
    obtain ⟨hne, hentry⟩ := @hbound path' (by rw [hentry']; simp)
    rw [ns.entry_remove, if_neg hne] at hentry'
    obtain ⟨old, hold, holdCell⟩ := h.cell hentry'
    exact ⟨_, hunlinks.heap_of_ne h hne hentry hold,
      hunlinks.cellOf h hleaf hroot hne hentry holdCell⟩

/-- Unlinking the first entry of a directory, once it has no entries itself and
its key is gone from the table. -/
theorem removeNode_of_head {path dir : Bytes} {rest : List Bytes}
    (h : Represents tree ns (path :: hidden) addr) (hleaf : ns.listing path = [])
    (hlist : ns.listing dir = path :: rest) (hroot : path ≠ rootPath) {node : TreeNode}
    (hnode : tree.heap (addr path) = some node) (hparent : node.parent = some (addr dir)) :
    ∃ tree', tree.removeNode (addr path) = .ok tree' ∧
      Represents tree' (ns.remove path hroot hleaf) hidden addr ∧ LinksKept tree tree' := by
  have hmem : path ∈ ns.listing dir := by rw [hlist]; exact List.mem_cons_self
  obtain ⟨hlast, hnext⟩ := h.head_links hlist hnode
  have hlive {path' : Bytes} (hbound : ns.entry path' ≠ none) : (tree.heap (addr path')).isSome := by
    obtain ⟨id, hid⟩ := Option.ne_none_iff_exists'.mp hbound
    obtain ⟨cell, hcell, -⟩ := h.cell hid
    exact Option.isSome_iff_exists.mpr ⟨cell, hcell⟩
  have hlinks : ∀ link, node.last = some link ∨ node.next = some link ∨ addr dir = link →
      (tree.heap link).isSome := by
    rintro link (hlink | hlink | rfl)
    · exact absurd (hlast.symm.trans hlink) (by simp)
    · obtain ⟨second, hhead, rfl⟩ := Option.map_eq_some_iff.mp (hnext.symm.trans hlink)
      have hsecondMem : second ∈ ns.listing dir := by
        rw [hlist]
        exact List.mem_cons_of_mem _ (List.mem_of_mem_head? hhead)
      exact hlive (ns.mem_listing.mp hsecondMem).2.1
    · exact hlive (by rw [ns.entry_of_mem_listing hmem]; simp)
  obtain ⟨tree', hrun⟩ := (exists_removeNode_iff hnode).mpr ⟨addr dir, hparent, hlinks⟩
  obtain ⟨-, node', parent, hnode', hparent', hheap⟩ := removeNode_spec hrun
  obtain rfl := Option.some.inj (hnode.symm.trans hnode')
  obtain rfl := Option.some.inj (hparent.symm.trans hparent')
  refine ⟨tree', hrun, ?_, linksKept_removeNode hnode hlast hrun⟩
  rw [removeNode_eq hrun]
  exact h.remove hleaf hroot ⟨hlist, hnode, hheap⟩

/-! ## Removing files and directories -/

/-- The table still has the key of a detachable path. -/
theorem Represents.visible (h : Represents tree ns hidden addr) {path : Bytes} {node : TreeNode}
    (hdetach : tree.Detachable path node) : path ∉ hidden := by
  obtain ⟨address, hvalue, -⟩ := hdetach.cell
  intro hmem
  rw [HashList.getValue, h.lookup, if_pos hmem] at hvalue
  exact absurd hvalue (by simp)

/-- The cell a detachable path is bound to, as the namespace sees it. -/
theorem Represents.of_detachable (h : Represents tree ns hidden addr) {path : Bytes}
    {node : TreeNode} (hdetach : tree.Detachable path node) :
    ∃ id dir rest, ns.entry path = some id ∧ tree.heap (addr path) = some node ∧
      CellOf tree.heap ns addr path id node ∧ path ≠ rootPath ∧
      ns.listing dir = path :: rest ∧ node.parent = some (addr dir) := by
  obtain ⟨address, hvalue, hnode⟩ := hdetach.cell
  rw [h.getValue (h.visible hdetach)] at hvalue
  obtain ⟨id, hentry, rfl⟩ := Option.map_eq_some_iff.mp hvalue
  obtain ⟨node', hnode', hcell⟩ := h.cell hentry
  obtain rfl := Option.some.inj (hnode'.symm.trans hnode)
  obtain ⟨dir, rest, hlist, hparent⟩ := hcell.exists_head hdetach.parent
  have hmem : path ∈ ns.listing dir := by rw [hlist]; exact List.mem_cons_self
  exact ⟨id, dir, rest, hentry, hnode, hcell, (ns.mem_listing.mp hmem).1, hlist, hparent⟩

/-- The path starts with `above` and a slash. -/
def Below (above path : Bytes) : Prop := (above ++ [slash]) <+: path

instance (above path : Bytes) : Decidable (Below above path) :=
  inferInstanceAs (Decidable (_ <+: _))

/-- The path of an entry below a directory other than the root. -/
theorem eq_append_of_dirOf {path dir : Bytes} (hdir : dirOf path = some dir)
    (hroot : dir ≠ rootPath) : path = dir ++ slash :: getFileName path := by
  obtain ⟨pre, name, rfl, hname, rfl⟩ := dirOf_eq_some_iff.mp hdir
  rw [getFileName_split pre hname]
  unfold dirKey at hroot ⊢
  split at hroot
  next => exact absurd rfl hroot
  next hpre => rw [if_neg hpre]

theorem Below.trans {above middle path : Bytes} (h : Below above middle) (h' : Below middle path) :
    Below above path := by
  unfold Below at h h' ⊢
  exact (h.trans (List.prefix_append middle [slash])).trans h'

theorem Below.length_lt {above path : Bytes} (h : Below above path) :
    above.length < path.length := by
  have hle := List.IsPrefix.length_le h
  rwa [List.length_append, List.length_singleton] at hle

theorem below_append (path name : Bytes) : Below path (path ++ slash :: name) :=
  ⟨name, by rw [List.append_assoc, List.singleton_append]⟩

theorem below_of_dirOf {path dir : Bytes} (hdir : dirOf path = some dir)
    (hroot : dir ≠ rootPath) : Below dir path := by
  rw [eq_append_of_dirOf hdir hroot]
  exact below_append dir _

/-- A directory is not below its entries. -/
theorem not_below_of_dirOf {path dir : Bytes} (hdir : dirOf path = some dir)
    (hroot : path ≠ rootPath) : ¬ (dir = path ∨ Below path dir) := by
  have hlt := length_dirOf_lt hdir hroot
  rintro (rfl | hbelow)
  · exact Nat.lt_irrefl _ hlt
  · exact Nat.lt_asymm hlt hbelow.length_lt

/-- What is below a path lies in it or in a directory below it. -/
theorem below_dirOf {above path dir : Bytes} (hne : above ≠ []) (hbelow : Below above path)
    (hdir : dirOf path = some dir) : dir = above ∨ Below above dir := by
  obtain ⟨pre, name, rfl, hname, rfl⟩ := dirOf_eq_some_iff.mp hdir
  obtain ⟨rest, hrest⟩ := hbelow
  rw [List.append_assoc, List.singleton_append] at hrest
  have hpre : pre = above ∨ Below above pre := by
    rcases List.append_eq_append_iff.mp hrest with ⟨mid, hpre, hmid⟩ | ⟨mid, habove, hmid⟩
    · cases mid with
      | nil => exact Or.inl (by rw [hpre, List.append_nil])
      | cons b mid =>
          obtain ⟨rfl, -⟩ := List.cons_eq_cons.mp hmid
          exact Or.inr ⟨mid, by rw [hpre]; simp⟩
    · cases mid with
      | nil => exact Or.inl (by rw [habove, List.append_nil])
      | cons b mid =>
          -- the name would have the slash in front of `rest`
          obtain rfl : name = mid ++ slash :: rest := (List.cons_eq_cons.mp hmid).2
          exact absurd (List.mem_append_right mid List.mem_cons_self) hname
  have hpreNe : pre ≠ [] := by
    rintro rfl
    rcases hpre with heq | hbelow
    · exact hne heq.symm
    · exact Nat.not_lt_zero _ hbelow.length_lt
  rwa [dirKey, if_neg hpreNe]

/-- Every bound path below another one is, or is below, one of its entries. -/
theorem exists_mem_listing_of_below (ns : PathTree) {above : Bytes} (hne : above ≠ [])
    (path : Bytes) (hbound : ns.entry path ≠ none) (hbelow : Below above path) :
    ∃ entry ∈ ns.listing above, path = entry ∨ Below entry path := by
  have hlong {path : Bytes} (hbelow : Below above path) : path ≠ rootPath := by
    rintro rfl
    have hpos := List.length_pos_iff.mpr hne
    exact absurd hbelow.length_lt (Nat.not_lt.mpr hpos)
  have hroot := hlong hbelow
  obtain ⟨dir, hdir, hdirEntry⟩ := ns.exists_parent hbound hroot
  rcases below_dirOf hne hbelow hdir with rfl | hinner
  · exact ⟨path, ns.mem_listing.mpr ⟨hroot, hbound, hdir⟩, Or.inl rfl⟩
  · have hlt := length_dirOf_lt hdir hroot
    have hlast : Below dir path := below_of_dirOf hdir (hlong hinner)
    obtain ⟨entry, hmem, hentry⟩ :=
      exists_mem_listing_of_below ns hne dir (by rw [hdirEntry]; simp) hinner
    refine ⟨entry, hmem, Or.inr ?_⟩
    rcases hentry with rfl | hentry
    · exact hlast
    · exact hentry.trans hlast
termination_by path.length

/-- `ns'` binds what `ns` binds, without `path` and everything below it. -/
def Without (ns' ns : PathTree) (path : Bytes) : Prop :=
  ∀ path', ns'.entry path' =
    if path' = path ∨ Below path path' then none else ns.entry path'

theorem without_remove {path : Bytes} (hpath : path ≠ []) (hroot : path ≠ rootPath)
    (hleaf : ns.listing path = []) : Without (ns.remove path hroot hleaf) ns path := by
  intro path'
  rw [ns.entry_remove]
  by_cases heq : path' = path
  · simp [heq]
  · by_cases hbelow : Below path path'
    · rw [if_neg heq, if_pos (Or.inr hbelow)]
      by_contra hbound
      obtain ⟨entry, hmem, -⟩ := exists_mem_listing_of_below ns hpath path' hbound hbelow
      simp [hleaf] at hmem
    · rw [if_neg heq, if_neg (not_or.mpr ⟨heq, hbelow⟩)]

/-- What is left keeps its values and its order. -/
structure Pruned (ns' ns : PathTree) (path : Bytes) : Prop where
  without : Without ns' ns path
  listing (above : Bytes) : ns'.listing above =
    (ns.listing above).filter fun path' => ¬ (path' = path ∨ Below path path')

/-- The listings after the removal of a path below which there is nothing else. -/
theorem pruned_remove {path : Bytes} (hpath : path ≠ []) (hroot : path ≠ rootPath)
    (hleaf : ns.listing path = []) : Pruned (ns.remove path hroot hleaf) ns path where
  without := without_remove hpath hroot hleaf
  listing above := by
    rw [ns.listing_remove]
    apply List.filter_congr
    intro path' hmem
    have hbelow : ¬ Below path path' := by
      intro hbelow
      obtain ⟨entry, hentry, -⟩ :=
        exists_mem_listing_of_below ns hpath path' (ns.mem_listing.mp hmem).2.1 hbelow
      rw [hleaf] at hentry
      exact List.not_mem_nil hentry
    simp [hbelow]

/-- A path without a slash is never bound, the empty one included. -/
theorem ne_nil_of_entry (ns : PathTree) {path : Bytes} (hentry : ns.entry path ≠ none) : path ≠ [] := by
  rintro rfl
  obtain ⟨dir, hdir, -⟩ := ns.exists_parent hentry (by decide)
  simp [dirOf, findLastOf] at hdir

/-- Removing a directory after its only entry removes all that is below it. -/
theorem Without.remove {ns₁ : PathTree} {path key : Bytes} (h : Without ns₁ ns key)
    (hpath : path ≠ []) (hlist : ns.listing path = [key]) (hbelow : Below path key)
    (hroot : path ≠ rootPath) (hleaf : ns₁.listing path = []) :
    Without (ns₁.remove path hroot hleaf) ns path := by
  intro path'
  rw [ns₁.entry_remove, h]
  by_cases heq : path' = path
  · simp [heq]
  rw [if_neg heq]
  by_cases hunder : Below path path'
  · rw [if_pos (Or.inr hunder)]
    split
    next => rfl
    next hnot =>
      by_contra hbound
      obtain ⟨entry, hmem, hentry⟩ := exists_mem_listing_of_below ns hpath path' hbound hunder
      rw [hlist, List.mem_singleton] at hmem
      exact hnot (hmem ▸ hentry)
  · rw [if_neg (not_or.mpr ⟨heq, hunder⟩), if_neg]
    rintro (rfl | hkey)
    · exact hunder hbelow
    · exact hunder (hbelow.trans hkey)

/-- The listings after the removal of a directory and of its only entry. -/
theorem Pruned.remove {ns₁ : PathTree} {path key : Bytes} (h : Pruned ns₁ ns key)
    (hpath : path ≠ []) (hlist : ns.listing path = [key]) (hbelow : Below path key)
    (hroot : path ≠ rootPath) (hleaf : ns₁.listing path = []) :
    Pruned (ns₁.remove path hroot hleaf) ns path where
  without := h.without.remove hpath hlist hbelow hroot hleaf
  listing above := by
    rw [ns₁.listing_remove, h.listing, List.filter_filter]
    apply List.filter_congr
    intro path' hmem
    have hiff : Below path path' ↔ path' = key ∨ Below key path' := by
      constructor
      · intro hunder
        obtain ⟨entry, hentry, hcase⟩ :=
          exists_mem_listing_of_below ns hpath path' (ns.mem_listing.mp hmem).2.1 hunder
        rw [hlist, List.mem_singleton] at hentry
        exact hentry ▸ hcase
      · rintro (rfl | hunder)
        · exact hbelow
        · exact hbelow.trans hunder
    simp [hiff]

/-- `removeFile` leaves everything but files alone. -/
theorem removeFile_of_not_file (h : Represents tree ns hidden addr) {path : Bytes}
    (hvisible : path ∉ hidden) (hfile : ns.entry path = none ∨ ns.entry path = some 0) :
    tree.removeFile path = .ok (tree, false) := by
  unfold removeFile
  rw [h.getValue hvisible]
  rcases hfile with hnone | hdir
  · simp [hnone]
  · obtain ⟨node, hderef, -, hcell⟩ := h.deref hdir
    have hnode : node.isFile = false := hcell.isFile
    simp [hdir, hderef, hnode]

/-- `removeFile` removes a file whose cell can be unlinked. -/
theorem removeFile_of_detachable (h : Represents tree ns hidden addr) {path : Bytes}
    {node : TreeNode} (hdetach : tree.Detachable path node)
    {id : BlockID} (hentry : ns.entry path = some id) (hid : id ≠ 0) :
    ∃ tree' ns', tree.removeFile path = .ok (tree', true) ∧ Represents tree' ns' hidden addr ∧
      LinksKept tree tree' ∧ Pruned ns' ns path := by
  obtain ⟨id', dir, rest, hentry', hnode, hcell, hroot, hlist, hparent⟩ :=
    h.of_detachable hdetach
  obtain rfl := Option.some.inj (hentry'.symm.trans hentry)
  have hleaf : ns.listing path = [] := ns.listing_eq_nil (by rw [hentry]; simpa using hid)
  obtain ⟨tree', hrun, hrepr, hkept⟩ :=
    removeNode_of_head (h.dropKey path) hleaf hlist hroot hnode hparent
  refine ⟨tree', ns.remove path hroot hleaf, ?_, hrepr, hkept,
    pruned_remove (ne_nil_of_entry ns (by simp [hentry])) hroot hleaf⟩
  have hderef : tree.deref (addr path) = .ok node := by simp [FileTree.deref, hnode]
  have hfile : node.isFile = true := by simpa [hcell.isFile] using hid
  have hremove := HashList.remove_of_near h.wf hdetach.near
  rw [FileTree.dropKey] at hrun
  simp [removeFile, h.getValue (h.visible hdetach), hentry, hderef, hfile, hremove, hrun]

/-- `removeDir` leaves everything but directories alone. -/
theorem removeDir_of_not_dir (h : Represents tree ns hidden addr) {path : Bytes}
    (hvisible : path ∉ hidden) (hdir : ns.entry path ≠ some 0) (fuel : Nat) :
    removeDir (fuel + 1) tree path = .ok (tree, false) := by
  rw [removeDir, h.getValue hvisible]
  cases hentry : ns.entry path with
  | none => simp
  | some id =>
      obtain ⟨node, hderef, -, hcell⟩ := h.deref hentry
      have hfile : node.isFile = true := by
        rw [hcell.isFile, decide_eq_true_eq]
        rintro rfl
        exact hdir hentry
      simp [hderef, hfile]

/-- A call of `removeDir` that got past its checks. -/
theorem removeDir_of_dir (h : Represents tree ns hidden addr) {path : Bytes}
    {node : TreeNode} (hdetach : tree.Detachable path node)
    (hentry : ns.entry path = some 0) {fuel : Nat} {tree₁ tree₂ : FileTree}
    (hloop : removeChildren fuel (tree.dropKey path) path (addr path) node.children = .ok tree₁)
    (hnode : tree₁.removeNode (addr path) = .ok tree₂) :
    removeDir (fuel + 1) tree path = .ok (tree₂, true) := by
  obtain ⟨node', hderef, hheap, hcell⟩ := h.deref hentry
  obtain ⟨-, -, -, -, hheap', -⟩ := h.of_detachable hdetach
  obtain rfl := Option.some.inj (hheap'.symm.trans hheap)
  have hfile : node.isFile = false := hcell.isFile
  have hremove := HashList.remove_of_near h.wf hdetach.near
  rw [FileTree.dropKey] at hloop
  rw [removeDir]
  simp [h.getValue (h.visible hdetach), hentry, hderef, hfile, hremove, hloop, hnode]

/-- The first entry of a directory, seen from its cell. -/
theorem Represents.first_entry (h : Represents tree ns hidden addr) {path : Bytes} {id : BlockID}
    {node child : TreeNode} {first : Nat} (hroot : path ≠ rootPath)
    (hcell : CellOf tree.heap ns addr path id node) (hchildren : node.children = some first)
    (hchild : tree.heap first = some child) :
    ∃ rest, ns.listing path = (path ++ slash :: child.name) :: rest ∧
      addr (path ++ slash :: child.name) = first := by
  have hchain := hcell.children
  cases hlist : ns.listing path with
  | nil => exact absurd hlist (hcell.listing_ne_nil hchildren)
  | cons key rest =>
      rw [hlist, List.map_cons] at hchain
      obtain rfl : addr key = first := Option.some.inj (hchain.1.symm.trans hchildren)
      have hmem : key ∈ ns.listing path := by rw [hlist]; exact List.mem_cons_self
      obtain ⟨hkeyRoot, hbound, hdir⟩ := ns.mem_listing.mp hmem
      obtain ⟨keyID, hkeyID⟩ := Option.ne_none_iff_exists'.mp hbound
      obtain ⟨child', hchild', hkeyCell⟩ := h.cell hkeyID
      obtain rfl := Option.some.inj (hchild'.symm.trans hchild)
      have hkey : path ++ slash :: child'.name = key := by
        rw [hkeyCell.name, if_neg hkeyRoot]
        exact (eq_append_of_dirOf hdir hroot).symm
      rw [hkey]
      exact ⟨rest, rfl, rfl⟩

/-- The only entry of a directory. -/
theorem Represents.only_entry (h : Represents tree ns hidden addr) {path : Bytes} {id : BlockID}
    {node child : TreeNode} {first : Nat} (hroot : path ≠ rootPath)
    (hcell : CellOf tree.heap ns addr path id node) (hchildren : node.children = some first)
    (hchild : tree.heap first = some child) (hsingle : child.next = none) :
    ns.listing path = [path ++ slash :: child.name] ∧ addr (path ++ slash :: child.name) = first := by
  obtain ⟨rest, hlist, hfirst⟩ := h.first_entry hroot hcell hchildren hchild
  have hnext := (h.head_links hlist (hfirst ▸ hchild)).2
  rw [hsingle] at hnext
  cases rest with
  | nil => exact ⟨hlist, hfirst⟩
  | cons second rest => exact absurd hnext (by simp)

/-- The loop of `removeDir` over a directory with a single entry and without a
sibling behind it. -/
theorem removeChildren_of_only {path : Bytes} {remove first fuel : Nat} (child : TreeNode)
    {node : TreeNode} {tree₁ : FileTree} (hchild : tree.heap first = some child)
    (hrun : (if child.isFile then tree.removeFile (path ++ slash :: child.name)
      else removeDir fuel tree (path ++ slash :: child.name)) = .ok (tree₁, true))
    (hnode : tree₁.heap remove = some node) (hnext : node.next = none) :
    removeChildren (fuel + 2) tree path remove (some first) = .ok tree₁ := by
  have hderef : tree.deref first = .ok child := by simp [FileTree.deref, hchild]
  have hderefNode : tree₁.deref remove = .ok node := by simp [FileTree.deref, hnode]
  have hlast : removeChildren (fuel + 1) tree₁ path remove node.next = .ok tree₁ := by
    rw [hnext, removeChildren]
  rw [removeChildren, hderef, ok_bind]
  dsimp only
  split at hrun
  next hfile => rw [if_pos hfile, hrun, ok_bind, hderefNode, ok_bind, hlast]
  next hdir =>
    rw [if_neg hdir, (removeDir_extends fuel).1 _ _ _ hrun, ok_bind, hderefNode, ok_bind, hlast]

/-- Removing a path whose cells can be unlinked one after the other goes through
and leaves a tree without the path. -/
theorem remove_of_removable {path : Bytes} (hremovable : Removable tree path) :
    ∀ {hidden : List Bytes} {ns : PathTree} {addr : Bytes → Nat} {id : BlockID},
      Represents tree ns hidden addr → ns.entry path = some id →
      ∃ fuel tree' ns', (if id ≠ 0 then tree.removeFile path else removeDir fuel tree path) =
          .ok (tree', true) ∧ Represents tree' ns' hidden addr ∧ LinksKept tree tree' ∧
        Pruned ns' ns path := by
  induction hremovable with
  | @leaf tree path node hdetach hchildren =>
      intro hidden ns addr id h hentry
      by_cases hid : id = 0
      · subst hid
        obtain ⟨_, dir, rest, -, hnode, hcell, hroot, hlist, hparent⟩ :=
          h.of_detachable hdetach
        have hleaf : ns.listing path = [] := hcell.listing_eq_nil hchildren
        obtain ⟨tree', hrun, hrepr, hkept⟩ :=
          removeNode_of_head (h.dropKey path) hleaf hlist hroot hnode hparent
        refine ⟨2, tree', ns.remove path hroot hleaf, ?_, hrepr, hkept,
          pruned_remove (ne_nil_of_entry ns (by simp [hentry])) hroot hleaf⟩
        rw [if_neg (by simp)]
        refine removeDir_of_dir h hdetach hentry ?_ hrun
        rw [hchildren, removeChildren]
      · obtain ⟨tree', ns', hrun, hrepr, hkept, hpruned⟩ :=
          removeFile_of_detachable h hdetach hentry hid
        exact ⟨0, tree', ns', by rw [if_pos hid, hrun], hrepr, hkept, hpruned⟩
  | @only tree path node child first hdetach hnext hchildren hchild hsingle hinner ih =>
      intro hidden ns addr id h hentry
      obtain ⟨_, dir, rest, hentry', hnode, hcell, hroot, hlist, hparent⟩ :=
        h.of_detachable hdetach
      obtain rfl := Option.some.inj (hentry'.symm.trans hentry)
      obtain ⟨honly, hfirst⟩ := h.only_entry hroot hcell hchildren hchild hsingle
      set key := path ++ slash :: child.name with hkey
      have hmem : key ∈ ns.listing path := by rw [honly]; exact List.mem_singleton_self _
      have hbelow : Below path key := below_append path child.name
      obtain rfl := Option.some.inj ((ns.entry_of_mem_listing hmem).symm.trans hentry)
      obtain ⟨keyID, hkeyID⟩ := Option.ne_none_iff_exists'.mp (ns.mem_listing.mp hmem).2.1
      have hkeyFile : child.isFile = decide (keyID ≠ 0) := by
        obtain ⟨child', hchild', hkeyCell⟩ := h.cell hkeyID
        rw [hfirst, hchild] at hchild'
        exact Option.some.inj hchild' ▸ hkeyCell.isFile
      -- the entry is removed while the key of the directory is already gone
      obtain ⟨fuel, tree₁, ns₁, hrun, h₁, hkept, hpruned⟩ := ih (h.dropKey path) hkeyID
      have hwithout := hpruned.without
      have hentry₁ : ns₁.entry path = some 0 := by
        rw [hwithout, if_neg, hentry]
        exact not_below_of_dirOf (ns.mem_listing.mp hmem).2.2 (ns.mem_listing.mp hmem).1
      have hleaf₁ : ns₁.listing path = [] := by
        refine List.eq_nil_iff_forall_not_mem.mpr fun path' hmem' => ?_
        obtain ⟨hroot', hbound', hdir'⟩ := ns₁.mem_listing.mp hmem'
        rw [hwithout] at hbound'
        split at hbound'
        next => exact hbound' rfl
        next hnot =>
          have hlisted : path' ∈ ns.listing path := ns.mem_listing.mpr ⟨hroot', hbound', hdir'⟩
          rw [honly, List.mem_singleton] at hlisted
          exact hnot (Or.inl hlisted)
      obtain ⟨node₁, hnode₁, hcell₁⟩ := h₁.cell hentry₁
      obtain ⟨node', hnode', hnext₁, hparent₁⟩ := hkept _ _ hnode₁
      obtain rfl := Option.some.inj (hnode'.symm.trans hnode)
      have hassigned : node₁.parent.isSome := by rw [hparent₁, hparent]; rfl
      obtain ⟨dir₁, rest₁, hlist₁, hparent₁⟩ := hcell₁.exists_head hassigned
      obtain ⟨tree₂, hremove, h₂, hkept₂⟩ :=
        removeNode_of_head h₁ hleaf₁ hlist₁ hroot hnode₁ hparent₁
      refine ⟨fuel + 3, tree₂, ns₁.remove path hroot hleaf₁, ?_, h₂,
        LinksKept.trans (fun address node' hnode' => hkept address node' hnode') hkept₂,
        hpruned.remove (ne_nil_of_entry ns (by simp [hentry])) honly hbelow hroot hleaf₁⟩
      rw [if_neg (by simp)]
      refine removeDir_of_dir h hdetach hentry ?_ hremove
      rw [hchildren]
      refine removeChildren_of_only child hchild ?_ hnode₁ (hnext₁.trans hnext)
      rw [hkeyFile]
      simpa using hrun

end FileTree

end Doopey
