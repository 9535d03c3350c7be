import Doopey.File.TreeRuns

/-!
# The two views of the file tree

The hash table and the linked cells of a `FileTree` are two views of the same
entries. `Sound` says that they agree: every key is the path that `getTotalNode`
prints for a cell it visits, and the other way round.

What is printed for a cell is its path with a single leading slash. Paths that
start with two slashes are accepted in the root directory, and for these the two
views differ.
-/

namespace Doopey

open Foundation Foundation.DoublyLinked

namespace FileTree

/-- Following `_children` and `_next` from the root leads to the cell at an
address; `getTotalNode` has `dir` as its second argument there. -/
inductive Visits (tree : FileTree) : Nat → Bytes → Prop
  | root : Visits tree tree.root []
  | first {address first : Nat} {dir : Bytes} {node : TreeNode} (hvisit : Visits tree address dir)
      (hnode : tree.heap address = some node) (hchildren : node.children = some first) :
      Visits tree first (nextDir (dir ++ node.name))
  | next {address next : Nat} {dir : Bytes} {node : TreeNode} (hvisit : Visits tree address dir)
      (hnode : tree.heap address = some node) (hnext : node.next = some next) :
      Visits tree next dir

/-- Nothing but the root is visited if the root has neither children nor a sibling. -/
theorem Visits.eq_root {tree : FileTree} {address : Nat} {dir : Bytes} {node : TreeNode}
    (hvisit : Visits tree address dir) (hnode : tree.heap tree.root = some node)
    (hchildren : node.children = none) (hnext : node.next = none) : address = tree.root := by
  induction hvisit with
  | root => rfl
  | first _ hnode' hchildren' ih =>
      rw [ih, hnode, Option.some.injEq] at hnode'
      rw [← hnode', hchildren] at hchildren'
      exact absurd hchildren' (by simp)
  | next _ hnode' hnext' ih =>
      rw [ih, hnode, Option.some.injEq] at hnode'
      rw [← hnode', hnext] at hnext'
      exact absurd hnext' (by simp)

/-- The table and the linked cells agree. -/
structure Sound (tree : FileTree) : Prop where
  root : tree.fileMap.lookup rootPath = some (some tree.root)
  visited {key : Bytes} {pointer : Option Nat} : tree.fileMap.lookup key = some pointer →
    ∃ address dir node, pointer = some address ∧ Visits tree address dir ∧
      tree.heap address = some node ∧ dir ++ node.name = key
  bound {address : Nat} {dir : Bytes} : Visits tree address dir →
    ∃ node, tree.heap address = some node ∧
      tree.fileMap.lookup (dir ++ node.name) = some (some address)
  injective {key key' : Bytes} {pointer : Option Nat} :
    tree.fileMap.lookup key = some pointer → tree.fileMap.lookup key' = some pointer → key = key'
  nodup : ∀ i, ((tree.fileMap.list i).map Prod.fst).Nodup

/-! ## Printed paths -/

/-- What `getTotalNode` prints for a path. -/
def printedPath (path : Bytes) : Bytes := slash :: path.dropWhile (· = slash)

/-- The prefix that `getTotalNode` has at the cell of a path. -/
def printDir (path : Bytes) : Bytes :=
  if path = rootPath then [] else
    match dirOf path with
    | some dir => nextDir (printedPath dir)
    | none => []

theorem dropWhile_slash_of_not_mem {name : Bytes} (hname : slash ∉ name) :
    name.dropWhile (· = slash) = name := by
  cases name with
  | nil => rfl
  | cons b name =>
      have hb : b ≠ slash := fun heq => hname (heq ▸ List.mem_cons_self)
      simp [hb]

/-- What is printed for an entry is made up of what is printed for its directory
and of its name. -/
theorem nextDir_append {path dir : Bytes} (hdir : dirOf path = some dir) :
    nextDir (printedPath dir) ++ getFileName path = printedPath path := by
  obtain ⟨pre, name, rfl, hname, rfl⟩ := dirOf_eq_some_iff.mp hdir
  rw [getFileName_split pre hname]
  unfold dirKey nextDir printedPath
  by_cases hpre : pre = []
  · simp [hpre, rootPath, dropWhile_slash_of_not_mem hname]
  · rw [if_neg hpre, List.dropWhile_append]
    by_cases hall : (pre.dropWhile (· = slash)).isEmpty
    · rw [if_pos hall, List.isEmpty_iff.mp hall]
      simp [dropWhile_slash_of_not_mem hname]
    · rw [if_neg hall, if_pos]
      · simp
      · intro heq
        exact hall (by simpa using heq)

/-- Every bound path starts with a slash. -/
theorem exists_slash_of_entry (ns : PathTree) (path : Bytes) (hentry : ns.entry path ≠ none) :
    ∃ rest, path = slash :: rest := by
  by_cases hroot : path = rootPath
  · exact ⟨[], hroot⟩
  obtain ⟨dir, hdir, hdir0⟩ := ns.exists_parent hentry hroot
  have hlt := length_dirOf_lt hdir hroot
  by_cases hdirRoot : dir = rootPath
  · obtain ⟨pre, name, rfl, -, hkey⟩ := dirOf_eq_some_iff.mp hdir
    unfold dirKey at hkey
    split at hkey
    next hpre => exact ⟨name, by rw [hpre]; rfl⟩
    next => exact ⟨slash :: name, by rw [← hkey, hdirRoot]; rfl⟩
  · obtain ⟨rest, hrest⟩ := exists_slash_of_entry ns dir (by simp [hdir0])
    refine ⟨rest ++ slash :: getFileName path, ?_⟩
    rw [← List.cons_append, ← hrest]
    exact eq_append_of_dirOf hdir hdirRoot
termination_by path.length

/-- A path that starts with a slash is printed as it is unless another slash
follows. -/
theorem printedPath_eq_iff {path rest : Bytes} (hpath : path = slash :: rest) :
    printedPath path = path ↔ ¬ [slash, slash] <+: path := by
  subst hpath
  cases rest with
  | nil => decide
  | cons b rest =>
      by_cases hb : b = slash
      · subst hb
        have hlength : (rest.dropWhile (· = slash)).length ≤ rest.length :=
          (List.dropWhile_suffix _).length_le
        have hne : rest.dropWhile (· = slash) ≠ slash :: rest := by
          intro heq
          rw [heq, List.length_cons] at hlength
          omega
        simp [printedPath, hne]
      · simp [printedPath, hb, Ne.symm hb]

section Views

variable {tree : FileTree} {ns : PathTree} {addr : Bytes → Nat}

/-- The prefix at a cell and its name make up what is printed for its path. -/
theorem CellOf.printed {heap : Nat → Option TreeNode} {path : Bytes} {id : BlockID}
    {node : TreeNode} (hcell : CellOf heap ns addr path id node) (hentry : ns.entry path ≠ none) :
    printDir path ++ node.name = printedPath path := by
  unfold printDir
  rw [hcell.name]
  by_cases hroot : path = rootPath
  · simp [hroot, printedPath]
  · obtain ⟨dir, hdir, -⟩ := ns.exists_parent hentry hroot
    rw [if_neg hroot, if_neg hroot, hdir]
    exact nextDir_append hdir

theorem printDir_of_mem_listing {path dir : Bytes} (hmem : path ∈ ns.listing dir) :
    printDir path = nextDir (printedPath dir) := by
  obtain ⟨hroot, -, hdir⟩ := ns.mem_listing.mp hmem
  simp [printDir, hroot, hdir]

/-- Every visited cell is the cell of a bound path. -/
theorem Represents.of_visits (h : Represents tree ns [] addr) {address : Nat} {dir : Bytes}
    (hvisit : Visits tree address dir) :
    ∃ path, ns.entry path ≠ none ∧ addr path = address ∧ printDir path = dir := by
  induction hvisit with
  | root => exact ⟨rootPath, by simp [ns.root_entry], h.root, by simp [printDir]⟩
  | @first address first dir node hvisit hnode hchildren ih =>
      obtain ⟨path, hentry, rfl, rfl⟩ := ih
      obtain ⟨id, hid⟩ := Option.ne_none_iff_exists'.mp hentry
      obtain ⟨node', hnode', hcell⟩ := h.cell hid
      obtain rfl := Option.some.inj (hnode'.symm.trans hnode)
      cases hlist : ns.listing path with
      | nil => exact absurd hlist (hcell.listing_ne_nil hchildren)
      | cons head rest =>
          have hchain := hcell.children
          rw [hlist, List.map_cons] at hchain
          have hmem : head ∈ ns.listing path := by rw [hlist]; exact List.mem_cons_self
          refine ⟨head, (ns.mem_listing.mp hmem).2.1,
            Option.some.inj (hchain.1.symm.trans hchildren), ?_⟩
          rw [printDir_of_mem_listing hmem, hcell.printed hentry]
  | @next address next dir node hvisit hnode hnext ih =>
      obtain ⟨path, hentry, rfl, rfl⟩ := ih
      obtain ⟨id, hid⟩ := Option.ne_none_iff_exists'.mp hentry
      obtain ⟨node', hnode', hcell⟩ := h.cell hid
      obtain rfl := Option.some.inj (hnode'.symm.trans hnode)
      have hroot : path ≠ rootPath := by
        intro heq
        rw [(hcell.root_links heq).1] at hnext
        exact absurd hnext (by simp)
      obtain ⟨above, habove, habove0⟩ := ns.exists_parent hentry hroot
      have hmem : path ∈ ns.listing above := ns.mem_listing.mpr ⟨hroot, hentry, habove⟩
      obtain ⟨_, _, haboveCell⟩ := h.cell habove0
      obtain ⟨after, hafter, rfl⟩ := List.mem_map.mp
        (haboveCell.children.next_mem (List.mem_map_of_mem hmem) hnode hnext)
      refine ⟨after, (ns.mem_listing.mp hafter).2.1, rfl, ?_⟩
      rw [printDir_of_mem_listing hafter, printDir_of_mem_listing hmem]

/-- The cell of every bound path is visited. -/
theorem Represents.visits (h : Represents tree ns [] addr) (path : Bytes)
    (hentry : ns.entry path ≠ none) : Visits tree (addr path) (printDir path) := by
  by_cases hroot : path = rootPath
  · rw [hroot, h.root]
    exact .root
  obtain ⟨dir, hdir, hdir0⟩ := ns.exists_parent hentry hroot
  have hlt := length_dirOf_lt hdir hroot
  have hmem : path ∈ ns.listing dir := ns.mem_listing.mpr ⟨hroot, hentry, hdir⟩
  have habove := h.visits dir (by simp [hdir0])
  obtain ⟨node, hnode, hcell⟩ := h.cell hdir0
  rw [printDir_of_mem_listing hmem]
  refine hcell.children.forall_of_next
    (fun address => Visits tree address (nextDir (printedPath dir)))
    ?_ ?_ (addr path) (List.mem_map_of_mem hmem)
  · intro first hfirst
    have hvisit := habove.first hnode hfirst
    rwa [hcell.printed (by simp [hdir0])] at hvisit
  · exact fun address cell after hvisit hcell hafter => hvisit.next hcell hafter
termination_by path.length

/-- No bound path starts with two slashes. -/
def Plain (ns : PathTree) : Prop :=
  ∀ path, ns.entry path ≠ none → ¬ [slash, slash] <+: path

theorem Plain.printedPath (hplain : Plain ns) {path : Bytes} (hentry : ns.entry path ≠ none) :
    FileTree.printedPath path = path := by
  obtain ⟨rest, hrest⟩ := exists_slash_of_entry ns path hentry
  exact (printedPath_eq_iff hrest).mpr (hplain path hentry)

/-- A tree that represents a plain namespace is sound. -/
theorem Represents.sound (h : Represents tree ns [] addr) (hplain : Plain ns) : Sound tree := by
  have hlookup {key : Bytes} {pointer : Option Nat} (hkey : tree.fileMap.lookup key = some pointer) :
      ns.entry key ≠ none ∧ some (addr key) = pointer := by
    rw [h.lookup, if_neg List.not_mem_nil] at hkey
    obtain ⟨id, hid, hpointer⟩ := Option.map_eq_some_iff.mp hkey
    exact ⟨by simp [hid], hpointer⟩
  refine ⟨?_, ?_, ?_, ?_, h.wf.nodup⟩
  · rw [h.lookup, ns.root_entry, h.root]
    rfl
  · intro key pointer hkey
    obtain ⟨hentry, rfl⟩ := hlookup hkey
    obtain ⟨id, hid⟩ := Option.ne_none_iff_exists'.mp hentry
    obtain ⟨node, hnode, hcell⟩ := h.cell hid
    refine ⟨addr key, printDir key, node, rfl, h.visits key hentry, hnode, ?_⟩
    rw [hcell.printed hentry, hplain.printedPath hentry]
  · intro address dir hvisit
    obtain ⟨path, hentry, rfl, rfl⟩ := h.of_visits hvisit
    obtain ⟨id, hid⟩ := Option.ne_none_iff_exists'.mp hentry
    obtain ⟨node, hnode, hcell⟩ := h.cell hid
    refine ⟨node, hnode, ?_⟩
    rw [hcell.printed hentry, hplain.printedPath hentry, h.lookup, if_neg List.not_mem_nil, hid]
    rfl
  · intro key key' pointer hkey hkey'
    obtain ⟨hentry, rfl⟩ := hlookup hkey
    obtain ⟨hentry', heq⟩ := hlookup hkey'
    exact h.addr_inj hentry hentry' (Option.some.inj heq).symm

end Views

end FileTree

/-! ## Runs that keep the views together -/

namespace TreeOp

/-- The call does not put a name behind two leading slashes into the root. -/
def KeepsPlain : TreeOp → Prop
  | addFile path _ | addDir path => dirOf path = some rootPath → ¬ [slash, slash] <+: path
  | removeFile _ | removeDir _ => True

/-- The call neither adds a path that is printed as another one nor unlinks what
it cannot unlink. -/
def Safe (tree : FileTree) (op : TreeOp) : Prop := op.KeepsPlain ∧ op.Unlinks tree

end TreeOp

namespace FileTree

theorem plain_add {ns : PathTree} (hplain : Plain ns) {path : Bytes} (metaID : BlockID)
    (haccept : ns.Accepts path) (hkeeps : dirOf path = some rootPath → ¬ [slash, slash] <+: path) :
    Plain (ns.add path metaID haccept) := by
  intro path' hentry hprefix
  rw [ns.entry_add] at hentry
  split at hentry
  next heq =>
    subst heq
    obtain ⟨-, dir, hdir, hdir0⟩ := haccept
    by_cases hroot : dir = rootPath
    · exact hkeeps (hroot ▸ hdir) hprefix
    · obtain ⟨rest, hrest⟩ := hprefix
      rw [eq_append_of_dirOf hdir hroot] at hrest
      refine hplain dir (by simp [hdir0]) ?_
      match dir, hroot, hdir0, hrest with
      | [], _, hdir0, _ => exact absurd rfl (ne_nil_of_entry ns (by simp [hdir0]))
      | [b], hroot, _, hrest =>
          obtain ⟨rfl, -⟩ := List.cons_eq_cons.mp hrest
          exact absurd rfl hroot
      | b :: c :: dir, _, _, hrest =>
          simp only [List.cons_append, List.cons.injEq] at hrest
          exact ⟨dir, by rw [← hrest.1, ← hrest.2.1]; rfl⟩
  next => exact hplain path' hentry hprefix

theorem plain_without {ns ns' : PathTree} (hplain : Plain ns) {path : Bytes}
    (hwithout : Without ns' ns path) : Plain ns' := by
  intro path' hentry
  rw [hwithout] at hentry
  split at hentry
  next => exact absurd rfl hentry
  next => exact hplain path' hentry

theorem plain_effect {ns ns' : PathTree} (hplain : Plain ns) {op : TreeOp} {result : Bool}
    (hkeeps : op.KeepsPlain) (heffect : op.Effect ns result ns') : Plain ns' := by
  cases op with
  | addFile path metaID =>
      rcases heffect with ⟨haccept, -, rfl⟩ | ⟨-, -, rfl⟩
      · exact plain_add hplain metaID haccept hkeeps
      · exact hplain
  | addDir path =>
      rcases heffect with ⟨haccept, -, rfl⟩ | ⟨-, -, rfl⟩
      · exact plain_add hplain 0 haccept hkeeps
      · exact hplain
  | removeFile path | removeDir path =>
      rcases heffect with ⟨-, -, hwithout⟩ | ⟨-, -, rfl⟩
      · exact plain_without hplain hwithout
      · exact hplain

/-- The tree represents some plain namespace. -/
def PlainTree (tree : FileTree) : Prop := ∃ ns addr, Represents tree ns [] addr ∧ Plain ns

end FileTree

/-- Safe calls keep the tree plain. -/
theorem invariant_plainTree (keyHash : Bytes → Nat) :
    ((treeSystem keyHash).restrict fun tree op => op.Safe tree).Invariant FileTree.PlainTree where
  init := by
    rintro tree rfl
    refine ⟨_, _, FileTree.represents_new keyHash, fun path hentry hprefix => ?_⟩
    by_cases hroot : path = rootPath
    · subst hroot
      exact absurd hprefix (by decide)
    · rw [Namespace.entry_initial, if_neg hroot] at hentry
      exact hentry rfl
  step := by
    rintro tree tree' op ⟨ns, addr, h, hplain⟩ ⟨⟨hkeeps, hunlinks⟩, fuel, result, hrun⟩
    obtain ⟨ns', addr', h', heffect⟩ := h.of_run hunlinks hrun
    exact ⟨ns', addr', h', FileTree.plain_effect hplain hkeeps heffect⟩

/-- As long as every call is safe, the table and the linked cells agree and no
call goes wrong. -/
theorem sound_of_safe_run (keyHash : Bytes → Nat) {ops : List TreeOp} {tree : FileTree}
    (hrun : ((treeSystem keyHash).restrict fun tree op => op.Safe tree).Run ops tree) :
    tree.Sound ∧ ∀ op : TreeOp, op.Safe tree →
      ∃ fuel tree' result, op.run fuel tree = .ok (tree', result) := by
  obtain ⟨ns, addr, h, hplain⟩ := (invariant_plainTree keyHash).run hrun
  refine ⟨h.sound hplain, fun op hsafe => ?_⟩
  obtain ⟨fuel, tree', result, -, -, hrun, -⟩ := h.run hsafe.2
  exact ⟨fuel, tree', result, hrun⟩

/-- Additions and a removal, each of them safe. -/
theorem sound_of_safe_run_example :
    ∃ tree, ((treeSystem List.length).restrict fun tree op => op.Safe tree).Run
        [.addDir (ascii "/a"), .addFile (ascii "/a/b") 1, .removeFile (ascii "/a/b")] tree ∧
      tree.Sound := by
  have hrun : ∃ tree, ((treeSystem List.length).restrict fun tree op => op.Safe tree).Run
      [.addDir (ascii "/a"), .addFile (ascii "/a/b") 1, .removeFile (ascii "/a/b")] tree := by
    refine ⟨_, _, rfl, .cons ⟨⟨?_, trivial⟩, 0, true, rfl⟩ (.cons ⟨⟨?_, trivial⟩, 0, true, rfl⟩
      (.cons ⟨⟨trivial, ?_⟩, 0, true, rfl⟩ (.nil _)))⟩
    · exact fun _ => by decide
    · exact fun _ => by decide
    · intro address node hvalue hnode _
      obtain rfl : 2 = address := Option.some.inj hvalue
      obtain rfl := Option.some.inj hnode
      exact ⟨by decide, ⟨2, rfl, rfl⟩, rfl⟩
  obtain ⟨tree, hrun⟩ := hrun
  exact ⟨tree, hrun, (sound_of_safe_run _ hrun).1⟩

/-- `removeDir` goes on with the sibling of the removed directory: of two files
in it, the second one stays in the table. -/
theorem exists_run_not_sound :
    ∃ tree, (treeSystem List.length).Run [.addDir (ascii "/a"), .addFile (ascii "/a/b") 1,
        .addFile (ascii "/a/c") 2, .removeDir (ascii "/a")] tree ∧ ¬ tree.Sound := by
  refine ⟨_, ⟨_, rfl, .cons ⟨0, true, rfl⟩ (.cons ⟨0, true, rfl⟩ (.cons ⟨0, true, rfl⟩
    (.cons ⟨3, true, rfl⟩ (.nil _))))⟩, fun hsound => ?_⟩
  obtain ⟨address, dir, node, hpointer, hvisit, hnode, -⟩ :=
    @hsound.visited (ascii "/a/c") (some 3) rfl
  obtain rfl : 3 = address := Option.some.inj hpointer
  exact absurd (hvisit.eq_root rfl rfl rfl) (by decide)

end Doopey
