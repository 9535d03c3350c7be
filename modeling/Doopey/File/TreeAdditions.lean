import Doopey.File.TreeListings

/-!
# Additions to the file tree

`addFile` succeeds exactly if the path is free and what is in front of its last
slash is a directory. It then puts one entry at the front of one listing, and
nothing else that a caller can see changes.
-/

namespace Doopey

open Foundation

/-- The call is one that adds. -/
def TreeOp.Adds : TreeOp → Prop
  | addFile _ _ | addDir _ => True
  | removeFile _ | removeDir _ => False

namespace FileTree

/-- The path is not a key, and what is in front of its last slash, or the root if there is
nothing, is the key of a directory. -/
def MayAdd (tree : FileTree) (path : Bytes) : Prop :=
  tree.find path = .ok none ∧ ∃ pre name, path = pre ++ slash :: name ∧ slash ∉ name ∧
    ∃ id, tree.find (if pre = [] then rootPath else pre) = .ok (some (false, id))

/-- What a caller sees of one more entry. -/
structure Added (tree tree' : FileTree) (path : Bytes) (metaID : BlockID) : Prop where
  find_path : tree'.find path = .ok (some (decide (metaID ≠ 0), metaID))
  getMetaID_path : tree'.getMetaID path = .ok metaID
  getChildren_dir {dir : Bytes} : dirOf path = some dir →
    ∃ names, tree.getChildren dir = .ok names ∧
      tree'.getChildren dir = .ok (shownName path metaID :: names)
  find {key : Bytes} : key ≠ path →
    ∃ found, tree.find key = .ok found ∧ tree'.find key = .ok found
  getMetaID {key : Bytes} : key ≠ path →
    ∃ id, tree.getMetaID key = .ok id ∧ tree'.getMetaID key = .ok id
  getChildren {key : Bytes} : dirOf path ≠ some key →
    ∃ names, tree.getChildren key = .ok names ∧ tree'.getChildren key = .ok names

section Additions

variable {tree tree' : FileTree} {ns : PathTree} {addr addr' : Bytes → Nat} {path : Bytes}
  {metaID : BlockID}

/-- A directory is bound to `0`. -/
theorem Represents.find_dir_iff (h : Represents tree ns [] addr) (key : Bytes) :
    (∃ id, tree.find key = .ok (some (false, id))) ↔ ns.entry key = some 0 := by
  rw [h.find_eq]
  cases hentry : ns.entry key with
  | none => simp
  | some id =>
      by_cases hzero : id = 0
      · subst hzero
        exact iff_of_true ⟨0, rfl⟩ rfl
      · simp [hzero]

theorem Represents.mayAdd_iff (h : Represents tree ns [] addr) (path : Bytes) :
    tree.MayAdd path ↔ ns.Accepts path := by
  have hfree : tree.find path = .ok none ↔ ns.entry path = none := by
    rw [h.find_eq]
    cases ns.entry path with
    | none => simp
    | some id => simp
  unfold MayAdd Namespace.Accepts
  rw [hfree]
  refine and_congr_right fun _ => ?_
  constructor
  · rintro ⟨pre, name, rfl, hname, hdir⟩
    exact ⟨dirKey pre, dirOf_split pre hname, (h.find_dir_iff _).mp hdir⟩
  · rintro ⟨dir, hdir, hentry⟩
    obtain ⟨pre, name, rfl, hname, rfl⟩ := dirOf_eq_some_iff.mp hdir
    exact ⟨pre, name, rfl, hname, (h.find_dir_iff _).mpr hentry⟩

/-- Only the parent of a new path has another listing. -/
theorem listing_add (haccept : ns.Accepts path) (metaID : BlockID) (key : Bytes) :
    (ns.add path metaID haccept).listing key =
      if dirOf path = some key then ns.listing key ++ [path] else ns.listing key := rfl

/-- The names of the entries that were there are those that they had. -/
theorem map_shownEntry_add (haccept : ns.Accepts path) (metaID : BlockID) (key : Bytes) :
    (ns.listing key).map (shownEntry (ns.add path metaID haccept)) =
      (ns.listing key).map (shownEntry ns) := by
  apply List.map_congr_left
  intro entry hmem
  have hne : entry ≠ path := by
    rintro rfl
    exact (ns.mem_listing.mp hmem).2.1 haccept.1
  rw [shownEntry, ns.entry_add, if_neg hne, shownEntry]

/-- Trees that represent a namespace before and after an addition show one more entry. -/
theorem Represents.added (h : Represents tree ns [] addr) (haccept : ns.Accepts path)
    (h' : Represents tree' (ns.add path metaID haccept) [] addr') :
    Added tree tree' path metaID where
  find_path := by rw [h'.find_eq, ns.entry_add, if_pos rfl, Option.map_some]
  getMetaID_path := by rw [h'.getMetaID_eq, ns.entry_add, if_pos rfl, Option.getD_some]
  getChildren_dir {dir} hdir := by
    refine ⟨_, h.getChildren_eq dir, ?_⟩
    rw [h'.getChildren_eq, listing_add, if_pos hdir, List.map_append, map_shownEntry_add,
      List.reverse_append, List.map_singleton, List.reverse_singleton, List.singleton_append,
      shownEntry, ns.entry_add, if_pos rfl, Option.getD_some]
  find {key} hne := by
    refine ⟨_, h.find_eq key, ?_⟩
    rw [h'.find_eq, ns.entry_add, if_neg hne]
  getMetaID {key} hne := by
    refine ⟨_, h.getMetaID_eq key, ?_⟩
    rw [h'.getMetaID_eq, ns.entry_add, if_neg hne]
  getChildren {key} hdir := by
    refine ⟨_, h.getChildren_eq key, ?_⟩
    rw [h'.getChildren_eq, listing_add, if_neg hdir, map_shownEntry_add]

/-- An addition shows one more entry, or leaves the tree alone. -/
theorem Represents.addFile_spec (h : Represents tree ns [] addr) (path : Bytes)
    (metaID : BlockID) :
    ∃ tree' result, tree.addFile path metaID = .ok (tree', result) ∧
      (result = true ↔ tree.MayAdd path) ∧ (result = true → Added tree tree' path metaID) ∧
      (result = false → tree' = tree) := by
  rw [h.mayAdd_iff]
  by_cases haccept : ns.Accepts path
  · obtain ⟨tree', hrun, h'⟩ := addFile_of_accepts h metaID haccept
    exact ⟨tree', true, hrun, iff_of_true rfl haccept, fun _ => h.added haccept h', nofun⟩
  · exact ⟨tree, false, addFile_of_not_accepts h metaID haccept, iff_of_false nofun haccept,
      nofun, fun _ => rfl⟩

end Additions

end FileTree

/-- A tree to which entries were added only represents a namespace. -/
theorem faithful_of_adds (keyHash : Bytes → Nat) {ops : List TreeOp} {tree : FileTree}
    (hrun : (treeSystem keyHash).Run ops tree) (hadds : ∀ op ∈ ops, op.Adds) : tree.Faithful := by
  obtain ⟨start, hstart, hsteps⟩ := hrun
  have hunlinks : ∀ op ∈ ops, ∀ tree, op.Unlinks tree := by
    intro op hop tree
    cases op with
    | addFile path metaID => trivial
    | addDir path => trivial
    | removeFile path => exact (hadds _ hop).elim
    | removeDir path => exact (hadds _ hop).elim
  exact (invariant_faithful keyHash).run ⟨start, hstart, hsteps.restrict hunlinks⟩

/-- After any additions, one more succeeds exactly if the path is free and its parent is a
directory. Then it adds one entry, and otherwise it changes nothing. -/
theorem added_iff_mayAdd (keyHash : Bytes → Nat) {ops : List TreeOp} {tree : FileTree}
    (hrun : (treeSystem keyHash).Run ops tree) (hadds : ∀ op ∈ ops, op.Adds) (path : Bytes)
    (metaID : BlockID) :
    ∃ tree' result, tree.addFile path metaID = .ok (tree', result) ∧
      (result = true ↔ tree.MayAdd path) ∧ (result = true → tree.Added tree' path metaID) ∧
      (result = false → tree' = tree) := by
  obtain ⟨ns, addr, h⟩ := faithful_of_adds keyHash hrun hadds
  exact h.addFile_spec path metaID

/-- A file in a directory in the root, where it collides with both. -/
theorem added_iff_mayAdd_example : ∃ tree tree' result,
    (treeSystem fun _ => 0).Run [.addDir (ascii "/a")] tree ∧
    tree.addFile (ascii "/a/b") 7 = .ok (tree', result) ∧
    (result = true ↔ tree.MayAdd (ascii "/a/b")) ∧
    (result = true → tree.Added tree' (ascii "/a/b") 7) := by
  have hrun : ∃ tree, (treeSystem fun _ => 0).Run [.addDir (ascii "/a")] tree :=
    ⟨_, _, rfl, .cons ⟨0, true, rfl⟩ (.nil _)⟩
  obtain ⟨tree, hrun⟩ := hrun
  obtain ⟨tree', result, hadd, hiff, hadded, -⟩ := added_iff_mayAdd _ hrun
    (by simp [TreeOp.Adds]) (ascii "/a/b") 7
  exact ⟨tree, tree', result, hrun, hadd, hiff, hadded⟩

end Doopey
