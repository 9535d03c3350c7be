import Doopey.File.TreeRuns

/-!
# Lookups and listings

What a caller sees of a file tree is what `getMetaID` and `getChildren` return for a
path. In a tree that represents a namespace both are read off the namespace.
-/

namespace Doopey

open Foundation Foundation.DoublyLinked

namespace FileTree

/-- What the table and the cell tell about a key: whether it is a file, and its ID. -/
def find (tree : FileTree) (key : Bytes) : Except Fault (Option (Bool × BlockID)) :=
  match tree.fileMap.getValue key with
  | none => .ok none
  | some tn => do
      let node ← tree.deref tn
      .ok (some (node.isFile, node.getID))

/-- The name of an entry in a listing. -/
def shownName (path : Bytes) (id : BlockID) : Bytes :=
  if id = 0 then getFileName path ++ [slash] else getFileName path

variable {tree : FileTree} {ns : PathTree} {addr : Bytes → Nat}

/-- The name of a bound path in a listing. -/
def shownEntry (ns : PathTree) (path : Bytes) : Bytes := shownName path ((ns.entry path).getD 0)

theorem Represents.find_eq (h : Represents tree ns [] addr) (key : Bytes) :
    tree.find key = .ok ((ns.entry key).map fun id => (decide (id ≠ 0), id)) := by
  rw [find, h.getValue List.not_mem_nil]
  cases hentry : ns.entry key with
  | none => rfl
  | some id =>
      obtain ⟨node, hderef, -, hcell⟩ := h.deref hentry
      dsimp only [Option.map_some]
      rw [hderef, ok_bind, hcell.isFile, TreeNode.getID, hcell.metaID]

theorem Represents.getMetaID_eq (h : Represents tree ns [] addr) (key : Bytes) :
    tree.getMetaID key = .ok ((ns.entry key).getD 0) := by
  rw [getMetaID, h.getValue List.not_mem_nil]
  cases hentry : ns.entry key with
  | none => rfl
  | some id =>
      obtain ⟨node, hderef, -, hcell⟩ := h.deref hentry
      dsimp only [Option.map_some]
      rw [hderef, ok_bind, TreeNode.getID, hcell.metaID]
      rfl

/-- The loop of `getChildren` turns the order around. -/
theorem childNames_eq {text : Bytes → Bytes} {entries : List Bytes} {before first : Option Nat}
    (hchain : Chain TreeNode.next TreeNode.last tree.heap before first (entries.map addr))
    (hentries : ∀ path ∈ entries, ∀ node, tree.heap (addr path) = some node →
      (if node.isFile then node.name else node.name ++ [slash]) = text path)
    {fuel : Nat} (hfuel : entries.length < fuel) (result : List Bytes) :
    tree.childNames fuel first result = .ok ((entries.map text).reverse ++ result) := by
  induction entries generalizing before first fuel result with
  | nil =>
      rw [List.map_nil, chain_nil] at hchain
      cases fuel with
      | zero => exact absurd hfuel (Nat.not_lt_zero _)
      | succ fuel =>
          rw [hchain]
          rfl
  | cons path entries ih =>
      obtain ⟨rfl, node, hnode, -, hrest⟩ := hchain
      have hderef : tree.deref (addr path) = .ok node := by simp [FileTree.deref, hnode]
      cases fuel with
      | zero => exact absurd hfuel (Nat.not_lt_zero _)
      | succ fuel =>
          rw [childNames, hderef, ok_bind]
          dsimp only
          rw [hentries path List.mem_cons_self node hnode,
            ih hrest (fun path' hmem => hentries path' (List.mem_cons_of_mem _ hmem))
              (Nat.lt_of_succ_lt_succ hfuel),
            List.map_cons, List.reverse_cons, List.append_assoc, List.singleton_append]

theorem Represents.getChildren_eq (h : Represents tree ns [] addr) (key : Bytes) :
    tree.getChildren key = .ok ((ns.listing key).map (shownEntry ns)).reverse := by
  rw [getChildren, h.getValue List.not_mem_nil]
  cases hentry : ns.entry key with
  | none =>
      have hnil : ns.listing key = [] := ns.listing_eq_nil (by rw [hentry]; simp)
      rw [hnil]
      rfl
  | some id =>
      obtain ⟨node, hderef, -, hcell⟩ := h.deref hentry
      dsimp only [Option.map_some]
      rw [hderef, ok_bind, childNames_eq hcell.children, List.append_nil]
      · intro path hmem child hchild
        obtain ⟨hroot, hbound, -⟩ := ns.mem_listing.mp hmem
        obtain ⟨childID, hchildID⟩ := Option.ne_none_iff_exists'.mp hbound
        obtain ⟨child', hchild', hcellOf⟩ := h.cell hchildID
        obtain rfl := Option.some.inj (hchild'.symm.trans hchild)
        rw [hcellOf.isFile, hcellOf.name, if_neg hroot, shownEntry, hchildID, Option.getD_some,
          shownName]
        by_cases hzero : childID = 0 <;> simp [hzero]
      · exact Nat.lt_succ_of_le (h.length_listing_le key)

/-! ## Less than before -/

/-- What a caller sees when a path and what is below it are taken away. -/
structure Cut (tree tree' : FileTree) (path : Bytes) (id : BlockID) : Prop where
  gone {key : Bytes} : key = path ∨ Below path key → tree'.fileMap.getValue key = none ∧
    tree'.getMetaID key = .ok 0 ∧ tree'.getChildren key = .ok []
  getChildren_dir {dir : Bytes} : dirOf path = some dir → ∃ front behind,
    tree.getChildren dir = .ok (front ++ shownName path id :: behind) ∧
      tree'.getChildren dir = .ok (front ++ behind)
  find {key : Bytes} : ¬ (key = path ∨ Below path key) →
    ∃ found, tree.find key = .ok found ∧ tree'.find key = .ok found
  getMetaID {key : Bytes} : ¬ (key = path ∨ Below path key) →
    ∃ id, tree.getMetaID key = .ok id ∧ tree'.getMetaID key = .ok id
  getChildren {key : Bytes} : ¬ (key = path ∨ Below path key) → dirOf path ≠ some key →
    ∃ names, tree.getChildren key = .ok names ∧ tree'.getChildren key = .ok names

section Cut

variable {tree' : FileTree} {ns' : PathTree} {addr' : Bytes → Nat} {path : Bytes} {id : BlockID}

/-- An entry of a directory that is left is left, unless it is the path itself. -/
theorem not_below_of_mem_listing (hne : path ≠ []) {key entry : Bytes}
    (hkey : ¬ (key = path ∨ Below path key)) (hmem : entry ∈ ns.listing key)
    (hentry : entry ≠ path) : ¬ (entry = path ∨ Below path entry) :=
  not_or.mpr ⟨hentry, fun hbelow => hkey (below_dirOf hne hbelow (ns.mem_listing.mp hmem).2.2)⟩

theorem Pruned.map_shownEntry (h : Pruned ns' ns path) {entries : List Bytes}
    (hentries : ∀ entry ∈ entries, ¬ (entry = path ∨ Below path entry)) :
    entries.map (shownEntry ns') = entries.map (shownEntry ns) := by
  apply List.map_congr_left
  intro entry hmem
  rw [shownEntry, h.without, if_neg (hentries entry hmem), shownEntry]

/-- Trees that represent a namespace before and after a removal. -/
theorem Represents.cut (h : Represents tree ns [] addr) (h' : Represents tree' ns' [] addr')
    (hpruned : Pruned ns' ns path) (hentry : ns.entry path = some id) (hroot : path ≠ rootPath) :
    Cut tree tree' path id := by
  have hbound : ns.entry path ≠ none := by simp [hentry]
  have hne : path ≠ [] := ne_nil_of_entry ns hbound
  refine ⟨?_, ?_, ?_, ?_, ?_⟩
  · intro key hgone
    have hnone : ns'.entry key = none := by rw [hpruned.without, if_pos hgone]
    have hnil : ns'.listing key = [] := ns'.listing_eq_nil (by simp [hnone])
    refine ⟨?_, ?_, ?_⟩
    · rw [h'.getValue List.not_mem_nil, hnone, Option.map_none]
    · rw [h'.getMetaID_eq, hnone, Option.getD_none]
    · rw [h'.getChildren_eq, hnil, List.map_nil, List.reverse_nil]
  · intro dir hdir
    have hmem : path ∈ ns.listing dir := ns.mem_listing.mpr ⟨hroot, hbound, hdir⟩
    have hkept : ¬ (dir = path ∨ Below path dir) := not_below_of_dirOf hdir hroot
    -- the listing without `path` is what is in front of it and what is behind it
    obtain ⟨front, behind, hlist⟩ := List.append_of_mem hmem
    have hnodup := ns.listing_nodup dir
    rw [hlist] at hnodup
    obtain ⟨-, hbehind, hdisjoint⟩ := List.nodup_append.mp hnodup
    have hleft : ∀ entry ∈ front ++ behind, ¬ (entry = path ∨ Below path entry) := by
      intro entry hentryMem
      refine not_below_of_mem_listing hne hkept (?_ : entry ∈ ns.listing dir) ?_
      · rw [hlist]
        rcases List.mem_append.mp hentryMem with hfront | hback
        · exact List.mem_append_left _ hfront
        · exact List.mem_append_right _ (List.mem_cons_of_mem _ hback)
      · rintro rfl
        rcases List.mem_append.mp hentryMem with hfront | hback
        · exact hdisjoint entry hfront entry List.mem_cons_self rfl
        · exact (List.nodup_cons.mp hbehind).1 hback
    have hlist' : ns'.listing dir = front ++ behind := by
      rw [hpruned.listing, hlist, List.filter_append, List.filter_cons_of_neg (by simp),
        ← List.filter_append, List.filter_eq_self]
      exact fun entry hmem => decide_eq_true (hleft entry hmem)
    refine ⟨(behind.map (shownEntry ns)).reverse, (front.map (shownEntry ns)).reverse, ?_, ?_⟩
    · rw [h.getChildren_eq, hlist, List.map_append, List.map_cons, List.reverse_append,
        List.reverse_cons, List.append_assoc, List.singleton_append, shownEntry, hentry,
        Option.getD_some]
    · rw [h'.getChildren_eq, hlist', hpruned.map_shownEntry hleft, List.map_append,
        List.reverse_append]
  · intro key hkey
    refine ⟨_, h.find_eq key, ?_⟩
    rw [h'.find_eq, hpruned.without, if_neg hkey]
  · intro key hkey
    refine ⟨_, h.getMetaID_eq key, ?_⟩
    rw [h'.getMetaID_eq, hpruned.without, if_neg hkey]
  · intro key hkey hdir
    have hleft : ∀ entry ∈ ns.listing key, ¬ (entry = path ∨ Below path entry) := by
      intro entry hmem
      apply not_below_of_mem_listing hne hkey hmem
      rintro rfl
      exact hdir (ns.mem_listing.mp hmem).2.2
    have hlist' : ns'.listing key = ns.listing key := by
      rw [hpruned.listing, List.filter_eq_self]
      exact fun entry hmem => decide_eq_true (hleft entry hmem)
    refine ⟨_, h.getChildren_eq key, ?_⟩
    rw [h'.getChildren_eq, hlist', hpruned.map_shownEntry hleft]

end Cut

end FileTree

end Doopey
