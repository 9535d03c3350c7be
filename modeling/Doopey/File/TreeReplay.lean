import Doopey.File.TreeAdditions
import Doopey.Machine.Restart

/-!
# Replaying a dump

The lines of a dump are in the order of a walk through the tree, so that an empty tree
accepts them one after the other. If no path contains a separator, `loadSnapshot` of the
dump of a tree makes these additions and ends in a tree with the same entries in the same
order, and so with the same dump.
-/

namespace Doopey

open Foundation

namespace FileTree

/-- A path of names behind slashes, none of them empty or with a separator in it. -/
def Canonical (path : Bytes) : Prop :=
  ∃ names : List Bytes, names ≠ [] ∧ path = names.flatMap (slash :: ·) ∧
    ∀ name ∈ names, name ≠ [] ∧ slash ∉ name ∧ ∀ b ∈ name, PlainByte b

/-- The additions succeed, one after the other. -/
inductive Accepted : FileTree → List (Bytes × BlockID) → FileTree → Prop
  | nil (tree : FileTree) : Accepted tree [] tree
  | cons {tree middle tree' : FileTree} {path : Bytes} {id : BlockID}
      {records : List (Bytes × BlockID)}
      (hadd : (if id = 0 then tree.addDir path else tree.addFile path id) = .ok (middle, true))
      (hrest : Accepted middle records tree') : Accepted tree ((path, id) :: records) tree'

/-- Every path comes once, behind its directory. -/
structure ParentsFirst (paths : List Bytes) : Prop where
  nodup : paths.Nodup
  parent {front rest : List Bytes} {path : Bytes} : paths = front ++ path :: rest →
    ∃ dir, dirOf path = some dir ∧ (dir = rootPath ∨ dir ∈ front)

/-- The same paths, with their kinds and IDs, and the same listings. -/
structure Agrees (tree tree' : FileTree) : Prop where
  find (key : Bytes) : ∃ found, tree.find key = .ok found ∧ tree'.find key = .ok found
  getMetaID (key : Bytes) : ∃ id, tree.getMetaID key = .ok id ∧ tree'.getMetaID key = .ok id
  getChildren (key : Bytes) :
    ∃ names, tree.getChildren key = .ok names ∧ tree'.getChildren key = .ok names

section Replay

variable {tree tree' : FileTree} {ns part : PathTree} {addr addr' : Bytes → Nat}

theorem Canonical.portable {path : Bytes} (h : Canonical path) {id : BlockID}
    (hid : id.toNat < 2 ^ 63) : Portable path id := by
  obtain ⟨names, hne, rfl, hnames⟩ := h
  refine ⟨?_, ?_, hid⟩
  · cases names with
    | nil => exact absurd rfl hne
    | cons name names =>
        obtain ⟨hname, hslash, -⟩ := hnames name List.mem_cons_self
        cases name with
        | nil => exact absurd rfl hname
        | cons b name =>
            rintro ⟨rest, hrest⟩
            simp only [List.flatMap_cons, List.cons_append, List.cons.injEq] at hrest
            exact hslash (hrest.2.1 ▸ List.mem_cons_self)
  · intro b hb
    obtain ⟨name, hmem, hb⟩ := List.mem_flatMap.mp hb
    rcases List.mem_cons.mp hb with rfl | hb
    · exact plainByte_slash
    · exact (hnames name hmem).2.2 b hb

/-- Additions that succeed are those that `loadSnapshot` makes. -/
theorem Accepted.foldlM {records : List (Bytes × BlockID)} (h : Accepted tree records tree') :
    records.foldlM FileManager.addRecord tree = .ok tree' := by
  induction h with
  | nil tree => rfl
  | @cons tree middle tree' path id records hadd _ ih =>
      have hrecord : FileManager.addRecord tree (path, id) = .ok middle := by
        unfold FileManager.addRecord
        dsimp only
        split at hadd
        next hzero => rw [if_pos hzero, hadd, ok_bind]
        next hne => rw [if_neg hne, hadd, ok_bind]
      rw [List.foldlM_cons, hrecord, ok_bind, ih]

/-- Trees that represent the same namespace agree. -/
theorem Represents.agrees (h : Represents tree ns [] addr) (h' : Represents tree' ns [] addr') :
    Agrees tree tree' where
  find key := ⟨_, h.find_eq key, h'.find_eq key⟩
  getMetaID key := ⟨_, h.getMetaID_eq key, h'.getMetaID_eq key⟩
  getChildren key := ⟨_, h.getChildren_eq key, h'.getChildren_eq key⟩

/-- An addition as `loadSnapshot` makes it. -/
theorem Represents.addRecord (h : Represents tree part [] addr) (id : BlockID) {path : Bytes}
    (haccept : part.Accepts path) : ∃ tree' addr',
      (if id = 0 then tree.addDir path else tree.addFile path id) = .ok (tree', true) ∧
        Represents tree' (part.add path id haccept) [] addr' := by
  obtain ⟨tree', hadd, h'⟩ := addFile_of_accepts h id haccept
  refine ⟨tree', _, ?_, h'⟩
  split
  next hzero => rw [addDir, ← hzero, hadd]
  next => exact hadd

/-- The paths that are still missing can be added in their order. -/
theorem Represents.replay {front rest : List Bytes} (h : Represents tree part [] addr)
    (hpart : ns.Rebuilt part front) (horder : ns.InOrder (front ++ rest)) :
    ∃ tree' addr', Accepted tree (rest.map fun path => (path, (ns.entry path).getD 0)) tree' ∧
      Represents tree' ns [] addr' := by
  induction rest generalizing tree part addr front with
  | nil =>
      rw [List.append_nil] at horder
      obtain rfl := hpart.eq horder
      exact ⟨tree, addr, .nil tree, h⟩
  | cons path rest ih =>
      obtain ⟨id, hid, haccept, hpart'⟩ := hpart.add horder
      obtain ⟨middle, addr₁, hadd, hmiddle⟩ := h.addRecord id haccept
      rw [← List.singleton_append, ← List.append_assoc] at horder
      obtain ⟨tree', addr', haccepted, h'⟩ := ih hmiddle hpart' horder
      refine ⟨tree', addr', ?_, h'⟩
      rw [List.map_cons, hid]
      exact .cons hadd haccepted

/-- Without separators in the paths, the lines of a dump are cut where they end. -/
theorem lines_dump {paths : List Bytes} (hbytes : ∀ path ∈ paths, ∀ b ∈ path, PlainByte b) :
    lines newline [] (paths.flatMap (lineOf ns)) = paths.map (recordOf ns) := by
  have hline : paths.flatMap (lineOf ns) = (paths.map (recordOf ns)).flatMap (· ++ [newline]) := by
    rw [List.flatMap_map]
    rfl
  rw [hline, lines_flatMap]
  intro record hrecord hmem
  obtain ⟨path, hpath, rfl⟩ := List.mem_map.mp hrecord
  exact not_isSpace_recordOf (hbytes path hpath) newline hmem (by decide)

/-- The dump of portable entries rebuilds the tree. -/
theorem Represents.rebuild (h : Represents tree ns [] addr) (keyHash : Bytes → Nat)
    (hportable : ∀ path id, ns.entry path = some id → Portable path id) :
    ∃ dump records tree', (∃ fuel, tree.getTotalTree fuel = .ok dump) ∧
      FileManager.readDump dump = .ok records ∧ ParentsFirst (records.map Prod.fst) ∧
      Accepted (new keyHash) records tree' ∧
      FileManager.loadSnapshot (new keyHash) dump = .ok tree' ∧ Agrees tree tree' ∧
      ∃ fuel, tree'.getTotalTree fuel = .ok dump := by
  obtain ⟨bound, hbound⟩ := h.exists_length_lt
  obtain ⟨paths, hwalk, horder⟩ := Namespace.inOrder_walk length_dirOf_lt ns hbound
  obtain ⟨tree', addr', haccepted, h'⟩ :=
    (represents_new keyHash).replay ns.rebuilt_initial horder
  have hbytes : ∀ path ∈ rootPath :: paths, ∀ b ∈ path, PlainByte b := by
    intro path hmem
    have hentry : ns.entry path ≠ none := by
      rcases List.mem_cons.mp hmem with rfl | hmem
      · simp [ns.root_entry]
      · exact (horder.mem.mp hmem).2
    obtain ⟨id, hid⟩ := Option.ne_none_iff_exists'.mp hentry
    exact (hportable path id hid).bytes
  have hread : FileManager.readDump ((rootPath :: paths).flatMap (lineOf ns)) =
      .ok (paths.map fun path => (path, (ns.entry path).getD 0)) := by
    rw [FileManager.readDump, lines_dump hbytes,
      mapM_readRecord_of_portable (fun _ => horder.mem) hportable, ok_bind,
      List.filterMap_cons_none rfl, List.filterMap_map]
    simp
  -- the new tree represents the same namespace, so that its walk is the same
  obtain ⟨fuel, hdump⟩ := h.getTotalTree_walk hbound
  obtain ⟨fuel', hdump'⟩ := h'.getTotalTree_walk hbound
  rw [hwalk] at hdump hdump'
  refine ⟨_, _, tree', ⟨fuel, hdump⟩, hread, ?_, haccepted, ?_, h.agrees h', fuel', hdump'⟩
  · have hpaths : (paths.map fun path => (path, (ns.entry path).getD 0)).map Prod.fst = paths := by
      rw [List.map_map]
      exact List.map_id paths
    rw [hpaths]
    exact ⟨horder.nodup, horder.parent_mem⟩
  · rw [FileManager.loadSnapshot_of_readDump hread, haccepted.foldlM]

end Replay

end FileTree

/-- The call adds a canonical path, with an ID that a `long` holds. -/
def TreeOp.AddsCanonical : TreeOp → Prop
  | addFile path metaID => FileTree.Canonical path ∧ metaID.toNat < 2 ^ 63
  | addDir path => FileTree.Canonical path
  | removeFile _ | removeDir _ => False

/-- Additions of canonical paths leave portable entries. -/
theorem invariant_addsCanonical (keyHash : Bytes → Nat) :
    ((treeSystem keyHash).restrict fun _ op => op.AddsCanonical).Invariant fun tree =>
      ∃ ns addr, tree.Represents ns [] addr ∧
        ∀ path id, ns.entry path = some id → FileTree.Portable path id where
  init := by
    rintro tree rfl
    refine ⟨_, _, FileTree.represents_new keyHash, fun path id hid => ?_⟩
    rw [Namespace.entry_initial] at hid
    split at hid
    next hroot =>
      obtain rfl := Option.some.inj hid
      subst hroot
      refine ⟨by decide, fun b hb => ?_, by decide⟩
      rw [List.mem_singleton.mp hb]
      exact FileTree.plainByte_slash
    next => exact absurd hid (by simp)
  step := by
    rintro tree tree' op ⟨ns, addr, h, hportable⟩ ⟨hadds, fuel, result, hrun⟩
    have hadd {path : Bytes} {metaID : BlockID} (hpath : FileTree.Canonical path)
        (hid : metaID.toNat < 2 ^ 63) (hrun : tree.addFile path metaID = .ok (tree', result)) :
        ∃ ns addr, tree'.Represents ns [] addr ∧
          ∀ path id, ns.entry path = some id → FileTree.Portable path id := by
      by_cases haccept : ns.Accepts path
      · obtain ⟨added, hadded, h'⟩ := FileTree.addFile_of_accepts h metaID haccept
        obtain ⟨rfl, -⟩ := Prod.mk.inj (Except.ok.inj (hadded.symm.trans hrun))
        refine ⟨_, _, h', fun path' id hentry => ?_⟩
        rw [ns.entry_add] at hentry
        split at hentry
        next heq =>
          obtain rfl := Option.some.inj hentry
          exact heq ▸ hpath.portable hid
        next => exact hportable path' id hentry
      · -- the call returns false, and the tree is as it was
        rw [FileTree.addFile_of_not_accepts h metaID haccept] at hrun
        obtain ⟨rfl, -⟩ := Prod.mk.inj (Except.ok.inj hrun)
        exact ⟨ns, addr, h, hportable⟩
    cases op with
    | addFile path metaID => exact hadd hadds.1 hadds.2 hrun
    | addDir path => exact hadd hadds (by decide) hrun
    | removeFile path => exact hadds.elim
    | removeDir path => exact hadds.elim

/-- The dump of a tree to which canonical paths were added is replayed on a fresh tree:
every addition succeeds, and the two trees agree and have the same dump. -/
theorem loadSnapshot_getTotalTree (keyHash keyHash' : Bytes → Nat) {ops : List TreeOp}
    {tree : FileTree} (hrun : (treeSystem keyHash).Run ops tree)
    (hadds : ∀ op ∈ ops, op.AddsCanonical) :
    ∃ dump records tree', (∃ fuel, tree.getTotalTree fuel = .ok dump) ∧
      FileManager.readDump dump = .ok records ∧
      FileTree.ParentsFirst (records.map Prod.fst) ∧
      (FileTree.new keyHash').Accepted records tree' ∧
      FileManager.loadSnapshot (FileTree.new keyHash') dump = .ok tree' ∧
      tree.Agrees tree' ∧ ∃ fuel, tree'.getTotalTree fuel = .ok dump := by
  obtain ⟨start, hstart, hsteps⟩ := hrun
  obtain ⟨ns, addr, h, hportable⟩ := (invariant_addsCanonical keyHash).run
    ⟨start, hstart, hsteps.restrict fun op hop _ => hadds op hop⟩
  exact h.rebuild keyHash' hportable

/-- A directory with a file in it, between two entries of the root. -/
theorem loadSnapshot_getTotalTree_example : ∃ tree dump tree',
    (treeSystem List.length).Run [.addFile (ascii "/b") 1, .addDir (ascii "/a"),
      .addFile (ascii "/a/x") 7] tree ∧
    (∃ fuel, tree.getTotalTree fuel = .ok dump) ∧
    FileManager.loadSnapshot (FileTree.new List.length) dump = .ok tree' ∧ tree.Agrees tree' := by
  have hrun : ∃ tree, (treeSystem List.length).Run [.addFile (ascii "/b") 1, .addDir (ascii "/a"),
      .addFile (ascii "/a/x") 7] tree :=
    ⟨_, _, rfl, .cons ⟨0, true, rfl⟩ (.cons ⟨0, true, rfl⟩ (.cons ⟨0, true, rfl⟩ (.nil _)))⟩
  obtain ⟨tree, hrun⟩ := hrun
  have hname {b : UInt8} (hslash : b ≠ slash) (hplain : FileTree.PlainByte b) :
      [b] ≠ [] ∧ slash ∉ [b] ∧ ∀ c ∈ [b], FileTree.PlainByte c := by
    simpa [Ne.symm hslash] using hplain
  have ha := @hname 97 (by decide) (by decide)
  have hb := @hname 98 (by decide) (by decide)
  have hx := @hname 120 (by decide) (by decide)
  have hadds : ∀ op ∈ [TreeOp.addFile (ascii "/b") 1, .addDir (ascii "/a"),
      .addFile (ascii "/a/x") 7], op.AddsCanonical := by
    simp only [List.forall_mem_cons, List.not_mem_nil, false_implies, implies_true, and_true]
    exact ⟨⟨⟨[[98]], by simp, rfl, List.forall_mem_singleton.mpr hb⟩, by decide⟩,
      ⟨[[97]], by simp, rfl, List.forall_mem_singleton.mpr ha⟩,
      ⟨[[97], [120]], by simp, rfl,
        List.forall_mem_cons.mpr ⟨ha, List.forall_mem_singleton.mpr hx⟩⟩, by decide⟩
  obtain ⟨dump, records, tree', hdump, -, -, -, hload, hagrees, -⟩ :=
    loadSnapshot_getTotalTree _ List.length hrun hadds
  exact ⟨tree, dump, tree', hrun, hdump, hload, hagrees⟩

end Doopey
