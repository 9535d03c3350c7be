import Doopey.File.Snapshot
import Doopey.File.TreeDump

/-!
# What survives a restart

A server saves the dump of its file tree when it stops and replays it when it
starts. The replay sees the dump word by word and line by line, so it finds the
entries of the tree exactly if none of them contains a separator, starts with two
slashes or has an ID that a `long` cannot hold.
-/

namespace Doopey

open Foundation

namespace Server

/-- `Server::saveSnapshot`: the content of the snapshot file. -/
def saveSnapshot (fuel : Nat) (machineID : MachineID) (tree : FileTree) : Except Fault Bytes := do
  let dump ← tree.getTotalTree fuel
  .ok (ServerSnapshot.save ⟨machineID, dump⟩)

/-- `Server::loadSnapshot` from the content of the snapshot file. -/
def loadSnapshot (content : Bytes) (tree : FileTree) : Except Fault (MachineID × FileTree) :=
  -- the ID of a new `ServerSnapshot` is not assigned
  if content.all isSpace then .error .indeterminate
  else do
    let snapshot := ServerSnapshot.load 0 content
    let tree ← FileManager.loadSnapshot tree snapshot.dumpFileTree
    .ok (snapshot.machineID, tree)

theorem loadSnapshot_save (machineID : MachineID) (dump : Bytes) (tree : FileTree) :
    loadSnapshot (ServerSnapshot.save ⟨machineID, dump⟩) tree = (do
      let tree ← FileManager.loadSnapshot tree
        (ServerSnapshot.load 0 (ServerSnapshot.save ⟨machineID, dump⟩)).dumpFileTree
      .ok (machineID, tree)) := by
  obtain ⟨b, rest, hsave, hb⟩ := ServerSnapshot.exists_save_eq_cons ⟨machineID, dump⟩
  have hword : ¬ (ServerSnapshot.save ⟨machineID, dump⟩).all isSpace = true := by
    rw [hsave, List.all_cons, Bool.and_eq_true]
    exact fun hall => hb hall.1
  rw [loadSnapshot, if_neg hword]
  dsimp only
  rw [ServerSnapshot.load_save]

end Server

namespace FileTree

/-- `path` is in the table, with `id` in its cell. -/
def Holds (tree : FileTree) (path : Bytes) (id : BlockID) : Prop :=
  ∃ address node, tree.fileMap.lookup path = some (some address) ∧
    tree.heap address = some node ∧ node.metaID = id

/-- Read back from the file it was saved to, the dump of the tree gives every
entry but the root once, with its path and its ID, and nothing else. -/
def Survives (tree : FileTree) (machineID : MachineID) : Prop :=
  ∃ fuel content records, Server.saveSnapshot fuel machineID tree = .ok content ∧
    FileManager.readDump (ServerSnapshot.load 0 content).dumpFileTree = .ok records ∧
    records.Nodup ∧ ∀ path id, (path, id) ∈ records ↔ path ≠ rootPath ∧ tree.Holds path id

/-- The byte separates neither words nor the parts of a line. -/
def PlainByte (b : UInt8) : Prop := ¬ isSpace b ∧ b ≠ colon

instance (b : UInt8) : Decidable (PlainByte b) := inferInstanceAs (Decidable (_ ∧ _))

/-- An entry that is written and read as it is. -/
structure Portable (path : Bytes) (id : BlockID) : Prop where
  plain : ¬ [slash, slash] <+: path
  bytes : ∀ b ∈ path, PlainByte b
  id_lt : id.toNat < 2 ^ 63

variable {tree : FileTree} {ns : PathTree} {addr : Bytes → Nat}

theorem Represents.holds_iff (h : Represents tree ns [] addr) {path : Bytes} {id : BlockID} :
    tree.Holds path id ↔ ns.entry path = some id := by
  constructor
  · rintro ⟨address, node, hlookup, hnode, rfl⟩
    rw [h.lookup, if_neg List.not_mem_nil] at hlookup
    obtain ⟨id, hid, heq⟩ := Option.map_eq_some_iff.mp hlookup
    obtain rfl := Option.some.inj heq
    obtain ⟨node', hnode', hcell⟩ := h.cell hid
    obtain rfl := Option.some.inj (hnode'.symm.trans hnode)
    rw [hid, hcell.metaID]
  · intro hid
    obtain ⟨node, hnode, hcell⟩ := h.cell hid
    refine ⟨addr path, node, ?_, hnode, hcell.metaID⟩
    rw [h.lookup, if_neg List.not_mem_nil, hid]
    rfl

/-- The line of a path, without the newline that ends it. -/
def recordOf (ns : PathTree) (path : Bytes) : Bytes :=
  printedPath path ++ colon :: decimal ((ns.entry path).getD 0).toNat

theorem plainByte_slash : PlainByte slash := by
  unfold PlainByte
  decide

/-- The root is written and read as it is. -/
theorem portable_root : Portable rootPath 0 := by
  refine ⟨by decide, fun b hb => ?_, by decide⟩
  rw [List.mem_singleton.mp hb]
  exact plainByte_slash

theorem plainByte_printedPath {path : Bytes} (hbytes : ∀ b ∈ path, PlainByte b) :
    ∀ b ∈ printedPath path, PlainByte b := by
  intro b hb
  rcases List.mem_cons.mp hb with rfl | hb
  · exact plainByte_slash
  · exact hbytes b ((List.dropWhile_sublist _).subset hb)

theorem not_isSpace_recordOf {path : Bytes} (hbytes : ∀ b ∈ path, PlainByte b) :
    ∀ b ∈ recordOf ns path, ¬ isSpace b := by
  intro b hb
  rcases List.mem_append.mp hb with hb | hb
  · exact (plainByte_printedPath hbytes b hb).1
  · rcases List.mem_cons.mp hb with rfl | hb
    · decide
    · exact ServerSnapshot.not_isSpace_of_isDigit (isDigit_of_mem_decimal hb)

theorem readRecord_recordOf {path : Bytes} (hbytes : ∀ b ∈ path, PlainByte b) {id : BlockID}
    (hid : ns.entry path = some id) :
    FileManager.readRecord (recordOf ns path) =
      if printedPath path = rootPath then .ok none
      else if id.toNat < 2 ^ 63 then .ok (some (printedPath path, id)) else .error .outOfRange := by
  rw [recordOf, hid]
  refine FileManager.readRecord_line ?_ id
  exact fun hmem => (plainByte_printedPath hbytes _ hmem).2 rfl

theorem printedPath_root : printedPath rootPath = rootPath := by decide

/-- What a saved dump is read back as, line by line. -/
theorem readDump_words (machineID : MachineID) (dump : Bytes) :
    FileManager.readDump (ServerSnapshot.load 0 (ServerSnapshot.save ⟨machineID, dump⟩)).dumpFileTree =
      (do let results ← (words isSpace [] dump).mapM FileManager.readRecord
          .ok (results.filterMap id)) := by
  rw [ServerSnapshot.load_save, FileManager.readDump, lines_flatMap]
  intro field hfield hmem
  exact not_isSep_of_mem_words (by simp) hfield newline hmem (by decide)

section Dump

variable {entries : List Bytes}

/-- Without separators in the paths, the words of a dump are its lines. -/
theorem words_dump (hbytes : ∀ path ∈ rootPath :: entries, ∀ b ∈ path, PlainByte b) :
    words isSpace [] (lineOf ns rootPath ++ entries.flatMap (lineOf ns)) =
      (rootPath :: entries).map (recordOf ns) := by
  have hlines : lineOf ns rootPath ++ entries.flatMap (lineOf ns) =
      ((rootPath :: entries).map (recordOf ns)).flatMap (· ++ [newline]) := by
    have hline (path : Bytes) : lineOf ns path = recordOf ns path ++ [newline] := rfl
    rw [List.flatMap_map, List.flatMap_cons, hline]
    exact congrArg _ (List.flatMap_congr fun path _ => hline path)
  rw [hlines, words_flatMap (by decide)]
  intro field hfield
  obtain ⟨path, hpath, rfl⟩ := List.mem_map.mp hfield
  exact ⟨by simp [recordOf], not_isSpace_recordOf (hbytes path hpath)⟩

/-- The lines of portable entries are read back. -/
theorem mapM_readRecord_of_portable
    (hentries : ∀ path, path ∈ entries ↔ path ≠ rootPath ∧ ns.entry path ≠ none)
    (hportable : ∀ path id, ns.entry path = some id → Portable path id) :
    ((rootPath :: entries).map (recordOf ns)).mapM FileManager.readRecord =
      .ok (none :: entries.map fun path => some (path, (ns.entry path).getD 0)) := by
  have hroot := (hportable rootPath 0 ns.root_entry).bytes
  rw [List.map_cons, List.mapM_cons, readRecord_recordOf hroot ns.root_entry,
    if_pos printedPath_root, ok_bind, List.mapM_map,
    mapM_of_forall (g := fun path => some (path, (ns.entry path).getD 0))]
  · rfl
  · intro path hmem
    obtain ⟨hne, hbound⟩ := (hentries path).mp hmem
    obtain ⟨id, hid⟩ := Option.ne_none_iff_exists'.mp hbound
    have hpath : printedPath path = path := by
      obtain ⟨rest, hrest⟩ := exists_slash_of_entry ns path hbound
      exact (printedPath_eq_iff hrest).mpr (hportable path id hid).plain
    rw [Function.comp_apply, readRecord_recordOf (hportable path id hid).bytes hid, hpath,
      if_neg hne, if_pos (hportable path id hid).id_lt, hid]
    rfl

/-- The paths that are read back contain no separators. -/
theorem plainByte_of_mem_records {machineID : MachineID} {dump : Bytes}
    {records : List (Bytes × BlockID)}
    (hread : FileManager.readDump
      (ServerSnapshot.load 0 (ServerSnapshot.save ⟨machineID, dump⟩)).dumpFileTree = .ok records)
    {path : Bytes} {id : BlockID} (hrecord : (path, id) ∈ records) : ∀ b ∈ path, PlainByte b := by
  rw [readDump_words] at hread
  obtain ⟨results, hresults, hrecords⟩ := bind_eq_ok_iff.mp hread
  obtain rfl := Except.ok.inj hrecords
  obtain ⟨result, hresult, rfl : result = some (path, id)⟩ := List.mem_filterMap.mp hrecord
  obtain ⟨word, hword, hline⟩ := exists_of_mem_mapM hresults hresult
  intro b hb
  obtain ⟨hbWord, hcolon⟩ := FileManager.mem_of_readRecord hline hb
  exact ⟨not_isSep_of_mem_words (by simp) hword b hbWord, hcolon⟩

end Dump

/-- Portable entries survive. -/
theorem Represents.survives (h : Represents tree ns [] addr) (machineID : MachineID)
    (hportable : ∀ path id, ns.entry path = some id → Portable path id) :
    tree.Survives machineID := by
  obtain ⟨fuel, entries, hdump, hnodup, hentries⟩ := h.getTotalTree_eq
  have hentry {path : Bytes} (hmem : path ∈ rootPath :: entries) : ns.entry path ≠ none := by
    rcases List.mem_cons.mp hmem with rfl | hmem
    · simp [ns.root_entry]
    · exact ((hentries path).mp hmem).2
  have hbytes : ∀ path ∈ rootPath :: entries, ∀ b ∈ path, PlainByte b := by
    intro path hmem
    obtain ⟨id, hid⟩ := Option.ne_none_iff_exists'.mp (hentry hmem)
    exact (hportable path id hid).bytes
  have hread := mapM_readRecord_of_portable hentries hportable
  refine ⟨fuel, ServerSnapshot.save ⟨machineID, lineOf ns rootPath ++ entries.flatMap (lineOf ns)⟩,
    entries.map fun path => (path, (ns.entry path).getD 0), ?_, ?_, ?_, ?_⟩
  · rw [Server.saveSnapshot, hdump, ok_bind]
  · rw [readDump_words, words_dump hbytes, hread, ok_bind, List.filterMap_cons_none rfl,
      List.filterMap_map]
    simp
  · exact hnodup.map fun path path' heq => (Prod.mk.inj heq).1
  · intro path id
    rw [h.holds_iff]
    constructor
    · intro hmem
      obtain ⟨path', hmem', heq⟩ := List.mem_map.mp hmem
      obtain ⟨rfl, rfl⟩ := Prod.mk.inj heq
      obtain ⟨hroot, hbound⟩ := (hentries path').mp hmem'
      obtain ⟨id, hid⟩ := Option.ne_none_iff_exists'.mp hbound
      exact ⟨hroot, by rw [hid]; rfl⟩
    · rintro ⟨hroot, hid⟩
      exact List.mem_map.mpr ⟨path, (hentries path).mpr ⟨hroot, by simp [hid]⟩, by rw [hid]; rfl⟩

/-- Entries that survive are portable. -/
theorem Represents.portable_of_survives (h : Represents tree ns [] addr) {machineID : MachineID}
    (hsurvives : tree.Survives machineID) {path : Bytes} {id : BlockID}
    (hid : ns.entry path = some id) : Portable path id := by
  by_cases hroot : path = rootPath
  · subst hroot
    rw [ns.root_entry, Option.some.injEq] at hid
    subst hid
    exact portable_root
  obtain ⟨fuel, content, records, hsave, hread, -, hrecords⟩ := hsurvives
  obtain ⟨dump, hdump, hcontent⟩ := bind_eq_ok_iff.mp hsave
  obtain rfl := Except.ok.inj hcontent
  obtain ⟨fuel', entries, hdump', -, hentries⟩ := h.getTotalTree_eq
  obtain rfl := Extends.unique_of_succ
    (fun fuel => (getTotalNode_extends fuel).1 tree tree.root []) hdump hdump'
  have hrecord {path : Bytes} {id : BlockID} (hroot : path ≠ rootPath)
      (hid : ns.entry path = some id) : (path, id) ∈ records :=
    (hrecords path id).mpr ⟨hroot, h.holds_iff.mpr hid⟩
  -- every path is read back, so none contains a separator, and the words are the lines
  have hbytes : ∀ path ∈ rootPath :: entries, ∀ b ∈ path, PlainByte b := by
    intro path hmem
    rcases List.mem_cons.mp hmem with rfl | hmem
    · intro b hb
      rw [List.mem_singleton.mp hb]
      exact plainByte_slash
    · obtain ⟨hroot, hbound⟩ := (hentries path).mp hmem
      obtain ⟨id, hid⟩ := Option.ne_none_iff_exists'.mp hbound
      exact plainByte_of_mem_records hread (hrecord hroot hid)
  have hmem : path ∈ rootPath :: entries :=
    List.mem_cons_of_mem _ ((hentries path).mpr ⟨hroot, by simp [hid]⟩)
  have hread' := hread
  rw [readDump_words, words_dump hbytes] at hread'
  obtain ⟨results, hresults, hfilter⟩ := bind_eq_ok_iff.mp hread'
  obtain rfl := Except.ok.inj hfilter
  have hplain : ¬ [slash, slash] <+: path := by
    obtain ⟨result, hresult, rfl : result = some (path, id)⟩ :=
      List.mem_filterMap.mp (hrecord hroot hid)
    obtain ⟨line, hline, hline'⟩ := exists_of_mem_mapM hresults hresult
    obtain ⟨other, hother, rfl⟩ := List.mem_map.mp hline
    obtain ⟨otherID, hotherID⟩ : ∃ otherID, ns.entry other = some otherID := by
      rcases List.mem_cons.mp hother with rfl | hother
      · exact ⟨0, ns.root_entry⟩
      · exact Option.ne_none_iff_exists'.mp ((hentries other).mp hother).2
    rw [readRecord_recordOf (hbytes other hother) hotherID] at hline'
    split at hline'
    next => exact absurd hline' (by simp)
    next =>
      split at hline'
      next =>
        obtain ⟨rfl, -⟩ := Prod.mk.inj (Option.some.inj (Except.ok.inj hline'))
        rintro ⟨rest, hrest⟩
        simp only [printedPath, List.cons_append, List.cons.injEq, true_and] at hrest
        have hhead := List.head?_dropWhile_not (fun b => decide (b = slash)) other
        rw [← hrest] at hhead
        simp at hhead
      next => exact absurd hline' (by simp)
  refine ⟨hplain, hbytes path hmem, ?_⟩
  obtain ⟨rest, hrest⟩ := exists_slash_of_entry ns path (by simp [hid])
  obtain ⟨result, -, hline⟩ := mapM_ok_of_mem hresults (List.mem_map_of_mem hmem)
  rw [readRecord_recordOf (hbytes path hmem) hid, (printedPath_eq_iff hrest).mpr hplain,
    if_neg hroot] at hline
  by_contra hlarge
  rw [if_neg hlarge] at hline
  exact absurd hline (by simp)

end FileTree

/-- In every tree that removals have left intact, the entries survive a restart
exactly if all of them are portable. -/
theorem survives_iff (keyHash : Bytes → Nat) {ops : List TreeOp} {tree : FileTree}
    (hrun : ((treeSystem keyHash).restrict fun tree op => op.Unlinks tree).Run ops tree)
    (machineID : MachineID) :
    tree.Survives machineID ↔ ∀ path id, tree.Holds path id → FileTree.Portable path id := by
  obtain ⟨ns, addr, h⟩ := (invariant_faithful keyHash).run hrun
  constructor
  · exact fun hsurvives path id hholds => h.portable_of_survives hsurvives (h.holds_iff.mp hholds)
  · exact fun hportable => h.survives machineID fun path id hid =>
      hportable path id (h.holds_iff.mpr hid)

theorem survives_iff_example :
    ∃ tree, ((treeSystem List.length).restrict fun tree op => op.Unlinks tree).Run
        [.addDir (ascii "/a"), .addFile (ascii "/a/b") 7] tree ∧
      (tree.Survives 1 ↔ ∀ path id, tree.Holds path id → FileTree.Portable path id) := by
  have hrun : ∃ tree, ((treeSystem List.length).restrict fun tree op => op.Unlinks tree).Run
      [.addDir (ascii "/a"), .addFile (ascii "/a/b") 7] tree :=
    ⟨_, _, rfl, .cons ⟨trivial, 0, true, rfl⟩ (.cons ⟨trivial, 0, true, rfl⟩ (.nil _))⟩
  obtain ⟨tree, hrun⟩ := hrun
  exact ⟨tree, hrun, survives_iff _ hrun 1⟩

/-- A file name with a blank in it is torn apart when the dump is read back. -/
theorem exists_run_not_survives :
    ∃ tree, ((treeSystem List.length).restrict fun tree op => op.Unlinks tree).Run
      [.addFile (ascii "/a b") 1] tree ∧ ¬ tree.Survives 1 := by
  have hrun : ∃ tree, ((treeSystem List.length).restrict fun tree op => op.Unlinks tree).Run
      [.addFile (ascii "/a b") 1] tree ∧ tree.Holds (ascii "/a b") 1 :=
    ⟨_, ⟨_, rfl, .cons ⟨trivial, 0, true, rfl⟩ (.nil _)⟩, 1, _, rfl, rfl, rfl⟩
  obtain ⟨tree, hrun, hholds⟩ := hrun
  refine ⟨tree, hrun, fun hsurvives => ?_⟩
  obtain ⟨ns, addr, h⟩ := (invariant_faithful _).run hrun
  have hportable := h.portable_of_survives hsurvives (h.holds_iff.mp hholds)
  exact (hportable.bytes 32 (by decide)).1 (by decide)

end Doopey
