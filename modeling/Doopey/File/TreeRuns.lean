import Doopey.Foundation.Runs
import Doopey.File.TreeRemoval

/-!
# Runs of the file tree

The calls that change a `FileTree` simulate changes of the namespace it
represents, as long as every removal finds its cells the way `Detachable` and
`Removable` say.
-/

namespace Doopey

open Foundation

/-- The calls that change a file tree. -/
inductive TreeOp
  | addFile (path : Bytes) (metaID : BlockID)
  | addDir (path : Bytes)
  | removeFile (path : Bytes)
  | removeDir (path : Bytes)

namespace TreeOp

open FileTree

/-- One call, with a bound on the depth of `removeDir`. -/
def run (fuel : Nat) (tree : FileTree) : TreeOp → Except Fault (FileTree × Bool)
  | addFile path metaID => tree.addFile path metaID
  | addDir path => tree.addDir path
  | removeFile path => tree.removeFile path
  | removeDir path => FileTree.removeDir fuel tree path

/-- If the call is a removal of something that is there, it can unlink the cells
it is after. -/
def Unlinks (tree : FileTree) : TreeOp → Prop
  | addFile _ _ | addDir _ => True
  | removeFile path => ∀ address node, tree.fileMap.getValue path = some address →
      tree.heap address = some node → node.isFile → tree.Detachable path node
  | removeDir path => ∀ address node, tree.fileMap.getValue path = some address →
      tree.heap address = some node → ¬ node.isFile → tree.Removable path

/-- What a call that returns `result` may do to the namespace. -/
def Effect (ns : PathTree) (result : Bool) (ns' : PathTree) : TreeOp → Prop
  | addFile path metaID =>
      (∃ haccept, result = true ∧ ns' = ns.add path metaID haccept) ∨
        (¬ ns.Accepts path ∧ result = false ∧ ns' = ns)
  | addDir path =>
      (∃ haccept, result = true ∧ ns' = ns.add path 0 haccept) ∨
        (¬ ns.Accepts path ∧ result = false ∧ ns' = ns)
  | removeFile path =>
      ((∃ id, id ≠ 0 ∧ ns.entry path = some id) ∧ result = true ∧ Without ns' ns path) ∨
        ((ns.entry path = none ∨ ns.entry path = some 0) ∧ result = false ∧ ns' = ns)
  | removeDir path =>
      (ns.entry path = some 0 ∧ result = true ∧ Without ns' ns path) ∨
        (ns.entry path ≠ some 0 ∧ result = false ∧ ns' = ns)

theorem run_extends (op : TreeOp) (tree : FileTree) (fuel : Nat) :
    Extends (op.run fuel tree) (op.run (fuel + 1) tree) := by
  cases op with
  | removeDir path => exact (FileTree.removeDir_extends fuel).1 tree path
  | _ => exact .refl _

end TreeOp

namespace FileTree

/-- A fresh tree represents the empty root directory. -/
theorem represents_new (keyHash : Bytes → Nat) :
    Represents (new keyHash) (Namespace.initial rootPath dirOf 0) [] (fun _ => 0) := by
  have hfree : (HashList.new keyHash HashList.defaultSize : HashList Bytes (Option Nat)).lookup
      rootPath = none := HashList.lookup_new ..
  have hroot {path : Bytes}
      (hentry : (Namespace.initial rootPath dirOf (0 : BlockID)).entry path ≠ none) :
      path = rootPath := by
    by_contra hne
    rw [Namespace.entry_initial, if_neg hne] at hentry
    exact hentry rfl
  refine ⟨HashList.wf_add (HashList.wf_new ..) _ _ hfree, ?_, rfl, ?_, ?_, ?_⟩
  · intro path
    rw [new, HashList.lookup_add _ _ _ _ hfree, HashList.lookup_new]
    by_cases heq : path = rootPath <;> simp [Namespace.initial, heq]
  · exact fun hfirst hsecond _ => (hroot hfirst).trans (hroot hsecond).symm
  · exact fun _ => Nat.zero_lt_one
  · intro path id hentry
    obtain rfl : path = rootPath := hroot (by simp [hentry])
    obtain rfl : 0 = id := by simpa [Namespace.entry_initial] using hentry
    exact ⟨{ TreeNode.new with name := rootPath }, rfl, rfl, rfl, rfl, rfl, Or.inl rfl,
      fun _ => ⟨rfl, rfl⟩⟩

section Simulation

variable {tree : FileTree} {ns : PathTree} {addr : Bytes → Nat}

theorem Represents.run_addFile (h : Represents tree ns [] addr) (path : Bytes)
    (metaID : BlockID) :
    ∃ tree' result ns' addr', tree.addFile path metaID = .ok (tree', result) ∧
      Represents tree' ns' [] addr' ∧ (TreeOp.addFile path metaID).Effect ns result ns' := by
  by_cases haccept : ns.Accepts path
  · obtain ⟨tree', hrun, h'⟩ := addFile_of_accepts h metaID haccept
    exact ⟨tree', true, _, _, hrun, h', Or.inl ⟨haccept, rfl, rfl⟩⟩
  · exact ⟨tree, false, ns, addr, addFile_of_not_accepts h metaID haccept, h,
      Or.inr ⟨haccept, rfl, rfl⟩⟩

theorem Represents.run_removeFile (h : Represents tree ns [] addr) {path : Bytes}
    (hunlinks : (TreeOp.removeFile path).Unlinks tree) :
    ∃ tree' result ns' addr', tree.removeFile path = .ok (tree', result) ∧
      Represents tree' ns' [] addr' ∧ (TreeOp.removeFile path).Effect ns result ns' := by
  by_cases hfile : ns.entry path = none ∨ ns.entry path = some 0
  · exact ⟨tree, false, ns, addr, removeFile_of_not_file h List.not_mem_nil hfile, h,
      Or.inr ⟨hfile, rfl, rfl⟩⟩
  · obtain ⟨hbound, hdir⟩ := not_or.mp hfile
    obtain ⟨id, hid⟩ := Option.ne_none_iff_exists'.mp hbound
    have hid0 : id ≠ 0 := by
      rintro rfl
      exact hdir hid
    obtain ⟨node, hnode, hcell⟩ := h.cell hid
    have hdetach := hunlinks (addr path) node
      (by rw [h.getValue List.not_mem_nil, hid]; rfl) hnode (by simpa [hcell.isFile] using hid0)
    obtain ⟨tree', ns', hrun, h', -, hpruned⟩ := removeFile_of_detachable h hdetach hid hid0
    exact ⟨tree', true, ns', addr, hrun, h', Or.inl ⟨⟨id, hid0, hid⟩, rfl, hpruned.without⟩⟩

theorem Represents.run_removeDir (h : Represents tree ns [] addr) {path : Bytes}
    (hunlinks : (TreeOp.removeDir path).Unlinks tree) :
    ∃ fuel tree' result ns' addr', FileTree.removeDir fuel tree path = .ok (tree', result) ∧
      Represents tree' ns' [] addr' ∧ (TreeOp.removeDir path).Effect ns result ns' := by
  by_cases hdir : ns.entry path = some 0
  · obtain ⟨node, hnode, hcell⟩ := h.cell hdir
    have hremovable := hunlinks (addr path) node
      (by rw [h.getValue List.not_mem_nil, hdir]; rfl) hnode (by simp [hcell.isFile])
    obtain ⟨fuel, tree', ns', hrun, h', -, hpruned⟩ := remove_of_removable hremovable h hdir
    exact ⟨fuel, tree', true, ns', addr, by simpa using hrun, h',
      Or.inl ⟨hdir, rfl, hpruned.without⟩⟩
  · exact ⟨1, tree, false, ns, addr, removeDir_of_not_dir h List.not_mem_nil hdir 0, h,
      Or.inr ⟨hdir, rfl, rfl⟩⟩

/-- A call that can unlink what it removes ends, and simulates its effect on the
represented namespace. -/
theorem Represents.run (h : Represents tree ns [] addr) {op : TreeOp} (hunlinks : op.Unlinks tree) :
    ∃ fuel tree' result ns' addr', op.run fuel tree = .ok (tree', result) ∧
      Represents tree' ns' [] addr' ∧ op.Effect ns result ns' := by
  cases op with
  | addFile path metaID => exact ⟨0, h.run_addFile path metaID⟩
  | addDir path => exact ⟨0, h.run_addFile path 0⟩
  | removeFile path => exact ⟨0, h.run_removeFile hunlinks⟩
  | removeDir path => exact h.run_removeDir hunlinks

/-- Whatever bound it ran under, a call that can unlink what it removes has
simulated its effect. -/
theorem Represents.of_run (h : Represents tree ns [] addr) {op : TreeOp}
    (hunlinks : op.Unlinks tree) {fuel : Nat} {tree' : FileTree} {result : Bool}
    (hrun : op.run fuel tree = .ok (tree', result)) :
    ∃ ns' addr', Represents tree' ns' [] addr' ∧ op.Effect ns result ns' := by
  obtain ⟨fuel', tree'', result', ns', addr', hrun', h', heffect⟩ := h.run hunlinks
  obtain ⟨rfl, rfl⟩ := Prod.mk.inj (Extends.unique_of_succ (op.run_extends tree) hrun hrun')
  exact ⟨ns', addr', h', heffect⟩

end Simulation

/-- The tree represents some namespace. -/
def Faithful (tree : FileTree) : Prop := ∃ ns addr, Represents tree ns [] addr

end FileTree

/-- Calls on a fresh tree, one after the other. -/
def treeSystem (keyHash : Bytes → Nat) : System FileTree TreeOp where
  init tree := tree = FileTree.new keyHash
  step tree op tree' := ∃ fuel result, op.run fuel tree = .ok (tree', result)

/-- Trees stay faithful as long as removals can unlink what they are after. -/
theorem invariant_faithful (keyHash : Bytes → Nat) :
    ((treeSystem keyHash).restrict fun tree op => op.Unlinks tree).Invariant
      FileTree.Faithful where
  init := by
    rintro tree rfl
    exact ⟨_, _, FileTree.represents_new keyHash⟩
  step := by
    rintro tree tree' op ⟨ns, addr, h⟩ ⟨hunlinks, fuel, result, hrun⟩
    obtain ⟨ns', addr', h', -⟩ := h.of_run hunlinks hrun
    exact ⟨ns', addr', h'⟩

end Doopey
