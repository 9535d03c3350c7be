import Doopey.Foundation.Decimal
import Doopey.Foundation.Except
import Doopey.File.HashList
import Doopey.File.Path

/-!
# The file tree

`FileTree` keeps every file and directory twice: in a first-child/next-sibling
tree of heap cells, and in a hash table from full paths to those cells. Cells
live at the addresses of an explicit heap, and the operations follow the
pointers the source follows, so that a null, dangling or never assigned pointer
shows up as a `Fault`.

Loops along links and recursion over directories take a bound on the number of
steps. Running out of it is reported as `Fault.divergence`; a larger bound never
changes a result (`removeDir_extends`).
-/

namespace Doopey

open Foundation

/-- `class TreeNode`. The constructor leaves `_parent` unassigned, which is
`parent = none`; `NULL` is never stored there. -/
structure TreeNode where
  isFile : Bool
  name : Bytes
  children : Option Nat
  next : Option Nat
  last : Option Nat
  parent : Option Nat
  metaID : BlockID
  deriving DecidableEq

namespace TreeNode

/-- `TreeNode::TreeNode` -/
def new : TreeNode :=
  { isFile := false, name := [], children := none, next := none, last := none,
    parent := none, metaID := 0 }

/-- `TreeNode::getID` -/
def getID (node : TreeNode) : BlockID := node.metaID

end TreeNode

/-- `class FileTree` with the heap its cells live in. Cells are handed out at
increasing addresses, starting with the root; `brk` is the next one. -/
structure FileTree where
  heap : Nat → Option TreeNode
  brk : Nat
  root : Nat
  fileMap : HashList Bytes (Option Nat)

namespace FileTree

/-- `FileTree::FileTree`, for an arbitrary hash function on strings. -/
def new (keyHash : Bytes → Nat) : FileTree where
  heap := Function.update (fun _ => none) 0 (some { TreeNode.new with name := rootPath })
  brk := 1
  root := 0
  fileMap := (HashList.new keyHash HashList.defaultSize).add rootPath (some 0)

/-! ## Pointers -/

/-- Follow a pointer to a cell. -/
def deref (tree : FileTree) (address : Nat) : Except Fault TreeNode :=
  match tree.heap address with
  | some node => .ok node
  | none => .error .badPointer

/-- Assign fields of the cell at an address. -/
def assign (tree : FileTree) (address : Nat) (change : TreeNode → TreeNode) : FileTree :=
  { tree with heap := Function.update tree.heap address ((tree.heap address).map change) }

/-- `if (pointer != NULL)`, assign fields of the cell it points to. -/
def assignIf (tree : FileTree) (pointer : Option Nat) (change : TreeNode → TreeNode) :
    Except Fault FileTree :=
  match pointer with
  | none => .ok tree
  | some address => do
      let _ ← tree.deref address
      .ok (tree.assign address change)

/-- `new TreeNode()` with the fields that are set right after it. -/
def alloc (tree : FileTree) (node : TreeNode) : FileTree :=
  { tree with heap := Function.update tree.heap tree.brk (some node), brk := tree.brk + 1 }

/-- `free` -/
def free (tree : FileTree) (address : Nat) : FileTree :=
  { tree with heap := Function.update tree.heap address none }

/-! ## Operations -/

/-- `FileTree::searchDir` -/
def searchDir (tree : FileTree) (dirPath : Bytes) : Option Nat := tree.fileMap.getValue dirPath

/-- The loop of `addFile` that walks to the last child. -/
def lastSibling (tree : FileTree) : Nat → Nat → Except Fault Nat
  | 0, _ => .error .divergence
  | fuel + 1, insert => do
      let node ← tree.deref insert
      match node.next with
      | none => .ok insert
      | some next => tree.lastSibling fuel next

/-- The part of `addFile` behind its checks: hang a new cell into the directory
at `insert`. A chain visits each of the `brk` cells at most once, unless it is a
cycle. -/
def insertChild (tree : FileTree) (insert : Nat) (name path : Bytes) (metaID : BlockID) :
    Except Fault FileTree := do
  let dir ← tree.deref insert
  let fresh := tree.brk
  let filled := { TreeNode.new with name := name, isFile := decide (metaID ≠ 0), metaID := metaID }
  match dir.children with
  | some first =>
      let last ← tree.lastSibling tree.brk first
      let tree := (tree.alloc { filled with last := some last }).assign last
        (fun node => { node with next := some fresh })
      .ok { tree with fileMap := tree.fileMap.add path (some fresh) }
  | none =>
      -- only here is `_parent` assigned
      let tree := (tree.alloc { filled with parent := some insert }).assign insert
        (fun node => { node with children := some fresh })
      .ok { tree with fileMap := tree.fileMap.add path (some fresh) }

/-- `FileTree::addFile` -/
def addFile (tree : FileTree) (path : Bytes) (metaID : BlockID) :
    Except Fault (FileTree × Bool) :=
  if tree.fileMap.getValue path ≠ none then .ok (tree, false)
  else match dirOf path with
    | none => .ok (tree, false)
    | some dir =>
        match tree.searchDir dir with
        | none => .ok (tree, false)
        | some insert => do
            let node ← tree.deref insert
            if node.isFile then .ok (tree, false)
            else do
              let tree ← tree.insertChild insert (getFileName path) path metaID
              .ok (tree, true)

/-- An addition that is refused leaves the tree alone. -/
theorem eq_of_addFile_false {tree tree' : FileTree} {path : Bytes} {metaID : BlockID}
    (hrun : tree.addFile path metaID = .ok (tree', false)) : tree' = tree := by
  have hsame {tree' : FileTree} (h : Except.ok (ε := Fault) (tree, false) = .ok (tree', false)) :
      tree' = tree := (Prod.mk.inj (Except.ok.inj h)).1.symm
  unfold addFile at hrun
  split at hrun
  next => exact hsame hrun
  next =>
    split at hrun
    next => exact hsame hrun
    next =>
      split at hrun
      next => exact hsame hrun
      next =>
        obtain ⟨node, -, hrun⟩ := bind_eq_ok_iff.mp hrun
        split at hrun
        next => exact hsame hrun
        next =>
          obtain ⟨inserted, -, hrun⟩ := bind_eq_ok_iff.mp hrun
          exact absurd (Prod.mk.inj (Except.ok.inj hrun)).2 (by simp)

/-- `FileTree::addDir` -/
def addDir (tree : FileTree) (path : Bytes) : Except Fault (FileTree × Bool) :=
  tree.addFile path 0

/-- `FileTree::removeNode`. The test of `(tn->_parent)->_children` follows a
pointer that only the first child of a directory ever got. -/
def removeNode (tree : FileTree) (tn : Nat) : Except Fault FileTree := do
  let node ← tree.deref tn
  let tree ← tree.assignIf node.last (fun cell => { cell with next := node.next })
  let tree ← tree.assignIf node.next (fun cell => { cell with last := node.last })
  match node.parent with
  | none => .error .indeterminate
  | some parent => do
      -- only the first child is linked from its directory
      let dir ← tree.deref parent
      let tree := if dir.children = some tn then
          tree.assign parent (fun cell => { cell with children := node.next })
        else tree
      .ok (tree.free tn)

/-- `FileTree::removeFile` -/
def removeFile (tree : FileTree) (path : Bytes) : Except Fault (FileTree × Bool) :=
  match tree.fileMap.getValue path with
  | none => .ok (tree, false)
  | some remove => do
      let node ← tree.deref remove
      if node.isFile = false then .ok (tree, false)
      else do
        -- the key goes before the cell
        let (fileMap, result) ← tree.fileMap.remove path
        let tree := { tree with fileMap := fileMap }
        if result = false then .ok (tree, false)
        else do
          let tree ← tree.removeNode remove
          .ok (tree, true)

mutual

/-- `FileTree::removeDir` -/
def removeDir : Nat → FileTree → Bytes → Except Fault (FileTree × Bool)
  | 0, _, _ => .error .divergence
  | fuel + 1, tree, path =>
      match tree.fileMap.getValue path with
      | none => .ok (tree, false)
      | some remove => do
          let node ← tree.deref remove
          if node.isFile then .ok (tree, false)
          else do
            let (fileMap, result) ← tree.fileMap.remove path
            let tree := { tree with fileMap := fileMap }
            if result = false then .ok (tree, false)
            else do
              let tree ← removeChildren fuel tree path remove node.children
              let tree ← tree.removeNode remove
              .ok (tree, true)

/-- The loop of `removeDir`. After each child it goes on with the sibling of the
removed directory itself, `remove->_next`. -/
def removeChildren : Nat → FileTree → Bytes → Nat → Option Nat → Except Fault FileTree
  | 0, _, _, _, _ => .error .divergence
  | _ + 1, tree, _, _, none => .ok tree
  | fuel + 1, tree, path, remove, some next => do
      let child ← tree.deref next
      let newpath := path ++ slash :: child.name
      let (tree, _) ← if child.isFile then tree.removeFile newpath
        else removeDir fuel tree newpath
      let node ← tree.deref remove
      removeChildren fuel tree path remove node.next

end

/-- `FileTree::getMetaID` -/
def getMetaID (tree : FileTree) (filePath : Bytes) : Except Fault BlockID :=
  match tree.fileMap.getValue filePath with
  | none => .ok 0
  | some tn => do
      let node ← tree.deref tn
      .ok node.getID

/-- The loop of `getChildren`, which inserts in front. -/
def childNames (tree : FileTree) : Nat → Option Nat → List Bytes → Except Fault (List Bytes)
  | 0, _, _ => .error .divergence
  | _ + 1, none, result => .ok result
  | fuel + 1, some working, result => do
      let node ← tree.deref working
      let addString := if node.isFile then node.name else node.name ++ [slash]
      tree.childNames fuel node.next (addString :: result)

/-- `FileTree::getChildren` -/
def getChildren (tree : FileTree) (filePath : Bytes) : Except Fault (List Bytes) :=
  match tree.fileMap.getValue filePath with
  | none => .ok []
  | some tn => do
      let node ← tree.deref tn
      tree.childNames (tree.brk + 1) node.children []

/-- The prefix that `getTotalNode` hands on to the entries of a directory it
printed as `name`. -/
def nextDir (name : Bytes) : Bytes := if name ≠ rootPath then name ++ [slash] else name

/-- The line that `getTotalNode` writes for a node. -/
def totalLine (name : Bytes) (id : BlockID) : Bytes :=
  name ++ colon :: decimal id.toNat ++ [newline]

mutual

/-- `FileTree::getTotalNode` -/
def getTotalNode : Nat → FileTree → Nat → Bytes → Except Fault Bytes
  | 0, _, _, _ => .error .divergence
  | fuel + 1, tree, tn, dir => do
      let node ← tree.deref tn
      let name := dir ++ node.name
      let rest ← getTotalChildren fuel tree (nextDir name) node.children
      .ok (totalLine name (if node.isFile then node.getID else 0) ++ rest)

/-- The loop of `getTotalNode`. -/
def getTotalChildren : Nat → FileTree → Bytes → Option Nat → Except Fault Bytes
  | 0, _, _, _ => .error .divergence
  | _ + 1, _, _, none => .ok []
  | fuel + 1, tree, nextDir, some working => do
      let text ← getTotalNode fuel tree working nextDir
      let node ← tree.deref working
      let rest ← getTotalChildren fuel tree nextDir node.next
      .ok (text ++ rest)

end

/-- `FileTree::getTotalTree` -/
def getTotalTree (fuel : Nat) (tree : FileTree) : Except Fault Bytes :=
  getTotalNode fuel tree tree.root []

/-! ## Bounds on the number of steps -/

/-- A call that ends within a bound ends in the same way within a larger one. -/
theorem removeDir_extends (fuel : Nat) :
    (∀ tree path, Extends (removeDir fuel tree path) (removeDir (fuel + 1) tree path)) ∧
    (∀ tree path remove next, Extends (removeChildren fuel tree path remove next)
      (removeChildren (fuel + 1) tree path remove next)) := by
  induction fuel with
  | zero =>
      exact ⟨fun _ _ => .of_error _ _, fun _ _ _ _ => .of_error _ _⟩
  | succ fuel ih =>
      obtain ⟨ihDir, ihChildren⟩ := ih
      refine ⟨?_, ?_⟩
      · intro tree path
        rw [removeDir, removeDir]
        split
        next => exact .refl _
        next remove _ =>
          refine .bind (.refl _) fun node => ?_
          split
          next => exact .refl _
          next =>
            refine .bind (.refl _) fun removed => ?_
            dsimp only
            split
            next => exact .refl _
            next => exact .bind (ihChildren _ _ _ _) fun _ => .refl _
      · intro tree path remove next
        cases next with
        | none => exact .refl _
        | some next =>
            rw [removeChildren, removeChildren]
            refine .bind (.refl _) fun child => ?_
            dsimp only
            split
            next =>
              exact .bind (.refl _) fun _ => .bind (.refl _) fun _ => ihChildren _ _ _ _
            next =>
              exact .bind (ihDir _ _) fun _ => .bind (.refl _) fun _ => ihChildren _ _ _ _

/-- The same for the dump of the tree. -/
theorem getTotalNode_extends (fuel : Nat) :
    (∀ tree tn dir, Extends (getTotalNode fuel tree tn dir) (getTotalNode (fuel + 1) tree tn dir)) ∧
    (∀ tree dir next, Extends (getTotalChildren fuel tree dir next)
      (getTotalChildren (fuel + 1) tree dir next)) := by
  induction fuel with
  | zero => exact ⟨fun _ _ _ => .of_error _ _, fun _ _ _ => .of_error _ _⟩
  | succ fuel ih =>
      obtain ⟨ihNode, ihChildren⟩ := ih
      refine ⟨?_, ?_⟩
      · intro tree tn dir
        rw [getTotalNode, getTotalNode]
        exact .bind (.refl _) fun node => .bind (ihChildren _ _ _) fun _ => .refl _
      · intro tree dir next
        cases next with
        | none => exact .refl _
        | some working =>
            rw [getTotalChildren, getTotalChildren]
            exact .bind (ihNode _ _ _) fun _ => .bind (.refl _) fun _ =>
              .bind (ihChildren _ _ _) fun _ => .refl _

end FileTree

end Doopey
