import Doopey.File.FileTree

/-!
# Unlinking a cell

What `removeNode` does to every cell of the heap, and when it goes through: it follows
the links of the cell, and a `_parent` that was never assigned cannot be followed.
-/

namespace Doopey

open Foundation

namespace FileTree

theorem deref_eq_ok_iff {tree : FileTree} {address : Nat} {node : TreeNode} :
    tree.deref address = .ok node ↔ tree.heap address = some node := by
  unfold deref
  split <;> simp_all

theorem heap_assign (tree : FileTree) (address : Nat) (change : TreeNode → TreeNode) (other : Nat) :
    (tree.assign address change).heap other =
      (tree.heap other).map (if other = address then change else id) := by
  by_cases heq : other = address
  · subst heq
    simp [assign]
  · simp [assign, heq]

theorem assignIf_spec {tree tree' : FileTree} {pointer : Option Nat}
    {change : TreeNode → TreeNode} (hrun : tree.assignIf pointer change = .ok tree') (other : Nat) :
    tree'.heap other =
      (tree.heap other).map (if pointer = some other then change else id) := by
  cases pointer with
  | none =>
      obtain rfl := Except.ok.inj hrun
      simp
  | some address =>
      obtain ⟨node, -, hrun⟩ := bind_eq_ok_iff.mp hrun
      obtain rfl := Except.ok.inj hrun
      rw [heap_assign]
      congr 1
      by_cases heq : other = address
      · simp [heq]
      · simp [heq, Ne.symm heq]

theorem assignIf_eq {tree tree' : FileTree} {pointer : Option Nat}
    {change : TreeNode → TreeNode} (hrun : tree.assignIf pointer change = .ok tree') :
    tree' = { tree with heap := tree'.heap } := by
  cases pointer with
  | none => rw [← Except.ok.inj hrun]
  | some address =>
      obtain ⟨node, -, hrun⟩ := bind_eq_ok_iff.mp hrun
      rw [← Except.ok.inj hrun]
      rfl

/-- Nothing but the heap is changed. -/
theorem removeNode_eq {tree tree' : FileTree} {tn : Nat}
    (hrun : tree.removeNode tn = .ok tree') : tree' = { tree with heap := tree'.heap } := by
  unfold removeNode at hrun
  obtain ⟨node, -, hrun⟩ := bind_eq_ok_iff.mp hrun
  obtain ⟨tree₁, hlast, hrun⟩ := bind_eq_ok_iff.mp hrun
  obtain ⟨tree₂, hnext, hrun⟩ := bind_eq_ok_iff.mp hrun
  have hsame : tree₂ = { tree with heap := tree₂.heap } := by
    rw [assignIf_eq hnext, assignIf_eq hlast]
  split at hrun
  next => exact absurd hrun (by simp)
  next parent _ =>
    obtain ⟨dir, -, hrun⟩ := bind_eq_ok_iff.mp hrun
    rw [← Except.ok.inj hrun]
    dsimp only [free]
    split
    next => rw [assign, hsame]
    next => rw [hsame]

theorem fileMap_removeNode {tree tree' : FileTree} {tn : Nat}
    (hrun : tree.removeNode tn = .ok tree') : tree'.fileMap = tree.fileMap := by
  rw [removeNode_eq hrun]

/-- What `removeNode` leaves of another cell. -/
def relink (node : TreeNode) (tn parent address : Nat) (cell : TreeNode) : TreeNode :=
  { cell with
    next := if node.last = some address then node.next else cell.next
    last := if node.next = some address then node.last else cell.last
    children := if address = parent ∧ cell.children = some tn then node.next else cell.children }

theorem removeNode_spec {tree tree' : FileTree} {tn : Nat}
    (hrun : tree.removeNode tn = .ok tree') :
    tree'.brk = tree.brk ∧ ∃ node parent, tree.heap tn = some node ∧
      node.parent = some parent ∧ ∀ address, tree'.heap address =
        if address = tn then none else (tree.heap address).map (relink node tn parent address) := by
  have hbrk : tree'.brk = tree.brk := by rw [removeNode_eq hrun]
  unfold removeNode at hrun
  obtain ⟨node, hnode, hrun⟩ := bind_eq_ok_iff.mp hrun
  obtain ⟨tree₁, hlast, hrun⟩ := bind_eq_ok_iff.mp hrun
  obtain ⟨tree₂, hnext, hrun⟩ := bind_eq_ok_iff.mp hrun
  split at hrun
  next => exact absurd hrun (by simp)
  next parent hparent =>
    obtain ⟨dir, hdir, hrun⟩ := bind_eq_ok_iff.mp hrun
    rw [deref_eq_ok_iff] at hdir hnode
    obtain rfl := Except.ok.inj hrun
    refine ⟨hbrk, node, parent, hnode, hparent, fun address => ?_⟩
    by_cases heq : address = tn
    · simp [free, heq]
    · rw [if_neg heq]
      have hfree (tree : FileTree) : (tree.free tn).heap address = tree.heap address := by
        simp [free, heq]
      rw [hfree]
      have hheap : tree₂.heap address = (tree.heap address).map fun cell =>
          { cell with
            next := if node.last = some address then node.next else cell.next
            last := if node.next = some address then node.last else cell.last } := by
        rw [assignIf_spec hnext, assignIf_spec hlast, Option.map_map]
        congr 1
        funext cell
        by_cases hl : node.last = some address <;> by_cases hn : node.next = some address <;>
          simp [hl, hn]
      cases hcell : tree.heap address with
      | none =>
          rw [hcell, Option.map_none] at hheap
          split
          next => rw [heap_assign, hheap]; rfl
          next => exact hheap
      | some cell =>
          rw [hcell, Option.map_some] at hheap
          by_cases hpar : address = parent
          · -- the test reads the children of the directory, which are still those of `tree`
            subst hpar
            obtain rfl := Option.some.inj (hheap.symm.trans hdir)
            by_cases hchildren : cell.children = some tn
            · simp [heap_assign, hheap, relink, hchildren]
            · simp [hheap, relink, hchildren]
          · split
            next => simp [heap_assign, hheap, relink, hpar]
            next => simp [hheap, relink, hpar]

section Existence

variable {tree tree' : FileTree}

theorem exists_assignIf_iff {pointer : Option Nat} {change : TreeNode → TreeNode} :
    (∃ tree', tree.assignIf pointer change = .ok tree') ↔
      ∀ address, pointer = some address → (tree.heap address).isSome := by
  cases pointer with
  | none => simp [assignIf]
  | some address =>
      unfold assignIf deref
      cases hcell : tree.heap address with
      | none => simp [hcell]
      | some cell => simp [hcell]

theorem isSome_of_assignIf {pointer : Option Nat} {change : TreeNode → TreeNode}
    (hrun : tree.assignIf pointer change = .ok tree') (address : Nat) :
    (tree'.heap address).isSome = (tree.heap address).isSome := by
  rw [assignIf_spec hrun, Option.isSome_map]

/-- `removeNode` needs the cells that it follows links to. -/
theorem exists_removeNode_iff {tn : Nat} {node : TreeNode} (hnode : tree.heap tn = some node) :
    (∃ tree', tree.removeNode tn = .ok tree') ↔ ∃ parent, node.parent = some parent ∧
      ∀ link, node.last = some link ∨ node.next = some link ∨ parent = link →
        (tree.heap link).isSome := by
  unfold removeNode
  rw [deref_eq_ok_iff.mpr hnode, ok_bind]
  constructor
  · rintro ⟨tree', hrun⟩
    obtain ⟨tree₁, hlast, hrun⟩ := bind_eq_ok_iff.mp hrun
    obtain ⟨tree₂, hnext, hrun⟩ := bind_eq_ok_iff.mp hrun
    cases hparent : node.parent with
    | none =>
        rw [hparent] at hrun
        exact absurd hrun (by simp)
    | some parent =>
        rw [hparent] at hrun
        obtain ⟨dir, hdir, -⟩ := bind_eq_ok_iff.mp hrun
        refine ⟨parent, rfl, ?_⟩
        rintro link (hlink | hlink | rfl)
        · exact exists_assignIf_iff.mp ⟨_, hlast⟩ link hlink
        · rw [← isSome_of_assignIf hlast]
          exact exists_assignIf_iff.mp ⟨_, hnext⟩ link hlink
        · rw [← isSome_of_assignIf hlast, ← isSome_of_assignIf hnext, deref_eq_ok_iff.mp hdir]
          rfl
  · rintro ⟨parent, hparent, hlinks⟩
    obtain ⟨tree₁, hlast⟩ := exists_assignIf_iff.mpr fun link hlink =>
      hlinks link (Or.inl hlink)
    obtain ⟨tree₂, hnext⟩ := (@exists_assignIf_iff tree₁ node.next _).mpr fun link hlink => by
      rw [isSome_of_assignIf hlast]
      exact hlinks link (Or.inr (Or.inl hlink))
    have hdir : (tree₂.heap parent).isSome := by
      rw [isSome_of_assignIf hnext, isSome_of_assignIf hlast]
      exact hlinks parent (Or.inr (Or.inr rfl))
    obtain ⟨dir, hdir⟩ := Option.isSome_iff_exists.mp hdir
    rw [hlast, ok_bind, hnext, ok_bind, hparent]
    dsimp only
    rw [deref_eq_ok_iff.mpr hdir, ok_bind]
    exact ⟨_, rfl⟩

end Existence

end FileTree

end Doopey
