import Mathlib.Data.Set.Finite.Basic
import Mathlib.Data.Set.Finite.Lattice
import Mathlib.Order.Interval.Finset.Nat
import Doopey.Foundation.Rebuilding
import Doopey.File.TreeViews

/-!
# The dump of the file tree

`getTotalTree` prints a line for every bound path, parents before their entries,
and comes to an end.
-/

namespace Doopey

open Foundation Foundation.DoublyLinked

namespace FileTree

variable {tree : FileTree} {ns : PathTree} {addr : Bytes → Nat}

/-- The line printed for a bound path. -/
def lineOf (ns : PathTree) (path : Bytes) : Bytes :=
  totalLine (printedPath path) ((ns.entry path).getD 0)

/-- A bound on the lengths of the bound paths. -/
theorem Represents.exists_length_lt (h : Represents tree ns [] addr) :
    ∃ bound, ∀ path, ns.entry path ≠ none → path.length < bound := by
  have hfinite : Set.Finite {path : Bytes | ns.entry path ≠ none} := by
    refine Set.Finite.of_finite_image ((Set.finite_Iio tree.brk).subset ?_) (f := addr) ?_
    · rintro _ ⟨path, hentry, rfl⟩
      exact h.addr_lt hentry
    · exact fun path hentry path' hentry' heq => h.addr_inj hentry hentry' heq
  obtain ⟨bound, hbound⟩ := (hfinite.image List.length).bddAbove
  exact ⟨bound + 1, fun path hentry =>
    Nat.lt_succ_of_le (hbound (Set.mem_image_of_mem _ hentry))⟩

/-- The loop over the entries of a directory prints what is printed for each of
them. -/
theorem getTotalChildren_eq {dir : Bytes} {text : Bytes → Bytes} {entries : List Bytes}
    {before first : Option Nat}
    (hchain : Chain TreeNode.next TreeNode.last tree.heap before first (entries.map addr))
    (hentries : ∀ path ∈ entries, ∃ fuel, getTotalNode fuel tree (addr path) dir = .ok (text path)) :
    ∃ fuel, getTotalChildren fuel tree dir first = .ok (entries.flatMap text) := by
  induction entries generalizing before first with
  | nil => exact ⟨1, by rw [List.map_nil, chain_nil] at hchain; rw [hchain]; rfl⟩
  | cons path entries ih =>
      obtain ⟨rfl, node, hnode, -, hrest⟩ := hchain
      obtain ⟨fuel, hrun⟩ := hentries path List.mem_cons_self
      obtain ⟨fuel', hloop⟩ := ih hrest fun path' hmem => hentries path' (List.mem_cons_of_mem _ hmem)
      refine ⟨max fuel fuel' + 1, ?_⟩
      have hrun' : getTotalNode (max fuel fuel') tree (addr path) dir = .ok (text path) :=
        Extends.of_le (fun fuel => (getTotalNode_extends fuel).1 tree (addr path) dir)
          (Nat.le_max_left ..) _ hrun
      have hloop' : getTotalChildren (max fuel fuel') tree dir node.next =
          .ok (entries.flatMap text) :=
        Extends.of_le (fun fuel => (getTotalNode_extends fuel).2 tree dir node.next)
          (Nat.le_max_right ..) _ hloop
      have hderef : tree.deref (addr path) = .ok node := by simp [FileTree.deref, hnode]
      rw [getTotalChildren, hrun', ok_bind, hderef, ok_bind, hloop', ok_bind]
      rfl

/-- What is printed for a bound path and all that is below it. -/
theorem Represents.getTotalNode_eq (h : Represents tree ns [] addr) {bound : Nat}
    (hbound : ∀ path, ns.entry path ≠ none → path.length < bound) (depth : Nat) {path : Bytes}
    (hentry : ns.entry path ≠ none) (hdepth : bound ≤ path.length + depth) :
    ∃ fuel, getTotalNode fuel tree (addr path) (printDir path) =
      .ok ((ns.walk depth path).flatMap (lineOf ns)) := by
  induction depth generalizing path with
  | zero => exact absurd (hbound path hentry) (Nat.not_lt_of_le hdepth)
  | succ depth ih =>
      obtain ⟨id, hid⟩ := Option.ne_none_iff_exists'.mp hentry
      obtain ⟨node, hderef, -, hcell⟩ := h.deref hid
      have hentries : ∀ entry ∈ ns.listing path, ∃ fuel,
          getTotalNode fuel tree (addr entry) (nextDir (printedPath path)) =
            .ok ((ns.walk depth entry).flatMap (lineOf ns)) := by
        intro entry hmem
        obtain ⟨hroot, hentry', hdir⟩ := ns.mem_listing.mp hmem
        have hlt := length_dirOf_lt hdir hroot
        rw [← printDir_of_mem_listing hmem]
        exact ih hentry' (by omega)
      obtain ⟨fuel, hloop⟩ := getTotalChildren_eq hcell.children hentries
      refine ⟨fuel + 1, ?_⟩
      have hline : (if node.isFile then node.getID else 0) = id := by
        rw [hcell.isFile, TreeNode.getID, hcell.metaID]
        by_cases hid0 : id = 0 <;> simp [hid0]
      rw [getTotalNode, hderef, ok_bind]
      dsimp only
      rw [hcell.printed hentry, hloop, ok_bind, hline, Namespace.walk, List.flatMap_cons,
        List.flatMap_assoc]
      simp [lineOf, hid]

/-- The dump has one line for every bound path, in the order of a walk from the root. -/
theorem Represents.getTotalTree_walk (h : Represents tree ns [] addr) {bound : Nat}
    (hbound : ∀ path, ns.entry path ≠ none → path.length < bound) :
    ∃ fuel, getTotalTree fuel tree =
      .ok ((ns.walk (bound + 1) rootPath).flatMap (lineOf ns)) := by
  have hroot : ns.entry rootPath ≠ none := by simp [ns.root_entry]
  obtain ⟨fuel, hrun⟩ := h.getTotalNode_eq hbound (bound + 1) hroot (by omega)
  refine ⟨fuel, ?_⟩
  rw [getTotalTree, ← h.root]
  simpa [printDir] using hrun

/-- The dump has one line for every bound path, starting with the root. -/
theorem Represents.getTotalTree_eq (h : Represents tree ns [] addr) :
    ∃ (fuel : Nat) (entries : List Bytes), getTotalTree fuel tree =
        .ok (lineOf ns rootPath ++ entries.flatMap (lineOf ns)) ∧
      entries.Nodup ∧ ∀ path, path ∈ entries ↔ path ≠ rootPath ∧ ns.entry path ≠ none := by
  obtain ⟨bound, hbound⟩ := h.exists_length_lt
  obtain ⟨fuel, hrun⟩ := h.getTotalTree_walk hbound
  obtain ⟨entries, hwalk, horder⟩ := Namespace.inOrder_walk length_dirOf_lt ns hbound
  rw [hwalk, List.flatMap_cons] at hrun
  exact ⟨fuel, entries, hrun, horder.nodup, fun path => horder.mem⟩

end FileTree

end Doopey
