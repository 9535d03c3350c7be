import Doopey.File.Requests

/-!
# One request after the other

A cluster in which the broadcast of a request is handled everywhere before the
next request comes. Every machine then makes the same calls on its file tree, but
for the removal of a directory, which `handleRemove` does not broadcast.

The blocks of the machines, and what they learn about them from each other, may
be anything at the time of a request.
-/

namespace Doopey

open Foundation FileManager

/-- What the tree says of a path: nothing if it is absent, and otherwise whether
it is a file and the ID of its meta block. A key may point to freed memory. -/
def FileTree.entryAt (tree : FileTree) (path : Bytes) : Option (Option (Bool × BlockID)) :=
  (tree.fileMap.getValue path).map fun address =>
    (tree.heap address).map fun node => (node.isFile, node.metaID)

variable {ι : Type}

/-- The trees of all machines say the same of every path. -/
def Agree (trees : ι → FileTree) : Prop :=
  ∀ i j path, (trees i).entryAt path = (trees j).entryAt path

/-- A machine handles the broadcast of another one, if there is one. -/
def Hears (tree : FileTree) (msg : Option Message) (tree' : FileTree) : Prop :=
  match msg with
  | none => tree' = tree
  | some msg => ∃ fuel result, handleBroadcast fuel tree msg = .ok (tree', result)

/-- Machines that handle a request and its broadcast before the next request. -/
def clusterSystem (ι : Type) (keyHash : Bytes → Nat) : System (ι → FileTree) (ι × Request) where
  init trees := trees = fun _ => FileTree.new keyHash
  step trees label trees' := ∃ remote fuel manager manager' msg,
    label.2.handle remote fuel ⟨manager, trees label.1⟩ =
      .ok (⟨manager', trees' label.1⟩, msg, true) ∧
    ∀ j ≠ label.1, Hears (trees j) msg (trees' j)

/-- A directory is only removed if there is no other machine. -/
def KeepsDirs (label : ι × Request) : Prop := label.2.RemovesDir → ∀ j, j = label.1

/-- The trees are not only alike, but the same. -/
def Shared (tree : FileTree) (trees : ι → FileTree) : Prop :=
  tree.Keyed ∧ trees = fun _ => tree

theorem Shared.agree {tree : FileTree} {trees : ι → FileTree} (h : Shared tree trees) :
    Agree trees := by
  rw [h.2]
  exact fun _ _ _ => rfl

theorem hears_some {tree tree' : FileTree} {msg : Message} :
    Hears tree (some msg) tree' ↔
      ∃ fuel result, handleBroadcast fuel tree msg = .ok (tree', result) := Iff.rfl

/-- What a machine does to its tree, the others do as well, unless it removes a
directory. -/
theorem Request.Accepted.hears {fuel : Nat} {tree tree' : FileTree} {request : Request}
    {msg : Option Message} (h : request.Accepted fuel tree msg tree')
    (hkeeps : ¬ request.RemovesDir) {other : FileTree} : Hears tree msg other ↔ other = tree' := by
  have hsame {run : Except Fault (FileTree × Bool)} {result : Bool}
      (hrun : run = .ok (tree', result)) :
      (∃ _ : Nat, ∃ result, run = .ok (other, result)) ↔ other = tree' := by
    rw [hrun]
    constructor
    · rintro ⟨-, result', heq⟩
      exact (Prod.mk.inj (Except.ok.inj heq)).1.symm
    · intro heq
      exact ⟨0, result, by rw [heq]⟩
  cases h with
  | uploaded inputs name id _ hlength hadd =>
      simp only [hears_some, handleBroadcast_newFile _ _ hlength]
      exact hsame hadd
  | made dir _ hadd =>
      simp only [hears_some, handleBroadcast_newDir]
      exact hsame hadd
  | removedFile msg result _ hcmd hremove =>
      simp only [hears_some, handleBroadcast_rmFile]
      exact hsame hremove
  | removedDir msg _ hcmd hremove => exact absurd hcmd hkeeps

/-- Every success is a call on the tree of the machine. -/
theorem Request.Accepted.run {fuel : Nat} {tree tree' : FileTree} {request : Request}
    {msg : Option Message} (h : request.Accepted fuel tree msg tree') :
    ∃ op result, TreeOp.run fuel tree op = .ok (tree', result) := by
  cases h with
  | uploaded inputs name id _ hlength hadd => exact ⟨.addFile name id, true, hadd⟩
  | made dir _ hadd => exact ⟨.addDir dir, true, hadd⟩
  | removedFile msg result _ hcmd hremove => exact ⟨.removeFile msg.data, result, hremove⟩
  | removedDir msg _ hcmd hremove => exact ⟨.removeDir msg.data, true, hremove⟩

/-- The removal of a directory is not heard of, and it takes the path away. -/
theorem Request.Accepted.forgets {fuel : Nat} {tree tree' : FileTree} {request : Request}
    {msg : Option Message} (h : request.Accepted fuel tree msg tree')
    (hremoves : request.RemovesDir) (hwf : tree.fileMap.WF) :
    msg = none ∧ ∃ path, tree.entryAt path ≠ none ∧ tree'.entryAt path = none := by
  cases h with
  | uploaded => exact absurd hremoves id
  | made => exact absurd hremoves id
  | removedFile msg result _ hcmd hremove =>
      exact absurd (hcmd.eq hremoves) (by decide)
  | removedDir msg _ hcmd hremove =>
      obtain ⟨hbefore, hafter⟩ := FileTree.absent_of_removeDir hwf hremove
      refine ⟨rfl, msg.data, ?_, ?_⟩
      · rw [FileTree.entryAt, Ne, Option.map_eq_none_iff]
        exact hbefore
      · rw [FileTree.entryAt, hafter]
        rfl

section Steps

variable {keyHash : Bytes → Nat} {tree : FileTree} {trees trees' : ι → FileTree}
  {label : ι × Request}

/-- All trees go through the same change. -/
theorem Shared.step (h : Shared tree trees) (hkeeps : KeepsDirs label)
    (hstep : (clusterSystem ι keyHash).step trees label trees') :
    ∃ tree', Shared tree' trees' := by
  obtain ⟨hkeyed, rfl⟩ := h
  obtain ⟨i, request⟩ := label
  obtain ⟨remote, fuel, manager, manager', msg, hhandle, hothers⟩ := hstep
  have haccepted := Request.accepted_of_handle hkeyed.2 hhandle
  refine ⟨trees' i, ?_, ?_⟩
  · obtain ⟨op, result, hrun⟩ := haccepted.run
    exact (invariant_keyed keyHash).step hkeyed ⟨fuel, result, hrun⟩
  · ext j
    by_cases hremoves : request.RemovesDir
    · rw [hkeeps hremoves j]
    · by_cases hj : j = i
      · rw [hj]
      · exact (haccepted.hears hremoves).mp (hothers j hj)

/-- A request that succeeds is followed by a state in which all have heard of it. -/
theorem Shared.exists_step (h : Shared tree trees) {i : ι} {request : Request} {remote : Remote}
    {fuel : Nat} {manager : BlockManager} {store : Store} {msg : Option Message}
    (hhandle : request.handle remote fuel ⟨manager, trees i⟩ = .ok (store, msg, true)) :
    ∃ trees', (clusterSystem ι keyHash).step trees (i, request) trees' := by
  classical
  obtain ⟨hkeyed, rfl⟩ := h
  have haccepted := Request.accepted_of_handle hkeyed.2 hhandle
  refine ⟨fun j => if j = i then store.tree else if request.RemovesDir then tree else store.tree,
    remote, fuel, manager, store.manager, msg, ?_, ?_⟩
  · dsimp only at hhandle ⊢
    rw [if_pos rfl]
    exact hhandle
  · intro j hj
    dsimp only at hj ⊢
    rw [if_neg hj]
    by_cases hremoves : request.RemovesDir
    · rw [if_pos hremoves, (haccepted.forgets hremoves hkeyed.1).1]
      rfl
    · rw [if_neg hremoves]
      exact (haccepted.hears hremoves).mpr rfl

/-- After the removal of a directory the trees of two machines differ. -/
theorem Shared.not_agree (h : Shared tree trees) (hforgets : ¬ KeepsDirs label)
    (hstep : (clusterSystem ι keyHash).step trees label trees') : ¬ Agree trees' := by
  intro hagree
  obtain ⟨hkeyed, rfl⟩ := h
  obtain ⟨i, request⟩ := label
  obtain ⟨hremoves, hother⟩ := Classical.not_imp.mp hforgets
  obtain ⟨j, hj⟩ := Classical.not_forall.mp hother
  obtain ⟨remote, fuel, manager, manager', msg, hhandle, hothers⟩ := hstep
  obtain ⟨rfl, path, hbefore, hafter⟩ :=
    (Request.accepted_of_handle hkeyed.2 hhandle).forgets hremoves hkeyed.1
  have hkept : trees' j = tree := hothers j hj
  apply hbefore
  rw [← hkept, hagree j i path]
  exact hafter

end Steps

/-- As long as no directory is removed under the eyes of another machine, all
trees agree, and a request that succeeds is heard of everywhere. After the next
step they agree exactly if it goes on like this. -/
theorem agree_iff (keyHash : Bytes → Nat) {labels : List (ι × Request)} {trees : ι → FileTree}
    (hrun : ((clusterSystem ι keyHash).restrict fun _ label => KeepsDirs label).Run labels trees) :
    Agree trees ∧
    (∀ i request remote fuel manager store msg,
      request.handle remote fuel ⟨manager, trees i⟩ = .ok (store, msg, true) →
      ∃ trees', (clusterSystem ι keyHash).step trees (i, request) trees') ∧
    ∀ label trees', (clusterSystem ι keyHash).step trees label trees' →
      (Agree trees' ↔ KeepsDirs label) := by
  have hinv : ((clusterSystem ι keyHash).restrict fun _ label => KeepsDirs label).Invariant
      fun trees => ∃ tree, Shared tree trees := by
    refine ⟨?_, ?_⟩
    · rintro trees rfl
      exact ⟨_, (invariant_keyed keyHash).init rfl, rfl⟩
    · rintro trees trees' label ⟨tree, h⟩ ⟨hkeeps, hstep⟩
      exact h.step hkeeps hstep
  obtain ⟨tree, h⟩ := hinv.run hrun
  refine ⟨h.agree, fun i request remote fuel manager store msg hhandle =>
    h.exists_step hhandle, ?_⟩
  intro label trees' hstep
  constructor
  · intro hagree
    by_contra hforgets
    exact h.not_agree hforgets hstep hagree
  · intro hkeeps
    obtain ⟨tree', h'⟩ := h.step hkeeps hstep
    exact h'.agree

/-- A request to remove a directory. -/
def rmDirRequest (path : Bytes) : Request := .remove ((Message.new .file .rmDir).addData path)

/-- A directory is made everywhere. -/
theorem step_addDir (keyHash : Bytes → Nat) {tree tree' : FileTree} {dir : Bytes}
    (hadd : tree.addDir dir = .ok (tree', true)) (i : ι) :
    (clusterSystem ι keyHash).step (fun _ => tree) (i, .addDir dir) fun _ => tree' := by
  refine ⟨⟨fun _ => none, fun _ _ => none⟩, 0, .new 1 (by decide), .new 1 (by decide),
    some (newDirMessage dir), ?_, fun j _ => ⟨0, true, hadd⟩⟩
  rw [Request.handle, handleAddDir, hadd]
  rfl

theorem agree_iff_example : ∃ trees : Bool → FileTree,
    ((clusterSystem Bool List.length).restrict fun _ label => KeepsDirs label).Run
      [(true, .addDir (ascii "/a"))] trees ∧ Agree trees := by
  have hadd : ∃ tree, (FileTree.new List.length).addDir (ascii "/a") = .ok (tree, true) := ⟨_, rfl⟩
  obtain ⟨tree, hadd⟩ := hadd
  have hrun : ((clusterSystem Bool List.length).restrict fun _ label => KeepsDirs label).Run
      [(true, .addDir (ascii "/a"))] fun _ => tree :=
    ⟨_, rfl, .cons ⟨False.elim, step_addDir List.length hadd true⟩ (.nil _)⟩
  exact ⟨_, hrun, (agree_iff List.length hrun).1⟩

/-- A directory that is removed on one machine stays on the other one. -/
theorem exists_run_not_agree : ∃ trees : Bool → FileTree, (clusterSystem Bool List.length).Run
    [(true, .addDir (ascii "/a")), (true, rmDirRequest (ascii "/a"))] trees ∧ ¬ Agree trees := by
  have hcalls : ∃ tree tree', (FileTree.new List.length).addDir (ascii "/a") = .ok (tree, true) ∧
      FileTree.removeDir 2 tree (ascii "/a") = .ok (tree', true) ∧
      tree'.entryAt (ascii "/a") = none ∧ tree.entryAt (ascii "/a") = some (some (false, 0)) :=
    ⟨_, _, rfl, rfl, rfl, rfl⟩
  obtain ⟨tree, tree', hadd, hremove, hgone, hthere⟩ := hcalls
  refine ⟨fun machine => if machine then tree' else tree,
    ⟨_, rfl, .cons (step_addDir List.length hadd true) (.cons ?_ (.nil _))⟩, ?_⟩
  · refine ⟨⟨fun _ => none, fun _ _ => none⟩, 2, .new 1 (by decide), .new 1 (by decide), none, ?_, ?_⟩
    · have hcmd : ((Message.new .file .rmDir).addData (ascii "/a")).Is .rmDir := rfl
      have hdata : ((Message.new .file .rmDir).addData (ascii "/a")).data = ascii "/a" := rfl
      dsimp only [rmDirRequest]
      rw [Request.handle, handleRemove, if_pos hcmd, hdata, hremove]
      rfl
    · intro machine hmachine
      cases machine with
      | true => exact absurd rfl hmachine
      | false => rfl
  · intro hagree
    have hsame : tree'.entryAt (ascii "/a") = tree.entryAt (ascii "/a") :=
      hagree true false (ascii "/a")
    rw [hgone, hthere] at hsame
    exact absurd hsame (by simp)

end Doopey
