import Mathlib.Data.Multiset.AddSub
import Doopey.Foundation.Replication
import Doopey.File.Cluster

/-!
# Additions at the same time

Machines that add files and directories while the broadcasts of others are on
their way. A machine that handles a broadcast calls `addFile`, and it drops the
broadcast if `addFile` refuses the path. The trees converge if every broadcast
arrives behind the one of the directory it is about, and if no two machines enter
a path at the same time: then the cluster runs like a replicated map.
-/

namespace Doopey

open Foundation FileManager

/-- The broadcast is about a new entry. -/
def Announces (msg : Message) (path : Bytes) (id : BlockID) : Prop :=
  (path.length < 2 ^ 64 ∧ msg = newFileMessage path id) ∨ (msg = newDirMessage path ∧ id = 0)

theorem Announces.handleBroadcast_eq {msg : Message} {path : Bytes} {id : BlockID}
    (h : Announces msg path id) (fuel : Nat) (tree : FileTree) :
    handleBroadcast fuel tree msg = tree.addFile path id := by
  rcases h with ⟨hlength, rfl⟩ | ⟨rfl, rfl⟩
  · exact handleBroadcast_newFile fuel tree hlength id
  · exact handleBroadcast_newDir fuel tree path

/-- A request to add something enters a path and announces it, or changes nothing. -/
theorem Request.Adds.handle_spec {request : Request} (hadds : request.Adds) {remote : Remote}
    {fuel : Nat} {manager : BlockManager} {tree : FileTree} (hbound : tree.Bound) {store : Store}
    {msg : Option Message} {success : Bool}
    (hrun : request.handle remote fuel ⟨manager, tree⟩ = .ok (store, msg, success)) :
    (msg = none ∧ store.tree = tree) ∨ ∃ sent path id, msg = some sent ∧ Announces sent path id ∧
      tree.addFile path id = .ok (store.tree, true) := by
  cases request with
  | upload inputs =>
      rcases handleUpload_spec hbound hrun with
        ⟨-, hmsg, htree⟩ | ⟨-, name, id, hlength, hmsg, hadd⟩
      · exact Or.inl ⟨hmsg, htree⟩
      · exact Or.inr ⟨_, name, id, hmsg, Or.inl ⟨hlength, rfl⟩, hadd⟩
  | addDir dir =>
      rcases handleAddDir_spec hrun with ⟨-, hmsg, htree⟩ | ⟨-, hmsg, hadd⟩
      · exact Or.inl ⟨hmsg, htree⟩
      · exact Or.inr ⟨_, dir, 0, hmsg, Or.inr ⟨rfl, rfl⟩, hadd⟩
  | remove msg => exact hadds.elim

/-! ## What a tree says -/

namespace FileTree

/-- What a tree says of a path with this ID. -/
def entryOf (id : BlockID) : Option (Bool × BlockID) := some (decide (id ≠ 0), id)

theorem entryOf_injective : Function.Injective entryOf := by
  intro id id' heq
  exact (Prod.mk.inj (Option.some.inj heq)).2

/-- The directory that the path is to be entered in is there. -/
def HasDirOf (tree : FileTree) (path : Bytes) : Prop :=
  ∃ dir, dirOf path = some dir ∧ tree.entryAt dir = some (entryOf 0)

theorem Represents.entryAt_eq {tree : FileTree} {ns : PathTree} {addr : Bytes → Nat}
    (h : Represents tree ns [] addr) (path : Bytes) :
    tree.entryAt path = (ns.entry path).map entryOf := by
  rw [entryAt, h.getValue List.not_mem_nil]
  cases hentry : ns.entry path with
  | none => rfl
  | some id =>
      obtain ⟨node, hnode, hcell⟩ := h.cell hentry
      rw [Option.map_some, Option.map_some, hnode, Option.map_some, Option.map_some, hcell.isFile,
        hcell.metaID, entryOf]

/-- An addition to a sound tree enters exactly the paths that are free and whose
directory is there. -/
theorem Faithful.addFile {tree : FileTree} (h : tree.Faithful) (path : Bytes) (id : BlockID) :
    ∃ tree' result, tree.addFile path id = .ok (tree', result) ∧ tree'.Faithful ∧
      ((result = true ∧ tree.entryAt path = none ∧
          ∀ other, tree'.entryAt other =
            if other = path then some (entryOf id) else tree.entryAt other) ∨
        (result = false ∧ tree' = tree ∧ (tree.HasDirOf path → tree.entryAt path ≠ none))) := by
  obtain ⟨ns, addr, h⟩ := h
  by_cases haccept : ns.Accepts path
  · obtain ⟨tree', hrun, h'⟩ := addFile_of_accepts h id haccept
    refine ⟨tree', true, hrun, ⟨_, _, h'⟩, Or.inl ⟨rfl, ?_, ?_⟩⟩
    · rw [h.entryAt_eq, haccept.1]
      rfl
    · intro other
      rw [h'.entryAt_eq, h.entryAt_eq, Namespace.add]
      dsimp only
      rw [Function.update_apply]
      split <;> rfl
  · refine ⟨tree, false, addFile_of_not_accepts h id haccept, ⟨ns, addr, h⟩,
      Or.inr ⟨rfl, rfl, ?_⟩⟩
    rintro ⟨dir, hdir, hentry⟩ hfree
    rw [h.entryAt_eq, Option.map_eq_none_iff] at hfree
    rw [h.entryAt_eq, Option.map_eq_some_iff] at hentry
    obtain ⟨id', hid', heq⟩ := hentry
    rw [entryOf_injective heq] at hid'
    exact haccept ⟨hfree, dir, hdir, hid'⟩

/-- A path that has been entered is refused from then on. -/
theorem Faithful.addFile_again {tree tree' : FileTree} (h : tree.Faithful) {path : Bytes}
    {id : BlockID} (hadd : tree.addFile path id = .ok (tree', true)) :
    tree'.entryAt path = some (entryOf id) ∧
      ∀ id', tree'.addFile path id' = .ok (tree', false) := by
  obtain ⟨tree₁, result, hrun, hfaithful, hcases⟩ := h.addFile path id
  obtain ⟨rfl, rfl⟩ := Prod.mk.inj (Except.ok.inj (hadd.symm.trans hrun))
  have hentry : tree'.entryAt path = some (entryOf id) := by
    rcases hcases with ⟨-, -, htree⟩ | ⟨hfalse, -⟩
    · rw [htree, if_pos rfl]
    · exact absurd hfalse (by simp)
  refine ⟨hentry, fun id' => ?_⟩
  obtain ⟨tree₂, result, hrun', -, hcases'⟩ := hfaithful.addFile path id'
  rcases hcases' with ⟨-, hfree, -⟩ | ⟨rfl, rfl, -⟩
  · exact absurd (hfree.symm.trans hentry) (by simp)
  · exact hrun'

end FileTree

/-! ## The cluster -/

/-- The trees of the machines, and the broadcasts that they have yet to handle. -/
structure FileNet (ι : Type) where
  trees : ι → FileTree
  inFlight : ι → Multiset Message

/-- A machine handles a request and sends a broadcast, if it does; or a machine
handles a broadcast. -/
inductive FileEvent (ι : Type)
  | accept (i : ι) (request : Request) (msg : Option Message)
  | deliver (j : ι) (msg : Message)

variable {ι : Type} [DecidableEq ι]

/-- `Router::broadcast`, from one machine to all the others. -/
def broadcast (inFlight : ι → Multiset Message) (i : ι) (msg : Option Message) :
    ι → Multiset Message := fun j =>
  match msg with
  | none => inFlight j
  | some msg => if j = i then inFlight j else msg ::ₘ inFlight j

/-- Machines that add files and directories. -/
def additionSystem (ι : Type) [DecidableEq ι] (keyHash : Bytes → Nat) :
    System (FileNet ι) (FileEvent ι) where
  init net := net = ⟨fun _ => FileTree.new keyHash, fun _ => 0⟩
  step net event net' :=
    match event with
    | .accept i request msg => request.Adds ∧ ∃ remote fuel manager store success,
        request.handle remote fuel ⟨manager, net.trees i⟩ = .ok (store, msg, success) ∧
        net' = ⟨Function.update net.trees i store.tree, broadcast net.inFlight i msg⟩
    | .deliver j msg => ∃ rest fuel tree result, net.inFlight j = msg ::ₘ rest ∧
        handleBroadcast fuel (net.trees j) msg = .ok (tree, result) ∧
        net' = ⟨Function.update net.trees j tree, Function.update net.inFlight j rest⟩

/-- A path is entered where no machine has it as something else, and a broadcast
arrives where the directory of its path is there. -/
def Orderly (net : FileNet ι) : FileEvent ι → Prop
  | .accept _ _ msg => ∀ sent path id, msg = some sent → Announces sent path id →
      ∀ j, (net.trees j).entryAt path = none ∨
        (net.trees j).entryAt path = some (FileTree.entryOf id)
  | .deliver j msg => ∀ path id, Announces msg path id → (net.trees j).HasDirOf path

/-- The cluster is in the state of a replicated map. -/
structure Replicates (net : FileNet ι) (replicas : Replicas ι Bytes BlockID) : Prop where
  coherent : replicas.Coherent
  faithful (i : ι) : (net.trees i).Faithful
  bound (i : ι) : (net.trees i).Bound
  entries (i : ι) (path : Bytes) :
    (net.trees i).entryAt path = (replicas.view i path).map FileTree.entryOf
  flights (j : ι) : Multiset.Rel (fun msg binding => Announces msg binding.1 binding.2)
    (net.inFlight j) (replicas.inFlight j)

omit [DecidableEq ι] in
theorem replicates_new (keyHash : Bytes → Nat) :
    ∃ replicas, Replicates (ι := ι) ⟨fun _ => FileTree.new keyHash, fun _ => 0⟩ replicas := by
  have hnew := FileTree.represents_new keyHash
  exact ⟨_, Replicas.coherent_initial _, fun _ => ⟨_, _, hnew⟩,
    fun _ => (invariant_bound keyHash).init rfl, fun _ => hnew.entryAt_eq, fun _ => .zero⟩

section Simulation

variable {net : FileNet ι} {replicas : Replicas ι Bytes BlockID}

/-- The entries of the machines after one of them has entered a path. -/
theorem Replicates.entries_update (h : Replicates net replicas) {i : ι} {tree : FileTree}
    {path : Bytes} {id : BlockID}
    (htree : ∀ other, tree.entryAt other =
      if other = path then some (FileTree.entryOf id) else (net.trees i).entryAt other)
    (j : ι) (other : Bytes) : (Function.update net.trees i tree j).entryAt other =
      (replicas.bind i path id j other).map FileTree.entryOf := by
  rw [Replicas.bind_apply]
  by_cases hj : j = i
  · subst hj
    rw [Function.update_self, htree]
    by_cases hother : other = path
    · rw [if_pos hother, if_pos ⟨rfl, hother⟩]
      rfl
    · rw [if_neg hother, if_neg fun hboth => hother hboth.2, h.entries]
  · rw [Function.update_of_ne hj, if_neg fun hboth => hj hboth.1, h.entries]

omit [DecidableEq ι] in
/-- What no machine says otherwise is bound nowhere otherwise. -/
theorem Replicates.view_of_entry (h : Replicates net replicas) {path : Bytes} {id : BlockID}
    {j : ι} (hentry : (net.trees j).entryAt path = none ∨
      (net.trees j).entryAt path = some (FileTree.entryOf id)) :
    replicas.view j path = none ∨ replicas.view j path = some id := by
  rw [h.entries, Option.map_eq_none_iff, Option.map_eq_some_iff] at hentry
  apply hentry.imp_right
  rintro ⟨id', hview, heq⟩
  rw [hview, FileTree.entryOf_injective heq]

theorem Replicates.accept (h : Replicates net replicas) {i : ι} {tree : FileTree} {sent : Message}
    {path : Bytes} {id : BlockID} (hannounces : Announces sent path id)
    (hadd : (net.trees i).addFile path id = .ok (tree, true))
    (horderly : ∀ j, (net.trees j).entryAt path = none ∨
      (net.trees j).entryAt path = some (FileTree.entryOf id)) :
    Replicates ⟨Function.update net.trees i tree, broadcast net.inFlight i (some sent)⟩
      (replicas.accept i path id) := by
  obtain ⟨tree', result, hrun, hfaithful, hcases⟩ := (h.faithful i).addFile path id
  obtain ⟨rfl, rfl⟩ := Prod.mk.inj (Except.ok.inj (hadd.symm.trans hrun))
  obtain ⟨-, -, htree⟩ | ⟨hfalse, -⟩ := hcases
  · refine ⟨h.coherent.accept fun j => h.view_of_entry (horderly j), ?_, ?_,
      h.entries_update htree, ?_⟩
    · exact Function.forall_update_iff _ _ |>.mpr ⟨hfaithful, fun j _ => h.faithful j⟩
    · exact Function.forall_update_iff _ _ |>.mpr ⟨(h.bound i).addFile hadd, fun j _ => h.bound j⟩
    · intro j
      dsimp only [broadcast, Replicas.accept]
      split
      next => exact h.flights j
      next => exact .cons hannounces (h.flights j)
  · exact absurd hfalse (by simp)

theorem Replicates.deliver (h : Replicates net replicas) {j : ι} {msg : Message}
    {rest : Multiset Message} (hflight : net.inFlight j = msg ::ₘ rest) :
    ∃ path id, Announces msg path id ∧ ∃ tree result,
      (∀ fuel, handleBroadcast fuel (net.trees j) msg = .ok (tree, result)) ∧
      ((net.trees j).HasDirOf path → ∃ replicas',
        Replicates ⟨Function.update net.trees j tree, Function.update net.inFlight j rest⟩
          replicas') := by
  have hrel := h.flights j
  rw [hflight, Multiset.rel_cons_left] at hrel
  obtain ⟨⟨path, id⟩, rest', hannounces, hrest, hbindings⟩ := hrel
  obtain ⟨tree, result, hrun, hfaithful, hcases⟩ := (h.faithful j).addFile path id
  refine ⟨path, id, hannounces, tree, result, fun fuel => ?_, fun hdir =>
    ⟨replicas.receive j path id rest', h.coherent.receive hbindings, ?_, ?_, ?_, ?_⟩⟩
  · rw [hannounces.handleBroadcast_eq, hrun]
  · exact Function.forall_update_iff _ _ |>.mpr ⟨hfaithful, fun k _ => h.faithful k⟩
  · exact Function.forall_update_iff _ _ |>.mpr ⟨(h.bound j).addFile hrun, fun k _ => h.bound k⟩
  · apply h.entries_update
    intro other
    rcases hcases with ⟨-, -, htree⟩ | ⟨-, rfl, hthere⟩
    · exact htree other
    · -- the path was refused because the machine had it already
      split
      next hother =>
        have hmem : (path, id) ∈ replicas.inFlight j := by
          rw [hbindings]
          exact Multiset.mem_cons_self _ _
        have hbound := hthere hdir
        rw [h.entries, Ne, Option.map_eq_none_iff] at hbound
        rw [hother, h.entries, (h.coherent.view_of_mem hmem j).resolve_left hbound]
        rfl
      next => rfl
  · intro k
    dsimp only [Replicas.receive]
    rw [Function.update_apply, Function.update_apply]
    split
    next => exact hrest
    next => exact h.flights k

end Simulation

/-- The cluster runs like a replicated map. -/
theorem invariant_replicates (keyHash : Bytes → Nat) :
    ((additionSystem ι keyHash).restrict Orderly).Invariant
      fun net => ∃ replicas, Replicates net replicas where
  init := by
    rintro net rfl
    exact replicates_new keyHash
  step := by
    rintro net net' event ⟨replicas, h⟩ ⟨horderly, hstep⟩
    cases event with
    | accept i request msg =>
        obtain ⟨hadds, remote, fuel, manager, store, success, hhandle, rfl⟩ := hstep
        rcases hadds.handle_spec (h.bound i) hhandle with
          ⟨rfl, htree⟩ | ⟨sent, path, id, rfl, hannounces, hadd⟩
        · refine ⟨replicas, ?_⟩
          rw [htree, Function.update_eq_self]
          exact h
        · exact ⟨_, h.accept hannounces hadd (horderly sent path id rfl hannounces)⟩
    | deliver j msg =>
        obtain ⟨rest, fuel, tree, result, hflight, hrun, rfl⟩ := hstep
        obtain ⟨path, id, hannounces, tree', result', hrun', hreplicates⟩ := h.deliver hflight
        obtain ⟨rfl, -⟩ := Prod.mk.inj (Except.ok.inj ((hrun' fuel).symm.trans hrun))
        exact hreplicates (horderly path id hannounces)

/-- Without broadcasts in flight, all trees are alike; and a broadcast in flight
can be handled. -/
theorem agree_of_orderly (keyHash : Bytes → Nat) {events : List (FileEvent ι)} {net : FileNet ι}
    (hrun : ((additionSystem ι keyHash).restrict Orderly).Run events net) :
    ((∀ j, net.inFlight j = 0) → Agree net.trees) ∧
    ∀ j, ∀ msg ∈ net.inFlight j, ∃ net', (additionSystem ι keyHash).step net (.deliver j msg) net' := by
  obtain ⟨replicas, h⟩ := (invariant_replicates keyHash).run hrun
  refine ⟨?_, ?_⟩
  · intro hquiet i j path
    -- the replicas have nothing to receive either
    have hnothing : ∀ j, replicas.inFlight j = 0 := by
      intro j
      have hrel := h.flights j
      rwa [hquiet j, Multiset.rel_zero_left] at hrel
    rw [h.entries, h.entries, h.coherent.view_eq hnothing i j]
  · intro j msg hmem
    obtain ⟨rest, hflight⟩ := Multiset.exists_cons_of_mem hmem
    obtain ⟨path, id, -, tree, result, hhandle, -⟩ := h.deliver hflight
    exact ⟨_, rest, 0, tree, result, hflight, hhandle 0, rfl⟩

theorem announces_newDir {dir path : Bytes} {id : BlockID}
    (h : Announces (newDirMessage dir) path id) : dir = path ∧ id = 0 := by
  rcases h with ⟨-, heq⟩ | ⟨heq, hid⟩
  · have hcmd := congrArg Message.cmd heq
    exact absurd (Message.code_injective hcmd) (by decide)
  · exact ⟨congrArg Message.data heq, hid⟩

/-- A directory is made by one of the machines. -/
theorem step_accept_addDir (keyHash : Bytes → Nat) {net : FileNet ι} {i : ι} {tree : FileTree}
    {dir : Bytes} (hadd : (net.trees i).addDir dir = .ok (tree, true)) :
    (additionSystem ι keyHash).step net (.accept i (.addDir dir) (some (newDirMessage dir)))
      ⟨Function.update net.trees i tree, broadcast net.inFlight i (some (newDirMessage dir))⟩ := by
  refine ⟨trivial, ⟨fun _ => none, fun _ _ => none⟩, 0, .new 1 (by decide),
    ⟨.new 1 (by decide), tree⟩, true, ?_, rfl⟩
  rw [Request.handle, handleAddDir, hadd]
  rfl

theorem agree_of_orderly_example : ∃ net : FileNet Bool,
    ((additionSystem Bool List.length).restrict Orderly).Run
      [.accept true (.addDir (ascii "/a")) (some (newDirMessage (ascii "/a"))),
        .deliver false (newDirMessage (ascii "/a"))] net ∧ Agree net.trees := by
  have hadd : ∃ tree, (FileTree.new List.length).addDir (ascii "/a") = .ok (tree, true) := ⟨_, rfl⟩
  obtain ⟨tree, hadd⟩ := hadd
  have hrun : ∃ net : FileNet Bool, ((additionSystem Bool List.length).restrict Orderly).Run
      [.accept true (.addDir (ascii "/a")) (some (newDirMessage (ascii "/a"))),
        .deliver false (newDirMessage (ascii "/a"))] net ∧ ∀ j, net.inFlight j = 0 := by
    refine ⟨_, ⟨_, rfl, .cons ⟨?_, step_accept_addDir List.length hadd⟩
      (.cons ⟨?_, 0, 0, tree, true, rfl, hadd, rfl⟩ (.nil _))⟩, ?_⟩
    · intro sent path id hsent hannounces j
      rw [← Option.some.inj hsent] at hannounces
      obtain ⟨rfl, rfl⟩ := announces_newDir hannounces
      exact Or.inl rfl
    · intro path id hannounces
      obtain ⟨rfl, rfl⟩ := announces_newDir hannounces
      exact ⟨rootPath, rfl, rfl⟩
    · intro j
      cases j <;> rfl
  obtain ⟨net, hrun, hquiet⟩ := hrun
  exact ⟨net, hrun, (agree_of_orderly List.length hrun).1 hquiet⟩

/-- A broadcast that arrives before the one of its directory is lost. -/
theorem not_agree_of_early_broadcast : ∃ net : FileNet Bool, (additionSystem Bool List.length).Run
    [.accept true (.addDir (ascii "/a")) (some (newDirMessage (ascii "/a"))),
      .accept true (.addDir (ascii "/a/b")) (some (newDirMessage (ascii "/a/b"))),
      .deliver false (newDirMessage (ascii "/a/b")),
      .deliver false (newDirMessage (ascii "/a"))] net ∧
    (∀ j, net.inFlight j = 0) ∧ ¬ Agree net.trees := by
  have hcalls : ∃ tree tree', (FileTree.new List.length).addDir (ascii "/a") = .ok (tree, true) ∧
      tree.addDir (ascii "/a/b") = .ok (tree', true) ∧
      (FileTree.new List.length).addDir (ascii "/a/b") = .ok (.new List.length, false) ∧
      tree.entryAt (ascii "/a/b") = none ∧ tree'.entryAt (ascii "/a/b") = some (some (false, 0)) :=
    ⟨_, _, rfl, rfl, rfl, rfl, rfl⟩
  obtain ⟨tree, tree', hadd, hadd', hrefused, habsent, hthere⟩ := hcalls
  refine ⟨_, ⟨_, rfl, .cons (step_accept_addDir List.length hadd)
    (.cons (step_accept_addDir List.length hadd')
      (.cons ⟨newDirMessage (ascii "/a") ::ₘ 0, 0, _, false, rfl, hrefused, rfl⟩
        (.cons ⟨0, 0, tree, true, rfl, hadd, rfl⟩ (.nil _))))⟩, ?_, ?_⟩
  · intro j
    cases j <;> rfl
  · intro hagree
    have hsame : tree'.entryAt (ascii "/a/b") = tree.entryAt (ascii "/a/b") :=
      hagree true false (ascii "/a/b")
    rw [habsent, hthere] at hsame
    exact absurd hsame (by simp)

/-- A file without contents is put under a path. -/
def emptyUpload (path : Bytes) : Request :=
  .upload [⟨FileUploader.metaMessage path 0 0, true⟩, ⟨FileUploader.endMessage, true⟩]

/-- Two machines that enter a path at the same time keep different files. -/
theorem not_agree_of_conflict : ∃ (id id' : BlockID) (net : FileNet Bool),
    (additionSystem Bool List.length).Run
      [.accept true (emptyUpload (ascii "/f")) (some (newFileMessage (ascii "/f") id)),
        .accept false (emptyUpload (ascii "/f")) (some (newFileMessage (ascii "/f") id')),
        .deliver true (newFileMessage (ascii "/f") id'),
        .deliver false (newFileMessage (ascii "/f") id)] net ∧
    (∀ j, net.inFlight j = 0) ∧ ¬ Agree net.trees := by
  have hadmits : (FileTree.new List.length).Admits (ascii "/f") :=
    ⟨rfl, rootPath, 0, _, rfl, rfl, rfl, rfl⟩
  have hlinked := (invariant_linked List.length).init rfl
  have hfaithful : (FileTree.new List.length).Faithful :=
    ⟨_, _, FileTree.represents_new List.length⟩
  have hlength : (ascii "/f").length < 2 ^ 64 := by decide
  have hfits : 8 + (ascii "/f").length + 24 ≤ blockSize := by decide
  obtain ⟨store, hupload, hadd⟩ :=
    FileUploader.handleUpload_of_admits hlinked hadmits hfits (.new 1 (by decide))
  obtain ⟨store', hupload', hadd'⟩ :=
    FileUploader.handleUpload_of_admits hlinked hadmits hfits (.new 2 (by decide))
  obtain ⟨hentry, hrefuses⟩ := hfaithful.addFile_again hadd
  obtain ⟨hentry', hrefuses'⟩ := hfaithful.addFile_again hadd'
  refine ⟨_, _, _, ⟨_, rfl, .cons ⟨trivial, ⟨fun _ => none, fun _ _ => none⟩, 0, _, store, true,
      hupload, rfl⟩ (.cons ⟨trivial, ⟨fun _ => none, fun _ _ => none⟩, 0, _, store', true,
      hupload', rfl⟩ (.cons ⟨0, 0, store.tree, false, rfl, ?_, rfl⟩
        (.cons ⟨0, 0, store'.tree, false, rfl, ?_, rfl⟩ (.nil _))))⟩, ?_, ?_⟩
  · rw [handleBroadcast_newFile _ _ hlength]
    exact hrefuses _
  · rw [handleBroadcast_newFile _ _ hlength]
    exact hrefuses' _
  · intro j
    cases j <;> rfl
  · intro hagree
    have hsame : store.tree.entryAt (ascii "/f") = store'.tree.entryAt (ascii "/f") :=
      hagree true false (ascii "/f")
    rw [hentry, hentry'] at hsame
    exact absurd (FileTree.entryOf_injective (Option.some.inj hsame)) (by decide)

/-- Broadcasts in the wrong order and entries of one path at the same time both
leave the trees different for good. -/
theorem exists_runs_not_agree :
    (∃ net : FileNet Bool, (additionSystem Bool List.length).Run
      [.accept true (.addDir (ascii "/a")) (some (newDirMessage (ascii "/a"))),
        .accept true (.addDir (ascii "/a/b")) (some (newDirMessage (ascii "/a/b"))),
        .deliver false (newDirMessage (ascii "/a/b")),
        .deliver false (newDirMessage (ascii "/a"))] net ∧
      (∀ j, net.inFlight j = 0) ∧ ¬ Agree net.trees) ∧
    ∃ (id id' : BlockID) (net : FileNet Bool), (additionSystem Bool List.length).Run
      [.accept true (emptyUpload (ascii "/f")) (some (newFileMessage (ascii "/f") id)),
        .accept false (emptyUpload (ascii "/f")) (some (newFileMessage (ascii "/f") id')),
        .deliver true (newFileMessage (ascii "/f") id'),
        .deliver false (newFileMessage (ascii "/f") id)] net ∧
      (∀ j, net.inFlight j = 0) ∧ ¬ Agree net.trees :=
  ⟨not_agree_of_early_broadcast, not_agree_of_conflict⟩

end Doopey
