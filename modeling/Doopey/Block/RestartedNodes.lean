import Doopey.Block.DirectoryRuns
import Doopey.Block.LastingBlocks

/-!
# Machines that start again

Of the heap of a machine nothing is left when its process ends. A new process lists the blocks
whose files it finds, each with the machine alone, and counts on behind the last ID of its own,
so that no machine loses a block and no ID is handed out for a second time.
-/

namespace Doopey

open Foundation

namespace BlockNode

variable (blockReplica : UInt64) (me : MachineID)

/-- One round of the loop of `BlockResolver::loadLocalIDs`. -/
def loadName (node : BlockNode) (name : Bytes) : BlockNode :=
  match BlockResolver.idOfName name with
  | none => node
  | some id =>
      let node := node.forceAddLocalID blockReplica me id
      if getMachineIDFromBlockID id = me ∧ node.localMax < getLocalIDFromBlockID id then
        { node with localMax := getLocalIDFromBlockID id }
      else node

/-- `BlockResolver::loadLocalIDs` -/
def loadLocalIDs (node : BlockNode) (names : List Bytes) : BlockNode :=
  names.foldl (loadName blockReplica me) { node with localIDs := ∅ }

/-- A new process on the files of an earlier one. -/
def start (files : BlockID → Option Bytes) (names : List Bytes) : BlockNode :=
  { empty with files := files }.loadLocalIDs blockReplica me names

/-- The names that `readdir` returns on the machine, in any order. -/
def Lists (node : BlockNode) (names : List Bytes) : Prop :=
  ∀ name, name ∈ names ↔ (∃ id, node.files id ≠ none ∧ name = convertBlockIDToPath id) ∨
    name = ascii "." ∨ name = ascii ".."

/-- The resolver lists the same blocks and has come as far with its counter. -/
structure Matches (node : BlockNode) (resolver : BlockResolver) : Prop where
  localMax : node.localMax = resolver.localMax
  localIDs (id : BlockID) : node.localIDs[id]? ≠ none ↔ resolver.Has id

section Start

variable {blockReplica : UInt64} {me : MachineID} (files : BlockID → Option Bytes)

theorem start_concat (names : List Bytes) (name : Bytes) :
    start blockReplica me files (names ++ [name]) =
      (start blockReplica me files names).loadName blockReplica me name := by
  unfold start loadLocalIDs
  rw [List.foldl_append]
  rfl

/-- What a new process starts without, whatever it finds. -/
structure Idle (node : BlockNode) : Prop where
  files : node.files = files
  remoteIDs : node.remoteIDs = ∅
  replicas : node.replicas = []
  copies : node.copies = []

theorem idle_start (blockReplica : UInt64) (me : MachineID) (files : BlockID → Option Bytes)
    (names : List Bytes) : Idle files (start blockReplica me files names) := by
  induction names using List.reverseRecOn with
  | nil => exact ⟨rfl, rfl, rfl, rfl⟩
  | append_singleton names name ih =>
      rw [start_concat, loadName]
      split
      · exact ih
      next id _ =>
        have hadded : Idle files
            ((start blockReplica me files names).forceAddLocalID blockReplica me id) := by
          refine ⟨ih.files, ?_, ih.replicas, ih.copies⟩
          unfold forceAddLocalID
          rw [ih.remoteIDs]
          rfl
        dsimp only
        split
        · exact ⟨hadded.files, hadded.remoteIDs, hadded.replicas, hadded.copies⟩
        · exact hadded

theorem Matches.loadName {node : BlockNode} {resolver : BlockResolver} (h : node.Matches resolver)
    (name : Bytes) :
    (node.loadName blockReplica resolver.machineID name).Matches (resolver.loadName name) := by
  unfold BlockNode.loadName BlockResolver.loadName
  cases BlockResolver.idOfName name with
  | none => exact h
  | some id =>
      have hadded : (node.forceAddLocalID blockReplica resolver.machineID id).Matches
          (resolver.forceAddLocalID id) := by
        refine ⟨h.localMax, fun id' => ?_⟩
        rw [resolver.has_forceAddLocalID, ← h.localIDs]
        unfold BlockNode.forceAddLocalID
        dsimp only
        rw [getElem?_insert_id]
        by_cases heq : id' = id <;> simp [heq]
      dsimp only
      rw [hadded.localMax]
      by_cases hraise : getMachineIDFromBlockID id = resolver.machineID ∧
          (resolver.forceAddLocalID id).localMax < getLocalIDFromBlockID id
      · have hraise' : getMachineIDFromBlockID id = (resolver.forceAddLocalID id).machineID ∧
            (resolver.forceAddLocalID id).localMax < getLocalIDFromBlockID id := hraise
        rw [if_pos hraise, if_pos hraise']
        exact ⟨rfl, hadded.localIDs⟩
      · have hkeep : ¬ (getMachineIDFromBlockID id = (resolver.forceAddLocalID id).machineID ∧
            (resolver.forceAddLocalID id).localMax < getLocalIDFromBlockID id) := hraise
        rw [if_neg hraise, if_neg hkeep]
        exact hadded

/-- The two models of `loadLocalIDs` find the same blocks. -/
theorem matches_start (blockReplica : UInt64) (files : BlockID → Option Bytes) {me : MachineID}
    (hme : me ≠ 0) (paths : Bytes → Option Bytes) (names : List Bytes) :
    (start blockReplica me files names).Matches (BlockResolver.start me hme paths names) := by
  induction names using List.reverseRecOn with
  | nil => exact ⟨rfl, fun id => by simp [start, loadLocalIDs, BlockResolver.start,
      BlockResolver.loadLocalIDs, BlockResolver.Has]⟩
  | append_singleton names name ih =>
      have hadded := @Matches.loadName blockReplica _ _ ih name
      rw [(BlockResolver.machineID_start me hme paths names).1] at hadded
      rw [start_concat, BlockResolver.start_concat]
      exact hadded

theorem sound_start (hreplica : 1 ≤ blockReplica) {may : BlockID → MachineID → Prop}
    {names : List Bytes}
    (hmay : ∀ name ∈ names, ∀ id, BlockResolver.idOfName name = some id → may id me) :
    (start blockReplica me files names).Sound blockReplica may := by
  induction names using List.reverseRecOn with
  | nil => exact { @sound_empty blockReplica may with }
  | append_singleton names name ih =>
      have hstart := ih fun name hmem => hmay name (List.mem_append_left _ hmem)
      rw [start_concat, BlockNode.loadName]
      split
      · exact hstart
      next id hid =>
        have hme := hmay name (List.mem_append_right _ List.mem_cons_self) id hid
        have hadded := hstart.forceAddLocalID hreplica hme
        dsimp only
        split
        · exact { hadded with }
        · exact hadded

end Start

section Found

variable {node : BlockNode} {names : List Bytes}

/-- A name that `readdir` returns is that of a block, or is skipped. -/
theorem Lists.idOfName (hnames : node.Lists names) (hzero : node.files 0 = none) {id : BlockID} :
    (∃ name ∈ names, BlockResolver.idOfName name = some id) ↔ node.files id ≠ none := by
  constructor
  · rintro ⟨name, hmem, hid⟩
    rcases (hnames name).mp hmem with ⟨id', hfile, rfl⟩ | rfl | rfl
    · have hne : id' ≠ 0 := fun heq => hfile (heq ▸ hzero)
      rw [BlockResolver.idOfName_convertBlockIDToPath hne] at hid
      rwa [← Option.some.inj hid]
    · cases hid
    · cases hid
  · intro hfile
    have hne : id ≠ 0 := fun heq => hfile (heq ▸ hzero)
    exact ⟨_, (hnames _).mpr (Or.inl ⟨id, hfile, rfl⟩),
      BlockResolver.idOfName_convertBlockIDToPath hne⟩

/-- A machine that has all blocks it lists, and lists all blocks it has, finds just these. -/
theorem listed_start (blockReplica : UInt64) {me : MachineID} (hme : me ≠ 0)
    (hnames : node.Lists names) (hzero : node.files 0 = none) (id : BlockID) :
    (start blockReplica me node.files names).localIDs[id]? ≠ none ↔ node.files id ≠ none := by
  have hmatches := matches_start blockReplica node.files hme (fun _ => none) names
  rw [hmatches.localIDs, BlockResolver.has_start, hnames.idOfName hzero]

/-- The counter is behind the ID of every block of the machine's own that it has. -/
theorem le_localMax_start (blockReplica : UInt64) {me : MachineID} (hme : me ≠ 0)
    (hnames : node.Lists names) (hzero : node.files 0 = none) {count : LocalBlockID}
    (hfile : node.files (buildBlockID me count) ≠ none) :
    count ≤ (start blockReplica me node.files names).localMax := by
  have hmatches := matches_start blockReplica node.files hme (fun _ => none) names
  have hcounted := BlockResolver.counted_start me hme (fun _ => none) names
  have hhas : (BlockResolver.start me hme (fun _ => none) names).HasOwn (buildBlockID me count) := by
    refine ⟨?_, ?_⟩
    · rw [← hmatches.localIDs, listed_start blockReplica hme hnames hzero]
      exact hfile
    · rw [getMachineIDFromBlockID_buildBlockID,
        (BlockResolver.machineID_start me hme (fun _ => none) names).1]
  have hle := hcounted.le hhas
  rwa [getLocalIDFromBlockID_buildBlockID, ← hmatches.localMax] at hle

end Found

end BlockNode

namespace BlockNet

/-- The process of a machine ends, and a new one finds these names. -/
def restart (blockReplica : UInt64) (net : BlockNet) (n : MachineID) (names : List Bytes) :
    BlockNet :=
  { net with nodes := Function.update net.nodes n (.start blockReplica n (net.nodes n).files names) }

section Restart

variable {blockReplica : UInt64} {net : BlockNet} {n : MachineID} {names : List Bytes}

/-- The files of all machines are there as before. -/
theorem files_restart (m : MachineID) :
    ((net.restart blockReplica n names).nodes m).files = (net.nodes m).files := by
  unfold restart
  dsimp only
  rw [Function.update_apply]
  split
  next heq =>
    rw [heq]
    exact (BlockNode.idle_start blockReplica n _ names).files
  next => rfl

theorem stores_restart (id : BlockID) (m : MachineID) :
    (net.restart blockReplica n names).Stores id m ↔ net.Stores id m := by
  unfold Stores
  rw [files_restart]
  rfl

theorem Keeps.restart : net.Keeps (net.restart blockReplica n names) where
  first hfirst := hfirst
  files hfile := by
    rw [files_restart]
    exact hfile

/-- There is no block with the ID 0. -/
theorem Lasts.files_zero (h : net.Lasts blockReplica) (n : MachineID) :
    (net.nodes n).files 0 = none := by
  by_contra hfile
  obtain ⟨data, hfile⟩ := Option.ne_none_iff_exists'.mp hfile
  have hfirst := (h.truthful.node n).file hfile
  rw [h.truthful.zero] at hfirst
  cases hfirst

theorem Lasts.restart (h : net.Lasts blockReplica) (hreplica : 1 ≤ blockReplica) (hn : n ≠ 0)
    (hnames : (net.nodes n).Lists names) : (net.restart blockReplica n names).Lasts blockReplica := by
  have hidle := BlockNode.idle_start blockReplica n (net.nodes n).files names
  have hzero := h.files_zero n
  have hlisted := BlockNode.listed_start blockReplica hn hnames hzero
  have hsame : (net.restart blockReplica n names).Stores = net.Stores := by
    funext id m
    exact propext (stores_restart id m)
  have hnode {p : MachineID → BlockNode → Prop} (hold : ∀ m, p m (net.nodes m))
      (hnew : p n (.start blockReplica n (net.nodes n).files names)) (m : MachineID) :
      p m ((net.restart blockReplica n names).nodes m) := by
    apply (Function.forall_update_iff net.nodes p).mpr
    exact ⟨hnew, fun m _ => hold m⟩
  refine ⟨⟨⟨?_, fun hmem => ?_⟩, ?_, fun hmem => ?_, h.truthful.length, h.truthful.zero⟩, ?_,
    fun {m id} => ?_, fun {m count} hfirst => ?_⟩
  · rw [hsame]
    refine hnode h.truthful.sound.node ?_
    apply BlockNode.sound_start _ hreplica
    intro name hmem id hid
    obtain ⟨data, hfile⟩ := Option.ne_none_iff_exists'.mp
      ((hnames.idOfName hzero).mp ⟨name, hmem, hid⟩)
    exact ⟨data, (h.truthful.node n).file hfile, hfile⟩
  · rw [hsame]
    exact h.truthful.sound.flight hmem
  · refine hnode h.truthful.node ⟨fun {id data} hfile => ?_, fun {id} hfile => ?_, ?_, ?_⟩
    · rw [hidle.files] at hfile
      exact (h.truthful.node n).file hfile
    · rw [hidle.files] at hfile
      exact (hlisted id).mpr hfile
    · rw [hidle.copies]
      exact fun hmem => absurd hmem List.not_mem_nil
    · rw [hidle.replicas]
      exact fun hmem => absurd hmem List.not_mem_nil
  · rw [hsame]
    exact h.truthful.flight hmem
  · refine @hnode (fun m node => ∀ count, node.localMax < count →
      net.first (buildBlockID m count) = none) h.fresh fun count hcount => ?_
    by_contra hfirst
    exact UInt32.not_lt.mpr (BlockNode.le_localMax_start blockReplica hn hnames hzero
      (h.home hfirst)) hcount
  · refine @hnode (fun _ node => node.localIDs[id]? ≠ none → node.files id ≠ none)
      (fun m => h.filed) (fun hfound => ?_) m
    rw [hidle.files]
    exact (hlisted id).mp hfound
  · rw [files_restart]
    exact h.home hfirst

end Restart

end BlockNet

end Doopey
