import Doopey.Block.BlockResolver

/-!
# The list, the counter and the directory of a machine

On a directory that only the machine writes to, the list has the blocks whose
files exist, and a restart finds the list again. The counter stays above the IDs
that the machine has built, unless a block of its own comes back as a copy whose
ID is above the counter.
-/

namespace Doopey

open Foundation

namespace BlockResolver

/-! ## Starting -/

/-- A name is taken for an ID. -/
theorem idOfName_convertBlockIDToPath {id : BlockID} (hid : id ≠ 0) :
    idOfName (convertBlockIDToPath id) = some id := by
  have hlength : (convertBlockIDToPath id).length = 16 := length_hexadecimal _ _
  have hdots : ¬ (convertBlockIDToPath id = ascii "." ∨ convertBlockIDToPath id = ascii "..") := by
    rintro (heq | heq) <;> exact absurd (heq ▸ hlength) (by decide)
  rw [idOfName, if_neg hdots, if_neg (not_not_intro hlength), strtoull_convertBlockIDToPath,
    if_neg hid]

/-- The counter is the largest number that an ID of the machine is built of. -/
structure Counted (resolver : BlockResolver) : Prop where
  le {id : BlockID} : resolver.HasOwn id → getLocalIDFromBlockID id ≤ resolver.localMax
  max : resolver.localMax = 0 ∨
    ∃ id, resolver.HasOwn id ∧ getLocalIDFromBlockID id = resolver.localMax

theorem has_forceAddLocalID (resolver : BlockResolver) (new id : BlockID) :
    (resolver.forceAddLocalID new).Has id ↔ id = new ∨ resolver.Has id := by
  unfold Has forceAddLocalID
  dsimp only
  rw [Function.update_apply]
  by_cases heq : id = new <;> simp [heq]

theorem has_loadName (resolver : BlockResolver) (name : Bytes) (id : BlockID) :
    (resolver.loadName name).Has id ↔ idOfName name = some id ∨ resolver.Has id := by
  unfold loadName
  cases hname : idOfName name with
  | none => simp
  | some new =>
      have hadded := resolver.has_forceAddLocalID new id
      rw [Option.some.injEq, @eq_comm _ new]
      dsimp only
      split
      next => exact hadded
      next => exact hadded

theorem machineID_loadName (resolver : BlockResolver) (name : Bytes) :
    (resolver.loadName name).machineID = resolver.machineID ∧
      (resolver.loadName name).files = resolver.files := by
  unfold loadName
  split
  next => exact ⟨rfl, rfl⟩
  next =>
    dsimp only
    split
    next => exact ⟨rfl, rfl⟩
    next => exact ⟨rfl, rfl⟩

theorem Counted.loadName {resolver : BlockResolver} (h : resolver.Counted) (name : Bytes) :
    (resolver.loadName name).Counted := by
  have hhas := resolver.has_loadName name
  have hmachine := (resolver.machineID_loadName name).1
  have hown (id : BlockID) : (resolver.loadName name).HasOwn id ↔
      (idOfName name = some id ∧ getMachineIDFromBlockID id = resolver.machineID) ∨
        resolver.HasOwn id := by
    rw [HasOwn, hhas, hmachine, or_and_right]
    rfl
  cases hname : idOfName name with
  | none =>
      have hsame : resolver.loadName name = resolver := by
        rw [BlockResolver.loadName, hname]
      rw [hsame]
      exact h
  | some new =>
      have hmax : (resolver.loadName name).localMax =
          if getMachineIDFromBlockID new = resolver.machineID ∧
            resolver.localMax < getLocalIDFromBlockID new then getLocalIDFromBlockID new
          else resolver.localMax := by
        rw [BlockResolver.loadName, hname]
        dsimp only
        split
        next hraise => exact (if_pos hraise).symm
        next hkeep => exact (if_neg hkeep).symm
      by_cases hraise : getMachineIDFromBlockID new = resolver.machineID ∧
          resolver.localMax < getLocalIDFromBlockID new
      · rw [if_pos hraise] at hmax
        refine ⟨fun {id} hid => ?_, Or.inr ⟨new, (hown new).mpr (Or.inl ⟨hname, hraise.1⟩), hmax.symm⟩⟩
        rw [hmax]
        rcases (hown id).mp hid with ⟨hnew, -⟩ | hold
        · rw [Option.some.inj (hnew.symm.trans hname)]
          exact UInt32.le_refl _
        · exact UInt32.le_trans (h.le hold) (UInt32.le_of_lt hraise.2)
      · rw [if_neg hraise] at hmax
        refine ⟨fun {id} hid => ?_, ?_⟩
        · rw [hmax]
          rcases (hown id).mp hid with ⟨hnew, hpart⟩ | hold
          · rw [Option.some.inj (hnew.symm.trans hname)] at hpart ⊢
            exact UInt32.not_lt.mp fun hlt => hraise ⟨hpart, hlt⟩
          · exact h.le hold
        · rw [hmax]
          apply h.max.imp_right
          rintro ⟨id, hid, hlocal⟩
          exact ⟨id, (hown id).mpr (Or.inr hid), hlocal⟩

section Start

variable (machineID : MachineID) (hmachineID : machineID ≠ 0) (files : Bytes → Option Bytes)

theorem start_concat (names : List Bytes) (name : Bytes) :
    start machineID hmachineID files (names ++ [name]) =
      (start machineID hmachineID files names).loadName name := by
  unfold start loadLocalIDs
  rw [List.foldl_append]
  rfl

theorem machineID_start (names : List Bytes) :
    (start machineID hmachineID files names).machineID = machineID ∧
      (start machineID hmachineID files names).files = files := by
  induction names using List.reverseRecOn with
  | nil => exact ⟨rfl, rfl⟩
  | append_singleton names name ih =>
      obtain ⟨hmachine, hfiles⟩ := machineID_loadName (start machineID hmachineID files names) name
      rw [start_concat]
      exact ⟨hmachine.trans ih.1, hfiles.trans ih.2⟩

/-- What a new process lists, whatever the order of the names. -/
theorem has_start (names : List Bytes) (id : BlockID) :
    (start machineID hmachineID files names).Has id ↔
      ∃ name ∈ names, idOfName name = some id := by
  induction names using List.reverseRecOn with
  | nil =>
      refine ⟨fun hhas => absurd rfl hhas, ?_⟩
      rintro ⟨name, hmem, -⟩
      exact absurd hmem List.not_mem_nil
  | append_singleton names name ih =>
      rw [start_concat, has_loadName, ih]
      simp only [List.mem_append, List.mem_singleton, or_and_right, exists_or, exists_eq_left]
      exact or_comm

theorem counted_start (names : List Bytes) : (start machineID hmachineID files names).Counted := by
  induction names using List.reverseRecOn with
  | nil => exact ⟨fun hown => absurd rfl hown.1, Or.inl rfl⟩
  | append_singleton names name ih =>
      rw [start_concat]
      exact ih.loadName name

/-- The block of a file that is named by its ID is found. -/
theorem has_start_of_file {names : List Bytes} (hnames : Lists names files) {id : BlockID}
    (hid : id ≠ 0) (hfile : files (convertBlockIDToPath id) ≠ none) :
    (start machineID hmachineID files names).Has id :=
  (has_start machineID hmachineID files names id).mpr
    ⟨_, (hnames _).mpr (Or.inl hfile), idOfName_convertBlockIDToPath hid⟩

end Start

/-! ## Saving and removing -/

/-- The ID that the next new block gets. -/
def nextID (resolver : BlockResolver) : BlockID :=
  buildBlockID resolver.machineID (resolver.localMax + 1)

/-- The ID of a block that `saveBlock` is given with the ID `id`. -/
def fileID (resolver : BlockResolver) (id : BlockID) : BlockID :=
  if id = 0 then resolver.nextID else id

theorem fileID_ne_zero (resolver : BlockResolver) (id : BlockID) : resolver.fileID id ≠ 0 := by
  unfold fileID
  split
  next => exact buildBlockID_ne_zero resolver.machineID_ne _
  next hid => exact hid

/-- What `saveBlock` does to a machine. -/
structure Saves (resolver : BlockResolver) (opens : Bool) (data : Bytes) (id : BlockID)
    (after : BlockResolver) : Prop where
  machineID : after.machineID = resolver.machineID
  localMax : after.localMax = if id = 0 then resolver.localMax + 1 else resolver.localMax
  localIDs : after.localIDs = if opens then
    Function.update resolver.localIDs (resolver.fileID id) (some [resolver.machineID])
    else resolver.localIDs
  files : after.files = if opens then
    Function.update resolver.files (convertBlockIDToPath (resolver.fileID id)) (some data)
    else resolver.files

theorem saveBlock_spec (resolver : BlockResolver) (opens : Bool) (data : Bytes) (id : BlockID) :
    (resolver.saveBlock opens data id).1 = (if opens then resolver.fileID id else 0) ∧
      resolver.Saves opens data id (resolver.saveBlock opens data id).2 := by
  have hadded (before : BlockResolver) (newID : BlockID) :
      { before with files := Function.update before.files (convertBlockIDToPath newID) (some data)
        }.addLocalID newID =
      { before with files := Function.update before.files (convertBlockIDToPath newID) (some data)
        }.forceAddLocalID newID := by
    apply if_neg
    dsimp only
    rw [Function.update_self]
    exact Option.some_ne_none data
  have hnew : resolver.newLocalID =
      (resolver.nextID, { resolver with localMax := resolver.localMax + 1 }) := rfl
  unfold saveBlock
  by_cases hid : id = 0
  · have hfileID : resolver.fileID id = resolver.nextID := if_pos hid
    rw [if_pos hid, hnew, hfileID]
    dsimp only
    cases opens with
    | false => exact ⟨rfl, rfl, (if_pos hid).symm, rfl, rfl⟩
    | true =>
        have hsaved := hadded { resolver with localMax := resolver.localMax + 1 } resolver.nextID
        dsimp only at hsaved
        rw [if_pos rfl, if_pos rfl, hsaved]
        refine ⟨rfl, rfl, (if_pos hid).symm, ?_, ?_⟩
        · rw [hfileID]
          rfl
        · rw [hfileID]
          rfl
  · have hfileID : resolver.fileID id = id := if_neg hid
    rw [if_neg hid, hfileID]
    dsimp only
    cases opens with
    | false => exact ⟨rfl, rfl, (if_neg hid).symm, rfl, rfl⟩
    | true =>
        rw [if_pos rfl, if_pos rfl, hadded]
        refine ⟨rfl, rfl, (if_neg hid).symm, ?_, ?_⟩
        · rw [hfileID]
          rfl
        · rw [hfileID]
          rfl

section Saves

variable {resolver after : BlockResolver} {opens : Bool} {data : Bytes} {id : BlockID}

theorem Saves.has_iff (h : resolver.Saves opens data id after) (id' : BlockID) :
    after.Has id' ↔ opens = true ∧ id' = resolver.fileID id ∨ resolver.Has id' := by
  unfold Has
  rw [h.localIDs]
  cases opens with
  | false => simp
  | true =>
      rw [if_pos rfl, Function.update_apply]
      by_cases heq : id' = resolver.fileID id <;> simp [heq]

theorem Saves.file_iff (h : resolver.Saves opens data id after) (name : Bytes) :
    after.files name ≠ none ↔
      opens = true ∧ name = convertBlockIDToPath (resolver.fileID id) ∨ resolver.files name ≠ none := by
  rw [h.files]
  cases opens with
  | false => simp
  | true =>
      rw [if_pos rfl, Function.update_apply]
      by_cases heq : name = convertBlockIDToPath (resolver.fileID id) <;> simp [heq]

end Saves

theorem has_removeLocalID (resolver : BlockResolver) (id id' : BlockID) :
    (resolver.removeLocalID id).Has id' ↔ id' ≠ id ∧ resolver.Has id' := by
  unfold Has removeLocalID
  dsimp only
  rw [Function.update_apply]
  by_cases heq : id' = id <;> simp [heq]

theorem file_removeLocalID (resolver : BlockResolver) (id : BlockID) (name : Bytes) :
    (resolver.removeLocalID id).files name ≠ none ↔
      name ≠ convertBlockIDToPath id ∧ resolver.files name ≠ none := by
  unfold removeLocalID
  dsimp only
  rw [Function.update_apply]
  by_cases heq : name = convertBlockIDToPath id <;> simp [heq]

/-! ## The files by their IDs -/

/-- The files of the blocks, each under its ID, are those of the other machine. -/
structure Shows (resolver : BlockResolver) (manager : BlockManager) : Prop where
  machineID : resolver.machineID = manager.machineID
  localMax : resolver.localMax = manager.localMax
  localIDs : resolver.localIDs = manager.localIDs
  files (id : BlockID) : resolver.files (convertBlockIDToPath id) = manager.files id

theorem update_convertBlockIDToPath {files : Bytes → Option Bytes} {named : BlockID → Option Bytes}
    (h : ∀ id, files (convertBlockIDToPath id) = named id) (id : BlockID) (data : Option Bytes)
    (id' : BlockID) :
    Function.update files (convertBlockIDToPath id) data (convertBlockIDToPath id') =
      Function.update named id data id' := by
  by_cases heq : id' = id
  · rw [heq, Function.update_self, Function.update_self]
  · have hne : convertBlockIDToPath id' ≠ convertBlockIDToPath id :=
      fun hpath => heq (convertBlockIDToPath_injective hpath)
    rw [Function.update_of_ne heq, Function.update_of_ne hne]
    exact h id'

theorem Shows.removeLocalID {resolver : BlockResolver} {manager : BlockManager}
    (h : resolver.Shows manager) (id : BlockID) :
    (resolver.removeLocalID id).Shows (manager.removeLocalID id) where
  machineID := h.machineID
  localMax := h.localMax
  localIDs := by
    unfold BlockResolver.removeLocalID BlockManager.removeLocalID
    rw [h.localIDs]
  files id' := by
    unfold BlockResolver.removeLocalID BlockManager.removeLocalID
    dsimp only
    exact update_convertBlockIDToPath h.files id none id'

/-- Saving a block by its path is saving it by its ID. -/
theorem Shows.saveBlock {resolver : BlockResolver} {manager : BlockManager}
    (h : resolver.Shows manager) (opens : Bool) (data : Bytes) (id : BlockID) :
    (resolver.saveBlock opens data id).1 = (manager.saveBlock opens data id).1 ∧
      (resolver.saveBlock opens data id).2.Shows (manager.saveBlock opens data id).2 := by
  obtain ⟨hresult, hsaves⟩ := resolver.saveBlock_spec opens data id
  obtain ⟨hresult', hmachine, hmax, hlocal, hfiles⟩ := manager.saveBlock_spec opens data id
  have hfileID : resolver.fileID id = if id = 0 then manager.nextID else id := by
    rw [fileID, nextID, BlockManager.nextID, h.machineID, h.localMax]
  refine ⟨?_, ?_, ?_, ?_, fun id' => ?_⟩
  · rw [hresult, hresult', hfileID]
  · rw [hsaves.machineID, hmachine, h.machineID]
  · rw [hsaves.localMax, hmax, h.localMax]
  · rw [hsaves.localIDs, hlocal, hfileID, h.localIDs, h.machineID]
  · rw [hsaves.files, hfiles, hfileID]
    cases opens with
    | false => exact h.files id'
    | true =>
        rw [if_pos rfl, if_pos rfl]
        exact update_convertBlockIDToPath h.files _ _ id'

/-! ## A directory of the machine alone -/

/-- The list has the blocks whose files exist, and there are no other files. -/
structure Exact (resolver : BlockResolver) : Prop where
  file {name : Bytes} : resolver.files name ≠ none →
    ∃ id, resolver.Has id ∧ name = convertBlockIDToPath id
  has {id : BlockID} : resolver.Has id →
    id ≠ 0 ∧ resolver.files (convertBlockIDToPath id) ≠ none

theorem Exact.has_iff {resolver : BlockResolver} (h : resolver.Exact) (id : BlockID) :
    resolver.Has id ↔ resolver.files (convertBlockIDToPath id) ≠ none := by
  refine ⟨fun hhas => (h.has hhas).2, fun hfile => ?_⟩
  obtain ⟨id', hhas, heq⟩ := h.file hfile
  rw [convertBlockIDToPath_injective heq]
  exact hhas

/-- A restart finds what was listed. -/
theorem Exact.has_start {resolver : BlockResolver} (h : resolver.Exact) {names : List Bytes}
    (hnames : Lists names resolver.files) (id : BlockID) :
    (start resolver.machineID resolver.machineID_ne resolver.files names).Has id ↔
      resolver.Has id := by
  constructor
  · rw [BlockResolver.has_start]
    rintro ⟨name, hmem, hname⟩
    rcases (hnames name).mp hmem with hfile | hdots
    · obtain ⟨id', hhas, heq⟩ := h.file hfile
      rw [heq, idOfName_convertBlockIDToPath (h.has hhas).1] at hname
      rwa [← Option.some.inj hname]
    · rw [idOfName, if_pos hdots] at hname
      exact absurd hname (by simp)
  · intro hhas
    exact has_start_of_file _ _ _ hnames (h.has hhas).1 (h.has hhas).2

theorem Exact.step {resolver after : BlockResolver} (h : resolver.Exact) {op : ResolverOp}
    (hstep : ResolverStep resolver op after) : after.Exact := by
  have hsave {opens : Bool} {data : Bytes} {id : BlockID}
      (hsaves : resolver.Saves opens data id after) : after.Exact := by
    refine ⟨fun {name} hfile => ?_, fun {id'} hhas => ?_⟩
    · rcases (hsaves.file_iff name).mp hfile with ⟨hopens, hname⟩ | hold
      · exact ⟨_, (hsaves.has_iff _).mpr (Or.inl ⟨hopens, rfl⟩), hname⟩
      · obtain ⟨id', hhas, hname⟩ := h.file hold
        exact ⟨id', (hsaves.has_iff id').mpr (Or.inr hhas), hname⟩
    · rw [hsaves.file_iff]
      rcases (hsaves.has_iff id').mp hhas with ⟨hopens, rfl⟩ | hold
      · exact ⟨resolver.fileID_ne_zero id, Or.inl ⟨hopens, rfl⟩⟩
      · exact ⟨(h.has hold).1, Or.inr (h.has hold).2⟩
  cases hstep with
  | save data opens => exact hsave (resolver.saveBlock_spec opens data 0).2
  | saveAs id data opens hid => exact hsave (resolver.saveBlock_spec opens data id).2
  | remove id =>
      refine ⟨fun {name} hfile => ?_, fun {id'} hhas => ?_⟩
      · obtain ⟨hne, hold⟩ := (resolver.file_removeLocalID id name).mp hfile
        obtain ⟨id', hhas, hname⟩ := h.file hold
        refine ⟨id', (resolver.has_removeLocalID id id').mpr ⟨fun heq => hne ?_, hhas⟩, hname⟩
        rw [hname, heq]
      · obtain ⟨hne, hold⟩ := (resolver.has_removeLocalID id id').mp hhas
        refine ⟨(h.has hold).1, (resolver.file_removeLocalID id _).mpr ⟨?_, (h.has hold).2⟩⟩
        exact fun heq => hne (convertBlockIDToPath_injective heq)
  | restart names hnames =>
      have hfiles := (machineID_start _ resolver.machineID_ne resolver.files names).2
      refine ⟨fun {name} hfile => ?_, fun {id} hhas => ?_⟩
      · rw [hfiles] at hfile
        obtain ⟨id, hhas, hname⟩ := h.file hfile
        exact ⟨id, (h.has_start hnames id).mpr hhas, hname⟩
      · rw [hfiles]
        exact h.has ((h.has_start hnames id).mp hhas)

theorem invariant_exact : (resolverSystem fun files => files = fun _ => none).Invariant Exact where
  init hinit := by
    obtain ⟨machineID, hmachineID, files, names, rfl, hnames, rfl⟩ := hinit
    have hnone (id : BlockID) : ¬ (start machineID hmachineID (fun _ => none) names).Has id := by
      rw [BlockResolver.has_start]
      rintro ⟨name, hmem, hname⟩
      rw [idOfName, if_pos (((hnames name).mp hmem).resolve_left (not_not_intro rfl))] at hname
      exact absurd hname (by simp)
    refine ⟨fun hfile => ?_, fun hhas => absurd hhas (hnone _)⟩
    rw [(machineID_start machineID hmachineID _ names).2] at hfile
    exact absurd rfl hfile
  step hexact hstep := hexact.step hstep

/-- A machine always lists the blocks whose files exist, and a new process on its
directory lists them again and has the largest number among its own IDs. -/
theorem recovered_of_run {ops : List ResolverOp} {resolver : BlockResolver}
    (hrun : (resolverSystem fun files => files = fun _ => none).Run ops resolver) :
    (∀ id, resolver.Has id ↔ resolver.files (convertBlockIDToPath id) ≠ none) ∧
    ∀ names, Lists names resolver.files →
      let restarted := start resolver.machineID resolver.machineID_ne resolver.files names
      (∀ id, restarted.Has id ↔ resolver.Has id) ∧
      (∀ id, resolver.HasOwn id → getLocalIDFromBlockID id ≤ restarted.localMax) ∧
      (restarted.localMax = 0 ∨
        ∃ id, resolver.HasOwn id ∧ getLocalIDFromBlockID id = restarted.localMax) := by
  have hexact := invariant_exact.run hrun
  refine ⟨hexact.has_iff, fun names hnames => ?_⟩
  have hhas := hexact.has_start hnames
  have hcounted := counted_start resolver.machineID resolver.machineID_ne resolver.files names
  have hown (id : BlockID) :
      (start resolver.machineID resolver.machineID_ne resolver.files names).HasOwn id ↔
        resolver.HasOwn id := by
    unfold HasOwn
    rw [hhas, (machineID_start _ resolver.machineID_ne resolver.files names).1]
  refine ⟨hhas, fun id hid => hcounted.le ((hown id).mpr hid), ?_⟩
  apply hcounted.max.imp_right
  rintro ⟨id, hid, hlocal⟩
  exact ⟨id, (hown id).mp hid, hlocal⟩

/-- A machine with the ID 1 starts on a directory without files. -/
def emptyStart : BlockResolver :=
  start 1 (by decide) (fun _ => none) [ascii ".", ascii ".."]

theorem lists_nothing : Lists [ascii ".", ascii ".."] fun _ => none := by
  intro name
  simp

theorem run_emptyStart (initial : (Bytes → Option Bytes) → Prop) (hinitial : initial fun _ => none)
    (op : ResolverOp) {after : BlockResolver} (hstep : ResolverStep emptyStart op after) :
    (resolverSystem initial).Run [op] after :=
  ⟨emptyStart, ⟨1, by decide, _, _, hinitial, lists_nothing, rfl⟩, .cons hstep (.nil _)⟩

theorem recovered_of_run_example :
    (emptyStart.saveBlock true [7] 0).2.Has (buildBlockID 1 1) ↔
      (emptyStart.saveBlock true [7] 0).2.files (convertBlockIDToPath (buildBlockID 1 1)) ≠ none :=
  (recovered_of_run (run_emptyStart (fun files => files = fun _ => none) rfl _ (.save [7] true))).1 (buildBlockID 1 1)

/-! ## The counter -/

/-- Counting on does not decrease the counter, unless it comes around. -/
theorem le_succ_of_ne_zero {max : LocalBlockID} (hmax : max + 1 ≠ 0) : max ≤ max + 1 := by
  have htoNat : (max + 1).toNat ≠ 0 := fun hzero => hmax (UInt32.toNat_inj.mp hzero)
  rw [UInt32.le_iff_toNat_le]
  rw [UInt32.toNat_add] at htoNat ⊢
  change (max.toNat + 1) % 4294967296 ≠ 0 at htoNat
  change max.toNat ≤ (max.toNat + 1) % 4294967296
  have hlt : max.toNat < 4294967296 := max.toNat_lt
  omega

/-- The counter is not below the number of any ID of the machine that is listed. -/
def Bounded (resolver : BlockResolver) : Prop :=
  ∀ id, resolver.HasOwn id → getLocalIDFromBlockID id ≤ resolver.localMax

/-- The blocks whose files exist are listed. -/
def Listed (resolver : BlockResolver) : Prop :=
  ∀ id, id ≠ 0 → resolver.files (convertBlockIDToPath id) ≠ none → resolver.Has id

/-- The next new block gets an ID that is not in use, unless the counter is at its end. -/
def Fresh (resolver : BlockResolver) : Prop :=
  resolver.Bounded ∧ (resolver.localMax < 2 ^ 32 - 1 → ¬ resolver.Has resolver.nextID ∧
    resolver.files (convertBlockIDToPath resolver.nextID) = none)

/-- A copy whose ID was built by this machine is not above the counter, and when the
counter comes around there is no ID that it would count again. -/
def Counts (resolver : BlockResolver) : ResolverOp → Prop
  | .save _ _ => resolver.localMax + 1 = 0 →
      ∀ id, resolver.HasOwn id → getLocalIDFromBlockID id = 0
  | .saveAs id _ opens => opens = true → getMachineIDFromBlockID id = resolver.machineID →
      getLocalIDFromBlockID id ≤ resolver.localMax
  | .remove _ => True
  | .restart _ => True

theorem Bounded.fresh {resolver : BlockResolver} (h : resolver.Bounded) (hlisted : resolver.Listed) :
    resolver.Fresh := by
  refine ⟨h, fun hmax => ?_⟩
  have hnew : ¬ resolver.Has resolver.nextID := by
    intro hhas
    have hle := h _ ⟨hhas, getMachineIDFromBlockID_buildBlockID _ _⟩
    rw [nextID, getLocalIDFromBlockID_buildBlockID, UInt32.le_iff_toNat_le, UInt32.toNat_add] at hle
    rw [UInt32.lt_iff_toNat_lt] at hmax
    change resolver.localMax.toNat < 4294967295 at hmax
    change (resolver.localMax.toNat + 1) % 4294967296 ≤ _ at hle
    omega
  refine ⟨hnew, ?_⟩
  by_contra hfile
  exact hnew (hlisted _ (buildBlockID_ne_zero resolver.machineID_ne _) hfile)

theorem Saves.hasOwn_iff {resolver after : BlockResolver} {opens : Bool} {data : Bytes}
    {id : BlockID} (h : resolver.Saves opens data id after) (id' : BlockID) :
    after.HasOwn id' ↔ (opens = true ∧ id' = resolver.fileID id ∧
      getMachineIDFromBlockID id' = resolver.machineID) ∨ resolver.HasOwn id' := by
  unfold HasOwn
  rw [h.has_iff, h.machineID, or_and_right, and_assoc]

/-- The steps that keep the counter up are the ones that `Counts` admits. -/
theorem Bounded.step_iff {resolver after : BlockResolver} (h : resolver.Bounded) {op : ResolverOp}
    (hstep : ResolverStep resolver op after) : after.Bounded ↔ resolver.Counts op := by
  cases hstep with
  | save data opens =>
      have hsaves := (resolver.saveBlock_spec opens data 0).2
      have hmax : (resolver.saveBlock opens data 0).2.localMax = resolver.localMax + 1 :=
        hsaves.localMax
      have hnew : getLocalIDFromBlockID (resolver.fileID 0) = resolver.localMax + 1 :=
        getLocalIDFromBlockID_buildBlockID _ _
      constructor
      · intro hafter hzero id hid
        have hle := hafter id ((hsaves.hasOwn_iff id).mpr (Or.inr hid))
        rw [hmax, hzero] at hle
        exact UInt32.le_zero_iff.mp hle
      · intro hcounts id hid
        rw [hmax]
        rcases (hsaves.hasOwn_iff id).mp hid with ⟨-, rfl, -⟩ | hold
        · rw [hnew]
          exact UInt32.le_refl _
        · by_cases hzero : resolver.localMax + 1 = 0
          · rw [hcounts hzero id hold, hzero]
            exact UInt32.le_refl _
          · exact UInt32.le_trans (h id hold) (le_succ_of_ne_zero hzero)
  | saveAs id data opens hid =>
      have hsaves := (resolver.saveBlock_spec opens data id).2
      have hmax : (resolver.saveBlock opens data id).2.localMax = resolver.localMax := by
        rw [hsaves.localMax, if_neg hid]
      have hfileID : resolver.fileID id = id := if_neg hid
      constructor
      · intro hafter hopens hpart
        rw [← hmax]
        exact hafter id ((hsaves.hasOwn_iff id).mpr (Or.inl ⟨hopens, hfileID.symm, hpart⟩))
      · intro hcounts id' hid'
        rw [hmax]
        rcases (hsaves.hasOwn_iff id').mp hid' with ⟨hopens, heq, hpart⟩ | hold
        · rw [hfileID] at heq
          rw [heq] at hpart ⊢
          exact hcounts hopens hpart
        · exact h id' hold
  | remove id =>
      refine iff_of_true (fun id' hid' => ?_) trivial
      exact h id' ⟨((resolver.has_removeLocalID id id').mp hid'.1).2, hid'.2⟩
  | restart names hnames =>
      refine iff_of_true (fun id hid => ?_) trivial
      exact (counted_start _ resolver.machineID_ne resolver.files names).le hid

theorem Listed.step {resolver after : BlockResolver} (h : resolver.Listed) {op : ResolverOp}
    (hstep : ResolverStep resolver op after) : after.Listed := by
  have hsave {opens : Bool} {data : Bytes} {id : BlockID}
      (hsaves : resolver.Saves opens data id after) : after.Listed := by
    intro id' hid' hfile
    apply (hsaves.has_iff id').mpr
    rcases (hsaves.file_iff _).mp hfile with ⟨hopens, hname⟩ | hold
    · exact Or.inl ⟨hopens, convertBlockIDToPath_injective hname⟩
    · exact Or.inr (h id' hid' hold)
  cases hstep with
  | save data opens => exact hsave (resolver.saveBlock_spec opens data 0).2
  | saveAs id data opens hid => exact hsave (resolver.saveBlock_spec opens data id).2
  | remove id =>
      intro id' hid' hfile
      obtain ⟨hne, hold⟩ := (resolver.file_removeLocalID id _).mp hfile
      apply (resolver.has_removeLocalID id id').mpr
      exact ⟨fun heq => hne (congrArg convertBlockIDToPath heq), h id' hid' hold⟩
  | restart names hnames =>
      intro id hid hfile
      rw [(machineID_start _ resolver.machineID_ne resolver.files names).2] at hfile
      exact has_start_of_file _ _ _ hnames hid hfile

theorem invariant_bounded :
    ((resolverSystem fun _ => True).restrict Counts).Invariant
      fun resolver => resolver.Bounded ∧ resolver.Listed where
  init hinit := by
    obtain ⟨machineID, hmachineID, files, names, -, hnames, rfl⟩ := hinit
    constructor
    · exact fun id hid => (counted_start machineID hmachineID files names).le hid
    · intro id hid hfile
      rw [(machineID_start machineID hmachineID files names).2] at hfile
      exact has_start_of_file _ _ _ hnames hid hfile
  step h hstep := ⟨(h.1.step_iff hstep.2).mpr hstep.1, h.2.step hstep.2⟩

/-- If no copy with an ID of the machine is above the counter, new blocks get IDs
that are not in use, whatever the directory was at the start. -/
theorem fresh_of_run {ops : List ResolverOp} {resolver : BlockResolver}
    (hrun : ((resolverSystem fun _ => True).restrict Counts).Run ops resolver) :
    resolver.Fresh := by
  obtain ⟨hbounded, hlisted⟩ := invariant_bounded.run hrun
  exact hbounded.fresh hlisted

theorem fresh_of_run_example : (emptyStart.saveBlock true [7] 0).2.Fresh := by
  have hcounts : emptyStart.Counts (.save [7] true) := by
    intro hzero
    exact absurd hzero (by decide)
  apply @fresh_of_run [.save [7] true]
  exact ⟨emptyStart, ⟨1, by decide, _, _, trivial, lists_nothing, rfl⟩,
    .cons ⟨hcounts, .save [7] true⟩ (.nil _)⟩

/-- A copy of a block of the machine's own comes back to its empty directory, and
the next new block gets the same ID. -/
theorem exists_run_overwrites :
    ∃ ops resolver, (resolverSystem fun _ => True).Run ops resolver ∧
      resolver.localMax < 2 ^ 32 - 1 ∧ resolver.Has resolver.nextID ∧
      ¬ resolver.Bounded ∧ ¬ resolver.Fresh := by
  have hsaves := (emptyStart.saveBlock_spec true [7] (buildBlockID 1 1)).2
  have hne : buildBlockID 1 1 ≠ 0 := buildBlockID_ne_zero (by decide) 1
  have hmax : (emptyStart.saveBlock true [7] (buildBlockID 1 1)).2.localMax = 0 := by
    rw [hsaves.localMax, if_neg hne]
    rfl
  have hnext : (emptyStart.saveBlock true [7] (buildBlockID 1 1)).2.nextID = buildBlockID 1 1 := by
    rw [nextID, hmax, hsaves.machineID]
    rfl
  have hhas : (emptyStart.saveBlock true [7] (buildBlockID 1 1)).2.Has (buildBlockID 1 1) :=
    (hsaves.has_iff _).mpr (Or.inl ⟨rfl, (if_neg hne).symm⟩)
  have hlt : (emptyStart.saveBlock true [7] (buildBlockID 1 1)).2.localMax < 2 ^ 32 - 1 := by
    rw [hmax]
    decide
  refine ⟨_, _, run_emptyStart _ trivial _ (.saveAs (buildBlockID 1 1) [7] true hne), hlt, ?_, ?_, ?_⟩
  · rw [hnext]
    exact hhas
  · intro hbounded
    have hle := hbounded _ ⟨hhas, hsaves.machineID ▸ getMachineIDFromBlockID_buildBlockID 1 1⟩
    rw [hmax] at hle
    exact absurd hle (by decide)
  · intro hfresh
    apply (hfresh.2 hlt).1
    rw [hnext]
    exact hhas

end BlockResolver

end Doopey
