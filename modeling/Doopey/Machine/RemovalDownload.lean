import Doopey.Block.GivenIDs
import Doopey.Machine.RemovalRuns

/-!
# Downloading while files are removed

While nobody asks for its removal, a file can be downloaded as it was uploaded, whatever other
files are removed meanwhile, and all of its blocks stay on the machines that saved them.
-/

namespace Doopey

open Foundation FileUploader Client

namespace RemovalNet

/-- A file that was uploaded is not to be removed. -/
structure Keeps (blockReplica : UInt64) (id : BlockID) (ids : List BlockID) (s : RemovalNet) :
    Prop where
  intact : s.Intact blockReplica
  stays : id ∉ s.removed
  completed : ∃ file, (id, file) ∈ s.storage.completed
  listed : s.storage.net.listedIDs id = ids

section Downloads

variable {blockReplica : UInt64} {keyHash : Bytes → Nat} {s s' : RemovalNet} {id : BlockID}
  {ids : List BlockID}

/-- Its blocks belong to no other file. -/
theorem Keeps.not_doomed (h : s.Keeps blockReplica id ids) {other : BlockID}
    (hof : other = id ∨ other ∈ ids) : ¬ s.Doomed other := by
  rintro ⟨id', hid', hof'⟩
  rw [← h.listed] at hof
  have hholds : s.storage.Holds (.file id) other := ⟨h.completed, hof⟩
  have hholds' : s.storage.Holds (.file id') other := ⟨h.intact.removed hid', hof'⟩
  obtain rfl := Party.file.inj (h.intact.storage.apart hholds hholds')
  exact h.stays hid'

/-- Only a call of `handleRemove` adds to the files that were to be removed. -/
theorem mem_removed_of_step {event : RemovalEvent} (hleaves : s.Leaves id event)
    (hstep : RemovalStep blockReplica s event s') (hid : id ∈ s'.removed) : id ∈ s.removed := by
  cases hstep with
  | removeFile n path id' tree result hmeta hne hremove =>
      rcases List.mem_cons.mp hid with rfl | hold
      · exact absurd hmeta hleaves
      · exact hold
  | _ => exact hid

theorem Keeps.step (h : s.Keeps blockReplica id ids) (hreplica : 1 ≤ blockReplica)
    {event : RemovalEvent} (henduring : s.Enduring event) (hleaves : s.Leaves id event)
    (hstep : RemovalStep blockReplica s event s') :
    s'.Keeps blockReplica id ids ∧
      s.storage.net.KeepsOn (fun other => other = id ∨ other ∈ ids) s'.storage.net := by
  obtain ⟨hintact, hkeeps, hcompleted⟩ := h.intact.step hreplica henduring hstep
  obtain ⟨file, hfile⟩ := h.completed
  obtain ⟨-, -, hname, ids', harchives⟩ := h.intact.storage.completed hfile
  refine ⟨⟨hintact, fun hid => h.stays (mem_removed_of_step hleaves hstep hid),
    ⟨file, hcompleted hfile⟩, ?_⟩, hkeeps.mono fun _ => h.not_doomed⟩
  rw [hkeeps.listedIDs_eq (harchives.first_ne_none hname (Or.inl rfl)), h.listed]

/-- Every block of the file is on the machine that saved it. -/
theorem Keeps.stores (h : s.Keeps blockReplica id ids) {other : BlockID}
    (hof : other = id ∨ other ∈ ids) :
    s.storage.net.Stores other (getMachineIDFromBlockID other) := by
  obtain ⟨file, hfile⟩ := h.completed
  obtain ⟨-, -, hname, ids', harchives⟩ := h.intact.storage.completed hfile
  have hfirst := harchives.first_ne_none hname (h.listed ▸ hof)
  have hdoomed := h.not_doomed hof
  rw [← buildBlockID_get other] at hfirst hdoomed
  have hhome := h.intact.storage.blocks.home hdoomed hfirst
  rw [buildBlockID_get] at hhome
  obtain ⟨data, hdata⟩ := Option.ne_none_iff_exists'.mp hhome
  exact ⟨data, h.intact.storage.blocks.file hdata, hdata⟩

end Downloads

/-! ## Two files, and one that is removed -/

open StorageNet

/-- As long as nothing is removed, the machines do what they do without removals. -/
theorem steps_runs {blockReplica : UInt64} {keyHash : Bytes → Nat} {storage storage' : StorageNet}
    {events : List StorageEvent} (hsteps : ((storageSystem blockReplica keyHash).restrict
      StorageNet.Enduring).Steps storage events storage')
    (hplain : ∀ event ∈ events, ∀ block, event ≠ .blocks block)
    (removals : MachineID → List Removal) (removed : List BlockID) :
    ((removalSystem blockReplica keyHash).restrict Enduring).Steps ⟨storage, removals, removed⟩
      (events.map .runs) ⟨storage', removals, removed⟩ := by
  induction hsteps with
  | nil storage => exact .nil _
  | @cons before middle after event events hstep hrest ih =>
      have henduring : Enduring ⟨before, removals, removed⟩ (.runs event) := by
        cases event with
        | blocks block => exact absurd rfl (hplain _ List.mem_cons_self block)
        | _ => exact hstep.1
      have hruns := RemovalStep.runs (s := ⟨before, removals, removed⟩) event middle hstep.2
      exact .cons ⟨henduring, hruns⟩
        (ih fun other hother => hplain other (List.mem_cons_of_mem _ hother))

end RemovalNet

end Doopey
