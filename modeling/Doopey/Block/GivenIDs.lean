import Doopey.Block.DirectoryRuns

/-!
# The IDs that a machine gives away

The counter of a machine is kept in memory only. A new process finds it again from
the blocks whose files exist, so that the number of a block that was removed may be
counted again; and the counter comes around after 2³² numbers. As long as a restart
finds a block with a number that is not below those given away, and the counter is
not at its end, no ID is given away twice.
-/

namespace Doopey

open Foundation

theorem buildBlockID_get (id : BlockID) :
    buildBlockID (getMachineIDFromBlockID id) (getLocalIDFromBlockID id) = id := by
  have hid := id.toNat_lt
  rw [← UInt64.toNat_inj]
  simp [getMachineIDFromBlockID, getLocalIDFromBlockID, buildBlockID, UInt64.toNat_shiftLeft,
    Nat.shiftLeft_eq, UInt64.toNat_add, UInt64.toNat_shiftRight, Nat.shiftRight_eq_div_pow]
  omega

/-- A machine, and the IDs that `newLocalID` has returned on it, in whatever process. -/
structure IDHistory where
  resolver : BlockResolver
  given : List BlockID

/-- What happens on a machine: a call of `newLocalID`, or a step of its blocks. -/
inductive IDOp
  | newLocalID
  | other (op : ResolverOp)

namespace BlockResolver

/-- The IDs that `newLocalID` returns in a step. -/
def handsOut (resolver : BlockResolver) : ResolverOp → List BlockID
  | .save _ _ => [resolver.newLocalID.1]
  | .saveAs _ _ _ => []
  | .remove _ => []
  | .restart _ => []

end BlockResolver

namespace IDHistory

/-- A call of `newLocalID`. -/
def handOut (history : IDHistory) : IDHistory :=
  ⟨history.resolver.newLocalID.2, history.given ++ [history.resolver.newLocalID.1]⟩

/-- The steps of a machine. -/
inductive Step (history : IDHistory) : IDOp → IDHistory → Prop
  | newLocalID : Step history .newLocalID history.handOut
  | other {op : ResolverOp} {after : BlockResolver}
      (hstep : ResolverStep history.resolver op after) :
      Step history (.other op) ⟨after, history.given ++ history.resolver.handsOut op⟩

/-- A machine that starts on any directory; nothing is given away yet. -/
def system : System IDHistory IDOp where
  init history := history.given = [] ∧
    (resolverSystem fun _ => True).init history.resolver
  step := Step

/-- The counter does not come around, unless nothing has been given away. -/
def Countable (history : IDHistory) : Prop :=
  history.resolver.localMax + 1 = 0 → history.given = []

/-- For every ID given away, but for one with the number 0, there is a file of a block of the
machine with a number that is not below. -/
def Recoverable (history : IDHistory) : Prop :=
  ∀ id ∈ history.given, getLocalIDFromBlockID id ≠ 0 → ∃ name own,
    history.resolver.files name ≠ none ∧ BlockResolver.idOfName name = some own ∧
    getMachineIDFromBlockID own = history.resolver.machineID ∧
    getLocalIDFromBlockID id ≤ getLocalIDFromBlockID own

/-- The condition on a step: the counter does not come around, and is not lost. -/
def KeepsCount (history : IDHistory) : IDOp → Prop
  | .newLocalID => history.Countable
  | .other (.save _ _) => history.Countable
  | .other (.saveAs _ _ _) => True
  | .other (.remove _) => True
  | .other (.restart _) => history.Recoverable

/-- Every ID given away was built by the machine. -/
def Own (history : IDHistory) : Prop :=
  ∀ id ∈ history.given, getMachineIDFromBlockID id = history.resolver.machineID

/-- No ID is given away twice, and none is above the counter. -/
structure CountedPast (history : IDHistory) : Prop where
  nodup : history.given.Nodup
  le {id : BlockID} : id ∈ history.given → getLocalIDFromBlockID id ≤ history.resolver.localMax

/-- However often `newLocalID` is called before the counter is at its end, no ID is given
away twice. -/
def Continues (history : IDHistory) : Prop :=
  ∀ n, history.resolver.localMax.toNat + n < 2 ^ 32 → (handOut^[n] history).given.Nodup

variable {history after : IDHistory}

/-! ## Giving IDs away -/

theorem localMax_handOut (history : IDHistory) :
    history.handOut.resolver.localMax = history.resolver.localMax + 1 := rfl

theorem given_handOut (history : IDHistory) : history.handOut.given = history.given ++
    [buildBlockID history.resolver.machineID (history.resolver.localMax + 1)] := rfl

theorem toNat_succ {max : LocalBlockID} (hmax : max.toNat + 1 < 2 ^ 32) :
    (max + 1).toNat = max.toNat + 1 := by
  rw [UInt32.toNat_add, UInt32.toNat_one, Nat.mod_eq_of_lt hmax]

/-- A number that is above those given away makes a new ID. -/
theorem CountedPast.succ (h : history.CountedPast)
    (hmax : history.resolver.localMax.toNat + 1 < 2 ^ 32) : history.handOut.CountedPast := by
  have hsucc := toNat_succ hmax
  refine ⟨?_, fun {id} hid => ?_⟩
  · rw [given_handOut]
    refine List.nodup_append'.mpr ⟨h.nodup, List.nodup_singleton _, ?_⟩
    intro id hid hnew
    rw [List.mem_singleton] at hnew
    have hle := h.le hid
    rw [hnew, getLocalIDFromBlockID_buildBlockID, UInt32.le_iff_toNat_le, hsucc] at hle
    omega
  · rw [given_handOut, List.mem_append, List.mem_singleton] at hid
    rw [localMax_handOut]
    rcases hid with hold | rfl
    · have hle := h.le hold
      rw [UInt32.le_iff_toNat_le] at hle ⊢
      omega
    · rw [getLocalIDFromBlockID_buildBlockID]
      exact UInt32.le_refl _

/-- What several calls of `newLocalID` leave behind. -/
theorem iterate_handOut (n : Nat) (hmax : history.resolver.localMax.toNat + n < 2 ^ 32) :
    (handOut^[n] history).resolver.localMax.toNat = history.resolver.localMax.toNat + n ∧
      (handOut^[n] history).resolver.machineID = history.resolver.machineID ∧
      ∀ id ∈ history.given, id ∈ (handOut^[n] history).given := by
  induction n with
  | zero => exact ⟨rfl, rfl, fun _ hid => hid⟩
  | succ n ih =>
      obtain ⟨hlocal, hmachine, hgiven⟩ := ih (by omega)
      rw [Function.iterate_succ_apply']
      refine ⟨?_, hmachine, fun id hid => ?_⟩
      · rw [localMax_handOut, toNat_succ (by omega), hlocal, Nat.add_assoc]
      · rw [given_handOut]
        exact List.mem_append_left _ (hgiven id hid)

theorem CountedPast.iterate (h : history.CountedPast) (n : Nat)
    (hmax : history.resolver.localMax.toNat + n < 2 ^ 32) : (handOut^[n] history).CountedPast := by
  induction n with
  | zero => exact h
  | succ n ih =>
      rw [Function.iterate_succ_apply']
      refine (ih (by omega)).succ ?_
      rw [(iterate_handOut n (by omega)).1]
      omega

/-- What the invariant says is what the IDs to come need. -/
theorem countedPast_iff (hown : history.Own) : history.CountedPast ↔ history.Continues := by
  refine ⟨fun h n hmax => (h.iterate n hmax).nodup, fun h => ⟨?_, fun {id} hid => ?_⟩⟩
  · exact h 0 history.resolver.localMax.toNat_lt
  · by_contra habove
    rw [UInt32.le_iff_toNat_le] at habove
    -- the call that counts up to the number of the ID
    obtain ⟨n, hn⟩ : ∃ n, (getLocalIDFromBlockID id).toNat =
        history.resolver.localMax.toNat + (n + 1) :=
      ⟨(getLocalIDFromBlockID id).toNat - history.resolver.localMax.toNat - 1, by omega⟩
    have hlt : (getLocalIDFromBlockID id).toNat < 2 ^ 32 := (getLocalIDFromBlockID id).toNat_lt
    obtain ⟨hlocal, hmachine, hgiven⟩ := @iterate_handOut history n (by omega)
    have hnumber : (handOut^[n] history).resolver.localMax + 1 = getLocalIDFromBlockID id := by
      rw [← UInt32.toNat_inj, toNat_succ (by omega)]
      omega
    have hnodup := h (n + 1) (by omega)
    rw [Function.iterate_succ_apply', given_handOut, hmachine, hnumber, ← hown id hid,
      buildBlockID_get] at hnodup
    exact List.disjoint_of_nodup_append hnodup (hgiven id hid) (List.mem_singleton_self id)

/-! ## Steps -/

theorem CountedPast.congr (history history' : IDHistory) (hgiven : history'.given = history.given)
    (hmax : history'.resolver.localMax = history.resolver.localMax) :
    history'.CountedPast ↔ history.CountedPast := by
  constructor
  · rintro ⟨hnodup, hle⟩
    rw [hgiven] at hnodup
    exact ⟨hnodup, fun hid => hmax ▸ hle (hgiven ▸ hid)⟩
  · rintro ⟨hnodup, hle⟩
    rw [← hgiven] at hnodup
    exact ⟨hnodup, fun hid => hmax ▸ hle (hgiven ▸ hid)⟩

/-- A step with a new ID in it: the one that the counter comes to. -/
theorem CountedPast.handOut_iff (h : history.CountedPast) (hown : history.Own) :
    history.handOut.CountedPast ↔ history.Countable := by
  constructor
  · intro hafter hzero
    by_contra hne
    obtain ⟨id, hid⟩ := List.exists_mem_of_ne_nil _ hne
    -- the ID with the number 0 is the one that is given away again
    have hle := hafter.le (List.mem_append_left _ hid)
    rw [localMax_handOut, hzero, UInt32.le_zero_iff] at hle
    have hnodup := hafter.nodup
    rw [given_handOut, hzero, ← hown id hid, ← hle, buildBlockID_get] at hnodup
    exact List.disjoint_of_nodup_append hnodup hid (List.mem_singleton_self id)
  · intro hcountable
    by_cases hzero : history.resolver.localMax + 1 = 0
    · have hnew := given_handOut history
      rw [hcountable hzero, List.nil_append, hzero] at hnew
      refine ⟨?_, fun {id} hid => ?_⟩
      · rw [hnew]
        exact List.nodup_singleton _
      · rw [hnew, List.mem_singleton] at hid
        rw [hid, getLocalIDFromBlockID_buildBlockID]
        exact UInt32.zero_le
    · refine h.succ ?_
      have hlt := history.resolver.localMax.toNat_lt
      by_contra hend
      refine hzero (UInt32.toNat_inj.mp ?_)
      rw [UInt32.toNat_add, UInt32.toNat_one, UInt32.toNat_zero]
      omega

/-- A new process counts on behind the IDs given away exactly if it finds them covered. -/
theorem CountedPast.restart_iff (h : history.CountedPast) {names : List Bytes}
    (hnames : Lists names history.resolver.files) :
    CountedPast ⟨.start history.resolver.machineID history.resolver.machineID_ne
      history.resolver.files names, history.given⟩ ↔ history.Recoverable := by
  have hcounted := BlockResolver.counted_start history.resolver.machineID
    history.resolver.machineID_ne history.resolver.files names
  have hmachine := (BlockResolver.machineID_start history.resolver.machineID
    history.resolver.machineID_ne history.resolver.files names).1
  have hhas := BlockResolver.has_start history.resolver.machineID
    history.resolver.machineID_ne history.resolver.files names
  constructor
  · rintro ⟨-, hle⟩ id hid hne
    rcases hcounted.max with hzero | ⟨own, hown, hmax⟩
    · have hle := hle hid
      rw [hzero] at hle
      exact absurd (UInt32.le_zero_iff.mp hle) hne
    · obtain ⟨name, hmem, hname⟩ := (hhas own).mp hown.1
      refine ⟨name, own, ?_, hname, hown.2.trans hmachine, hmax ▸ hle hid⟩
      apply ((hnames name).mp hmem).resolve_right
      intro hdots
      rw [BlockResolver.idOfName, if_pos hdots] at hname
      exact absurd hname (by simp)
  · intro hrecoverable
    refine ⟨h.nodup, fun {id} hid => ?_⟩
    by_cases hzero : getLocalIDFromBlockID id = 0
    · rw [hzero]
      exact UInt32.zero_le
    · obtain ⟨name, own, hfile, hname, hpart, hle⟩ := hrecoverable id hid hzero
      have hfound := (hhas own).mpr ⟨name, (hnames name).mpr (Or.inl hfile), hname⟩
      exact UInt32.le_trans hle (hcounted.le ⟨hfound, hpart.trans hmachine.symm⟩)

/-- The steps that keep the count are the ones that the condition admits. -/
theorem CountedPast.step_iff (h : history.CountedPast) (hown : history.Own) {op : IDOp}
    (hstep : history.Step op after) : after.CountedPast ↔ history.KeepsCount op := by
  cases hstep with
  | newLocalID => exact h.handOut_iff hown
  | other hstep =>
      cases hstep with
      | save data opens =>
          have hmax := (history.resolver.saveBlock_spec opens data 0).2.localMax
          have hsame := CountedPast.congr history.handOut
            ⟨(history.resolver.saveBlock opens data 0).2, history.handOut.given⟩ rfl hmax
          exact hsame.trans (h.handOut_iff hown)
      | saveAs id data opens hid =>
          have hmax := (history.resolver.saveBlock_spec opens data id).2.localMax
          rw [if_neg hid] at hmax
          have hsame := CountedPast.congr history
            ⟨(history.resolver.saveBlock opens data id).2, history.given ++ []⟩
            (List.append_nil _) hmax
          exact iff_of_true (hsame.mpr h) trivial
      | remove id =>
          have hsame := CountedPast.congr history
            ⟨history.resolver.removeLocalID id, history.given ++ []⟩ (List.append_nil _) rfl
          exact iff_of_true (hsame.mpr h) trivial
      | restart names hnames =>
          rw [BlockResolver.handsOut, List.append_nil]
          exact h.restart_iff hnames

/-- Whatever happens, a machine builds its IDs itself. -/
theorem Own.step (hown : history.Own) {op : IDOp} (hstep : history.Step op after) : after.Own := by
  have hnew : ∀ id ∈ history.handOut.given,
      getMachineIDFromBlockID id = history.resolver.machineID := by
    intro id hid
    rw [given_handOut, List.mem_append, List.mem_singleton] at hid
    rcases hid with hold | rfl
    · exact hown id hold
    · exact getMachineIDFromBlockID_buildBlockID _ _
  cases hstep with
  | newLocalID => exact hnew
  | other hstep =>
      cases hstep with
      | save data opens =>
          intro id hid
          exact (hnew id hid).trans (history.resolver.saveBlock_spec opens data 0).2.machineID.symm
      | saveAs id data opens hid =>
          intro id' hid'
          rw [BlockResolver.handsOut, List.append_nil] at hid'
          exact (hown id' hid').trans (history.resolver.saveBlock_spec opens data id).2.machineID.symm
      | remove id =>
          intro id' hid'
          rw [BlockResolver.handsOut, List.append_nil] at hid'
          exact hown id' hid'
      | restart names hnames =>
          intro id hid
          rw [BlockResolver.handsOut, List.append_nil] at hid
          exact (hown id hid).trans (BlockResolver.machineID_start _ _ _ names).1.symm

/-! ## Runs -/

theorem invariant_own : system.Invariant Own where
  init hinit := by
    intro id hid
    rw [hinit.1] at hid
    exact absurd hid List.not_mem_nil
  step hown hstep := hown.step hstep

theorem invariant_countedPast : (system.restrict KeepsCount).Invariant
    fun history => history.Own ∧ history.CountedPast where
  init hinit := by
    refine ⟨invariant_own.init hinit, ?_, fun {id} hid => ?_⟩
    · rw [hinit.1]
      exact List.nodup_nil
    · rw [hinit.1] at hid
      exact absurd hid List.not_mem_nil
  step h hstep := ⟨h.1.step hstep.2, (h.2.step_iff h.1 hstep.2).mpr hstep.1⟩

/-- If the counter does not come around and every restart finds a block that is not below the
IDs given away, then all of them are different and built by the machine. A step that does not
meet the condition leads to a machine that comes to give an ID away again. -/
theorem given_distinct {ops : List IDOp} (hrun : (system.restrict KeepsCount).Run ops history) :
    history.given.Nodup ∧
      (∀ id ∈ history.given, getMachineIDFromBlockID id = history.resolver.machineID) ∧
      ∀ op after, history.Step op after → (history.KeepsCount op ↔ after.Continues) := by
  obtain ⟨hown, hcounted⟩ := invariant_countedPast.run hrun
  refine ⟨hcounted.nodup, hown, fun op after hstep => ?_⟩
  rw [← hcounted.step_iff hown hstep, countedPast_iff (hown.step hstep)]

/-- The machine 1 on a directory without files. -/
def empty : IDHistory := ⟨BlockResolver.emptyStart, []⟩

theorem init_empty (guard : IDHistory → IDOp → Prop) : (system.restrict guard).init empty :=
  ⟨rfl, 1, by decide, _, _, trivial, BlockResolver.lists_nothing, rfl⟩

/-- The machine with its first block. -/
def oneSaved : BlockResolver := (BlockResolver.emptyStart.saveBlock true [7] 0).2

theorem files_oneSaved : oneSaved.files =
    Function.update (fun _ => none) (convertBlockIDToPath (buildBlockID 1 1)) (some [7]) :=
  (BlockResolver.emptyStart.saveBlock_spec true [7] 0).2.files

theorem step_oneSaved :
    empty.Step (.other (.save [7] true)) ⟨oneSaved, [buildBlockID 1 1]⟩ := .other (.save [7] true)

theorem countable_empty : empty.Countable := fun _ => rfl

/-- A block is saved, and a new process finds it and gives the next number away. -/
theorem given_distinct_example : ∃ history : IDHistory, history.given.length = 2 ∧
    history.given.Nodup := by
  have hfile : oneSaved.files (convertBlockIDToPath (buildBlockID 1 1)) ≠ none := by
    rw [files_oneSaved, Function.update_self]
    exact Option.some_ne_none _
  have hnames : Lists [ascii ".", ascii "..", convertBlockIDToPath (buildBlockID 1 1)]
      oneSaved.files := by
    intro name
    rw [files_oneSaved, Function.update_apply]
    by_cases heq : name = convertBlockIDToPath (buildBlockID 1 1) <;> simp [heq]
  have hrecoverable : Recoverable ⟨oneSaved, [buildBlockID 1 1]⟩ := by
    intro id hid _
    obtain rfl := List.mem_singleton.mp hid
    exact ⟨_, buildBlockID 1 1, hfile, BlockResolver.idOfName_convertBlockIDToPath
      (buildBlockID_ne_zero (by decide) 1), getMachineIDFromBlockID_buildBlockID 1 1,
      UInt32.le_refl _⟩
  have hmax : (BlockResolver.start 1 oneSaved.machineID_ne oneSaved.files
      [ascii ".", ascii "..", convertBlockIDToPath (buildBlockID 1 1)]).localMax = 1 := by
    decide
  have hrun : (system.restrict KeepsCount).Run [.other (.save [7] true), .other (.restart _),
      .newLocalID] _ :=
    ⟨empty, init_empty KeepsCount, .cons ⟨countable_empty, step_oneSaved⟩
      (.cons ⟨hrecoverable, .other (.restart _ hnames)⟩
        (.cons ⟨fun hzero => absurd (hmax ▸ hzero) (by decide), .newLocalID⟩ (.nil _)))⟩
  exact ⟨_, rfl, (given_distinct hrun).1⟩

/-- A block is saved and removed; after a restart the next block gets the same ID. -/
theorem exists_given_twice : ∃ ops history, system.Run ops history ∧
    history.given = [buildBlockID 1 1, buildBlockID 1 1] ∧ ¬ history.given.Nodup := by
  have hremoved : (oneSaved.removeLocalID (buildBlockID 1 1)).files = fun _ => none := by
    rw [BlockResolver.removeLocalID, files_oneSaved, Function.update_idem, Function.update_eq_self_iff]
  have hnames : Lists [ascii ".", ascii ".."]
      (oneSaved.removeLocalID (buildBlockID 1 1)).files := by
    rw [hremoved]
    exact BlockResolver.lists_nothing
  refine ⟨_, _, ⟨empty, init_empty fun _ _ => True, .cons step_oneSaved
    (.cons (.other (.remove (buildBlockID 1 1))) (.cons (.other (.restart _ hnames))
      (.cons .newLocalID (.nil _))))⟩, rfl, ?_⟩
  exact fun hnodup => (List.nodup_cons.mp hnodup).1 (List.mem_singleton_self _)

end IDHistory

end Doopey
