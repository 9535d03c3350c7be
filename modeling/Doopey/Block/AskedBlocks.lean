import Doopey.Block.AskBlock
import Doopey.Foundation.Runs

/-!
# What is found in the cache

A call of `askBlock` for a cached block compares the reading of its clock with the time
that is stored with the entry, and only after `checkReplicaInterval` it checks the entry
and uses it. Before that it neither uses the entry nor asks other machines.
-/

namespace Doopey

open Foundation

/-- What happens at a resolver. -/
inductive CacheOp
  | location (op : LocationOp)
  | askBlock (id : BlockID) (asking : Asking)

/-- The payload that comes with an operation. -/
def LocationOp.data : LocationOp → Bytes
  | locationACK data _ | updateReplica data _ => data
  | _ => []

/-- The readings of the clock in an operation. -/
def LocationOp.readings : LocationOp → List Int
  | locationACK _ now | updateReplica _ now => [now]
  | _ => []

namespace CacheOp

/-- The operations for other parties, those during a wait included. -/
def locations : CacheOp → List LocationOp
  | location op => [op]
  | askBlock _ asking => asking.wait

/-- The payloads are vectors. -/
def Fits (op : CacheOp) : Prop := ∀ part ∈ op.locations, part.data.length < 2 ^ 64

/-- The readings of the clock that are stored. -/
def readings : CacheOp → List Int
  | location op => op.readings
  | askBlock _ asking => asking.now :: asking.after :: asking.wait.flatMap LocationOp.readings

end CacheOp

namespace Resolver

variable (blockReplica : UInt64) (checkReplicaInterval : Int)

/-- Any operations at a resolver, from the start with an empty cache on. -/
def system : System Resolver CacheOp where
  init resolver := resolver.remoteIDs = ∅
  step before label after :=
    label.Fits ∧
      match label with
      | .location op => before.perform blockReplica op = .ok after
      | .askBlock id asking =>
          ∃ found, before.askBlock blockReplica checkReplicaInterval id asking = .ok (after, found)

/-- The entries of the cache have lists that fit, and are not used after a time. -/
def UsedUntil (resolver : Resolver) (time : Int) : Prop :=
  ∀ (id : BlockID) (attr : TimedAttr), resolver.remoteIDs[id]? = some attr →
    attr.machine.length < 2 ^ 64 ∧ attr.ts ≤ time

variable {blockReplica checkReplicaInterval}

section Entries

variable {resolver resolver' : Resolver} {time : Int} {id : BlockID} {attr : TimedAttr}

theorem UsedUntil.setRemote (h : resolver.UsedUntil time) (hlength : attr.machine.length < 2 ^ 64)
    (htime : attr.ts ≤ time) : (resolver.setRemote id attr).UsedUntil time := by
  intro other entry hget
  rw [Resolver.setRemote, getElem?_insert_block] at hget
  split at hget
  next =>
    rw [← Option.some.inj hget]
    exact ⟨hlength, htime⟩
  next => exact h other entry hget

theorem UsedUntil.removeRemoteID (h : resolver.UsedUntil time) :
    (resolver.removeRemoteID id).UsedUntil time := by
  intro other entry hget
  rw [Resolver.removeRemoteID, getElem?_erase_block] at hget
  split at hget
  next => exact absurd hget (by simp)
  next => exact h other entry hget

theorem UsedUntil.cleanCache (h : resolver.UsedUntil time) :
    resolver.cleanCache.UsedUntil time := by
  have hround {resolver : Resolver} (h : resolver.UsedUntil time) :
      resolver.eraseFirst.UsedUntil time := by
    unfold eraseFirst
    split
    next => exact h
    next => exact h.removeRemoteID
  exact hround (hround (hround (hround (hround h))))

theorem length_addMachines_lt {attr : BlockLocationAttr} (hlength : attr.machine.length < 2 ^ 64)
    (machines : List MachineID) :
    (attr.addMachines blockReplica machines).machine.length < 2 ^ 64 := by
  induction machines generalizing attr with
  | nil => exact hlength
  | cons m machines ih =>
      refine ih ?_
      unfold BlockLocationAttr.addMachine
      split
      next => exact hlength
      next hroom =>
        split
        next => exact hlength
        next =>
          -- no machine is added to a list of `blockReplica` machines
          have hreplica := blockReplica.toNat_lt
          rw [List.length_insertionSort, List.length_append, List.length_singleton]
          omega

theorem length_attrOf_lt (id : BlockID) (m : MachineID) :
    (attrOf blockReplica id m).machine.length < 2 ^ 64 := by
  have hempty : ([] : List MachineID).length < 2 ^ 64 := by decide
  exact @length_addMachines_lt blockReplica ⟨id, [], .available⟩ hempty [m]

theorem length_readMachines {data : Bytes} {machines : List MachineID}
    (hread : readMachines data = .ok machines) : machines.length ≤ data.length := by
  induction data using readMachines.induct generalizing machines with
  | case1 =>
      obtain rfl := Except.ok.inj hread
      exact Nat.le_refl _
  | case2 b₀ b₁ b₂ b₃ rest ih =>
      obtain ⟨others, hothers, hread⟩ := bind_eq_ok_iff.mp hread
      obtain rfl := Except.ok.inj hread
      have hlength := ih hothers
      simp only [List.length_cons]
      omega
  | case3 data hnil hcons =>
      rw [readMachines] at hread
      · exact absurd hread (by simp)
      · exact hnil
      · exact hcons

theorem length_readLocation {data : Bytes} {machines : List MachineID}
    (hread : readLocation data = .ok (id, machines)) : machines.length ≤ data.length := by
  obtain ⟨other, -, hread⟩ := bind_eq_ok_iff.mp hread
  obtain ⟨others, hothers, hread⟩ := bind_eq_ok_iff.mp hread
  rw [← (Prod.mk.inj (Except.ok.inj hread)).2]
  have hlength := length_readMachines hothers
  rw [List.length_drop] at hlength
  exact hlength.trans (Nat.sub_le _ _)

theorem UsedUntil.locationACK {data : Bytes} {now : Int} (h : resolver.UsedUntil time)
    (hstart : 0 ≤ time) (hnow : now ≤ time)
    (hrun : resolver.handleRequestBlockLocationACK blockReplica data now = .ok resolver') :
    resolver'.UsedUntil time := by
  rcases locationACK_cases hrun with ⟨-, rfl⟩ | ⟨other, first, rest, -, hcases⟩
  · exact h
  rcases hcases with ⟨attr, hget, rfl⟩ | ⟨cleaned, hcleaned, rfl⟩
  · exact h.setRemote (length_addMachines_lt (h other attr hget).1 _) hnow
  · -- a new entry has the time 0
    have hused : cleaned.UsedUntil time := by
      rcases hcleaned with rfl | rfl
      · exact h
      · exact h.cleanCache
    exact (hused.setRemote (length_attrOf_lt other first) hstart).setRemote
      (length_addMachines_lt (length_attrOf_lt other first) rest) hstart

theorem UsedUntil.updateReplica {data : Bytes} {now : Int} (h : resolver.UsedUntil time)
    (hdata : data.length < 2 ^ 64) (hnow : now ≤ time)
    (hrun : resolver.handleUpdateReplica data now = .ok resolver') : resolver'.UsedUntil time := by
  obtain ⟨⟨other, mids⟩, hread, hrun⟩ := bind_eq_ok_iff.mp hrun
  obtain rfl := Except.ok.inj hrun
  have hlocal : (resolver.updateLocal other mids).UsedUntil time := by
    intro key entry hget
    exact h key entry (remoteIDs_updateLocal other mids ▸ hget)
  unfold updateRemote
  split
  next => exact hlocal
  next => exact hlocal.setRemote (Nat.lt_of_le_of_lt (length_readLocation hread) hdata) hnow

/-- An operation stores no other readings of the clock than its own. -/
theorem UsedUntil.perform {op : LocationOp} (h : resolver.UsedUntil time) (hstart : 0 ≤ time)
    (hdata : op.data.length < 2 ^ 64) (htime : ∀ now ∈ op.readings, now ≤ time)
    (hrun : resolver.perform blockReplica op = .ok resolver') : resolver'.UsedUntil time := by
  cases op with
  | locationACK data now => exact h.locationACK hstart (htime now List.mem_cons_self) hrun
  | updateReplica data now => exact h.updateReplica hdata (htime now List.mem_cons_self) hrun
  | forceAddLocalID other =>
      obtain rfl := Except.ok.inj hrun
      exact @UsedUntil.removeRemoteID resolver time other h
  | removeLocalID other =>
      obtain rfl := Except.ok.inj hrun
      exact h
  | removeRemoteID other =>
      obtain rfl := Except.ok.inj hrun
      exact h.removeRemoteID

theorem UsedUntil.performs {ops : List LocationOp} (h : resolver.UsedUntil time)
    (hstart : 0 ≤ time) (hdata : ∀ op ∈ ops, op.data.length < 2 ^ 64)
    (htime : ∀ now ∈ ops.flatMap LocationOp.readings, now ≤ time)
    (hrun : ops.foldlM (Resolver.perform blockReplica) resolver = .ok resolver') :
    resolver'.UsedUntil time := by
  induction ops generalizing resolver with
  | nil =>
      obtain rfl := Except.ok.inj hrun
      exact h
  | cons op ops ih =>
      rw [List.foldlM_cons] at hrun
      obtain ⟨middle, hop, hrest⟩ := bind_eq_ok_iff.mp hrun
      rw [List.flatMap_cons] at htime
      refine ih (h.perform hstart (hdata op List.mem_cons_self) ?_ hop)
        (fun other hmem => hdata other (List.mem_cons_of_mem _ hmem)) ?_ hrest
      · exact fun now hmem => htime now (List.mem_append_left _ hmem)
      · exact fun now hmem => htime now (List.mem_append_right _ hmem)

theorem UsedUntil.touch {now : Int} (h : resolver.UsedUntil time) (hnow : now ≤ time) :
    (resolver.touch id now).1.UsedUntil time := by
  unfold Resolver.touch
  split
  next => exact h
  next entry hget => exact h.setRemote (h id entry hget).1 hnow

theorem UsedUntil.askRemoteBlock {asking : Asking} {found : Option TimedAttr}
    (h : resolver.UsedUntil time) (hstart : 0 ≤ time)
    (hdata : ∀ op ∈ asking.wait, op.data.length < 2 ^ 64)
    (htime : ∀ now ∈ asking.wait.flatMap LocationOp.readings, now ≤ time) (hafter : asking.after ≤ time)
    (hrun : resolver.askRemoteBlock blockReplica id asking = .ok (resolver', found)) :
    resolver'.UsedUntil time := by
  obtain ⟨waited, hwait, hrun⟩ := bind_eq_ok_iff.mp hrun
  have htouch : (waited.touch id asking.after).1 = resolver' := by rw [Except.ok.inj hrun]
  rw [← htouch]
  exact (h.performs hstart hdata htime hwait).touch hafter

theorem UsedUntil.checkReplica {answer : Nat → CheckAnswer} {succ : Bool}
    {sent : List (MachineID × ResolverMessage)} (h : resolver.UsedUntil time)
    (hentry : resolver.remoteIDs[id]? = some attr)
    (hrun : resolver.checkReplica blockReplica id answer = .ok (resolver', succ, sent)) :
    resolver'.UsedUntil time := by
  obtain ⟨hlength, htime⟩ := h id attr hentry
  have hleft : (holders answer attr.machine).length ≤ attr.machine.length :=
    (keptAt_sublist _).length_le
  rw [checkReplica_eq hentry hlength] at hrun
  cases hholders : holders answer attr.machine with
  | nil =>
      rw [hholders] at hrun
      rw [← (Prod.mk.inj (Except.ok.inj hrun)).1]
      have hempty : ({ attr with machine := [] } : TimedAttr).machine.length < 2 ^ 64 :=
        Nat.two_pow_pos 64
      exact (h.setRemote hempty htime).removeRemoteID
  | cons first rest =>
      rw [hholders] at hrun hleft
      rw [← (Prod.mk.inj (Except.ok.inj hrun)).1]
      exact h.setRemote (Nat.lt_of_le_of_lt hleft hlength) htime

theorem UsedUntil.findRemote {asking : Asking} {found : Option TimedAttr}
    (h : resolver.UsedUntil time) (hstart : 0 ≤ time)
    (hdata : ∀ op ∈ asking.wait, op.data.length < 2 ^ 64)
    (htime : ∀ now ∈ (CacheOp.askBlock id asking).readings, now ≤ time)
    (hrun : resolver.findRemote blockReplica checkReplicaInterval id asking =
      .ok (resolver', found)) : resolver'.UsedUntil time := by
  have hnow := htime asking.now List.mem_cons_self
  have hafter := htime asking.after (List.mem_cons_of_mem _ List.mem_cons_self)
  have hwait (now : Int) (hmem : now ∈ asking.wait.flatMap LocationOp.readings) : now ≤ time :=
    htime now (List.mem_cons_of_mem _ (List.mem_cons_of_mem _ hmem))
  rcases findRemote_cases hrun with ⟨-, hask⟩ | ⟨entry, hentry, ⟨rfl, -⟩ | hchecked⟩
  · exact h.askRemoteBlock hstart hdata hwait hafter hask
  · exact h
  obtain ⟨checked, succ, sent, hcheck, hcases⟩ := hchecked
  have hused := h.checkReplica hentry hcheck
  rcases hcases with ⟨-, htouch⟩ | ⟨-, hask⟩
  · have htouched : (checked.touch id asking.now).1 = resolver' := by rw [htouch]
    rw [← htouched]
    exact hused.touch hnow
  · exact hused.askRemoteBlock hstart hdata hwait hafter hask

theorem UsedUntil.askBlock {asking : Asking} {found : Option BlockLocationAttr}
    (h : resolver.UsedUntil time) (hstart : 0 ≤ time)
    (hdata : ∀ op ∈ asking.wait, op.data.length < 2 ^ 64)
    (htime : ∀ now ∈ (CacheOp.askBlock id asking).readings, now ≤ time)
    (hrun : resolver.askBlock blockReplica checkReplicaInterval id asking =
      .ok (resolver', found)) : resolver'.UsedUntil time := by
  rcases askBlock_cases hrun with ⟨-, rfl, -⟩ | ⟨-, tmp, htmp, -⟩
  · exact h
  · exact h.findRemote hstart hdata htime htmp

/-- A step stores no other readings of the clock than its own. -/
theorem UsedUntil.step {label : CacheOp} (h : resolver.UsedUntil time) (hstart : 0 ≤ time)
    (htime : ∀ now ∈ label.readings, now ≤ time)
    (hstep : (system blockReplica checkReplicaInterval).step resolver label resolver') :
    resolver'.UsedUntil time := by
  obtain ⟨hfits, hstep⟩ := hstep
  cases label with
  | location op => exact h.perform hstart (hfits op List.mem_cons_self) htime hstep
  | askBlock other asking =>
      obtain ⟨found, hfound⟩ := hstep
      exact h.askBlock hstart hfits htime hfound

/-- A run whose clock does not go beyond a time. -/
theorem usedUntil_of_run {labels : List CacheOp} (hstart : 0 ≤ time)
    (htime : ∀ label ∈ labels, ∀ now ∈ label.readings, now ≤ time)
    (hrun : (system blockReplica checkReplicaInterval).Run labels resolver) :
    resolver.UsedUntil time := by
  obtain ⟨start, hinit, hsteps⟩ := hrun
  have hempty : start.UsedUntil time := by
    intro other entry hget
    rw [hinit, Std.TreeMap.getElem?_emptyc] at hget
    exact absurd hget (by simp)
  -- induction on the run, with the bound for its readings
  clear hinit
  induction hsteps with
  | nil => exact hempty
  | @cons before middle after label labels hstep _ ih =>
      exact ih (fun other hother => htime other (List.mem_cons_of_mem _ hother))
        (hempty.step hstart (htime label List.mem_cons_self) hstep)

/-- The clock of every run stays below some time. -/
theorem exists_usedUntil_of_run {labels : List CacheOp}
    (hrun : (system blockReplica checkReplicaInterval).Run labels resolver) :
    ∃ time, resolver.UsedUntil time := by
  have hbound (times : List Int) : ∃ time, 0 ≤ time ∧ ∀ now ∈ times, now ≤ time := by
    induction times with
    | nil => exact ⟨0, le_refl 0, by simp⟩
    | cons now times ih =>
        obtain ⟨time, hstart, htime⟩ := ih
        refine ⟨max now time, le_max_of_le_right hstart, fun other hmem => ?_⟩
        rcases List.mem_cons.mp hmem with rfl | hmem
        · exact le_max_left _ _
        · exact le_max_of_le_right (htime other hmem)
  obtain ⟨time, hstart, htime⟩ := hbound (labels.flatMap CacheOp.readings)
  refine ⟨time, usedUntil_of_run hstart (fun label hlabel now hnow => ?_) hrun⟩
  exact htime now (List.mem_flatMap.mpr ⟨label, hlabel, hnow⟩)

end Entries

section Found

variable {resolver : Resolver} {id : BlockID} {attr : TimedAttr} {asking : Asking}

/-- From a list with a machine one is chosen. -/
theorem chooseReplica_ok (hne : attr.machine ≠ []) (memory : Nat → MemAnswer) :
    ∃ m, chooseReplica attr memory = .ok m := by
  have hplace : (firstMax (fun i => (memory i).mem) 0 attr.machine.length).2 <
      attr.machine.length := by
    obtain ⟨hoffered, hnone⟩ :=
      @firstMax_eq Int _ (fun i => (memory i).mem) 0 attr.machine.length
    by_cases hoffer : Offered (fun i => (memory i).mem) 0 attr.machine.length
    · obtain ⟨value, -, hmax⟩ := hoffered hoffer
      exact hmax.lt
    · rw [hnone hoffer]
      exact List.length_pos_iff.mpr hne
  unfold chooseReplica
  rw [List.getElem?_eq_getElem hplace]
  exact ⟨_, rfl⟩

/-- An entry with a machine that has the block is used once the interval is over. -/
theorem findRemote_eq (hentry : resolver.remoteIDs[id]? = some attr)
    (hlength : attr.machine.length < 2 ^ 64)
    (hlive : holders asking.alive attr.machine ≠ []) :
    ∃ resolver', resolver.findRemote blockReplica checkReplicaInterval id asking =
      .ok (resolver', if checkReplicaInterval ≤ asking.now - attr.ts then
        some { attr with machine := holders asking.alive attr.machine, ts := asking.now }
        else none) := by
  unfold findRemote
  rw [hentry]
  dsimp only
  by_cases hinterval : checkReplicaInterval ≤ asking.now - attr.ts
  · rw [if_pos hinterval, if_pos hinterval, checkReplica_eq hentry hlength]
    cases hholders : holders asking.alive attr.machine with
    | nil => exact absurd hholders hlive
    | cons first rest =>
        dsimp only
        rw [ok_bind]
        dsimp only
        rw [if_pos rfl, touch, Resolver.setRemote, getElem?_insert_block, if_pos rfl]
        exact ⟨_, rfl⟩
  · rw [if_neg hinterval, if_neg hinterval]
    exact ⟨_, rfl⟩

/-- A cached block of which some machine answers that it has it is found exactly if the
machine has the block itself, or the interval since the last use of the entry is over. -/
theorem askBlock_finds_iff {labels : List CacheOp}
    (hrun : (system blockReplica checkReplicaInterval).Run labels resolver)
    (hentry : resolver.remoteIDs[id]? = some attr)
    (hlive : ∃ i < attr.machine.length, asking.alive i = .ack true) :
    ∃ resolver' found,
      resolver.askBlock blockReplica checkReplicaInterval id asking = .ok (resolver', found) ∧
      (found ≠ none ↔ id ∈ resolver.localIDs ∨ checkReplicaInterval ≤ asking.now - attr.ts) := by
  obtain ⟨time, hused⟩ := exists_usedUntil_of_run hrun
  have hholders : holders asking.alive attr.machine ≠ [] := by
    obtain ⟨i, hi, hanswer⟩ := hlive
    refine List.ne_nil_of_mem (mem_keptAt_iff.mpr ⟨i, List.getElem?_eq_getElem hi, ?_⟩)
    rw [hanswer]
    rfl
  unfold askBlock
  by_cases hlocal : id ∈ resolver.localIDs
  · rw [if_pos hlocal]
    exact ⟨_, _, rfl, by simp [hlocal]⟩
  · obtain ⟨resolver', hfind⟩ := @findRemote_eq blockReplica checkReplicaInterval _ _ _ _
      hentry (hused id attr hentry).1 hholders
    rw [if_neg hlocal, hfind, ok_bind]
    by_cases hinterval : checkReplicaInterval ≤ asking.now - attr.ts
    · obtain ⟨m, hchoose⟩ := @chooseReplica_ok
        { attr with machine := holders asking.alive attr.machine, ts := asking.now } hholders
        asking.memory
      rw [if_pos hinterval]
      dsimp only
      rw [hchoose]
      exact ⟨_, _, rfl, by simp [hinterval]⟩
    · rw [if_neg hinterval]
      exact ⟨_, _, rfl, by simp [hlocal, hinterval]⟩

/-- A location comes at the time 100, and the block is loaded at the same time. -/
theorem askBlock_finds_iff_example : ∃ resolver resolver' ans,
    (system 3 0).Run [.location (.locationACK (locationData 7 [2]) 100)] resolver ∧
    resolver.askBlock 3 0 7 ⟨100, fun _ => .ack true, fun _ => .noAck, [], 100⟩ =
      .ok (resolver', some ans) := by
  have hrun : (system 3 0).Run [.location (.locationACK (locationData 7 [2]) 100)]
      ⟨1, ∅, (((∅ : Std.TreeMap BlockID TimedAttr).insert 7 ⟨⟨7, [2], .available⟩, 0⟩).insert 7
        ⟨⟨7, [2], .available⟩, 0⟩)⟩ := by
    refine ⟨⟨1, ∅, ∅⟩, rfl, .cons ⟨fun part hmem => ?_, rfl⟩ (.nil _)⟩
    rw [List.mem_singleton.mp hmem]
    decide
  obtain ⟨resolver', found, hask, hiff⟩ := @askBlock_finds_iff 3 0 _ 7 ⟨⟨7, [2], .available⟩, 0⟩
    ⟨100, fun _ => .ack true, fun _ => .noAck, [], 100⟩ _ hrun rfl ⟨0, by decide, rfl⟩
  obtain ⟨ans, rfl⟩ := Option.ne_none_iff_exists'.mp (hiff.mpr (Or.inr (by decide)))
  exact ⟨_, resolver', ans, hrun, hask⟩

/-- A block is loaded at the time 100 and, after the clock has been set back, at the time 99. -/
theorem exists_live_not_found : ∃ labels resolver attr asking resolver',
    (system 3 0).Run labels resolver ∧ resolver.remoteIDs[(7 : BlockID)]? = some attr ∧
    (∃ i < attr.machine.length, asking.alive i = .ack true) ∧
    resolver.askBlock 3 0 7 asking = .ok (resolver', none) := by
  refine ⟨[.location (.locationACK (locationData 7 [2]) 100),
      .askBlock 7 ⟨100, fun _ => .ack true, fun _ => .noAck, [], 100⟩], _,
    ⟨⟨7, [2], .available⟩, 100⟩, ⟨99, fun _ => .ack true, fun _ => .noAck, [], 99⟩, _,
    ⟨⟨1, ∅, ∅⟩, rfl, .cons ⟨fun part hmem => ?_, rfl⟩ (.cons ⟨fun part hmem => ?_, _, rfl⟩ (.nil _))⟩,
    rfl, ⟨0, by decide, rfl⟩, rfl⟩
  · rw [List.mem_singleton.mp hmem]
    decide
  · exact absurd hmem List.not_mem_nil

/-- It is found if every reading of the clock in the run was long enough before this one. -/
theorem askBlock_finds_of_clock {labels : List CacheOp}
    (hrun : (system blockReplica checkReplicaInterval).Run labels resolver)
    (hstart : checkReplicaInterval ≤ asking.now)
    (hclock : ∀ label ∈ labels, ∀ now ∈ label.readings, checkReplicaInterval ≤ asking.now - now)
    (hentry : resolver.remoteIDs[id]? = some attr)
    (hlive : ∃ i < attr.machine.length, asking.alive i = .ack true) :
    ∃ resolver' ans,
      resolver.askBlock blockReplica checkReplicaInterval id asking = .ok (resolver', some ans) := by
  -- all entries were used long enough before
  have hused : resolver.UsedUntil (asking.now - checkReplicaInterval) := by
    refine usedUntil_of_run (by omega) (fun label hlabel now hnow => ?_) hrun
    have hreading := hclock label hlabel now hnow
    omega
  have htime := (hused id attr hentry).2
  obtain ⟨resolver', found, hask, hiff⟩ := askBlock_finds_iff hrun hentry hlive
  obtain ⟨ans, rfl⟩ := Option.ne_none_iff_exists'.mp (hiff.mpr (Or.inr (by omega)))
  exact ⟨resolver', ans, hask⟩

end Found

end Resolver

end Doopey
