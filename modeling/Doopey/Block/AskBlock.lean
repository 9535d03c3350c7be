import Doopey.Block.CheckReplica
import Doopey.Foundation.FirstMax

/-!
# Where to load a block from

`askBlock` answers with one machine: this one, or one of a list that it has just checked
or that other machines have sent. Of a list it takes the machine with the most free
memory.

Other machines answer while `askRemoteBlock` waits; what the resolver does for them
meanwhile is a list of operations.
-/

namespace Doopey

open Foundation

/-- What comes of asking a machine for its free memory. -/
inductive MemAnswer
  | unreachable
  | noAck
  | ack (mem : Int)

/-- The memory that a machine reports. -/
def MemAnswer.mem : MemAnswer → Option Int
  | ack mem => some mem
  | _ => none

/-- What a resolver does for other machines and for the rest of its own, with the reading
of the clock where it is needed. -/
inductive LocationOp
  | locationACK (data : Bytes) (now : Int)
  | updateReplica (data : Bytes) (now : Int)
  | forceAddLocalID (id : BlockID)
  | removeLocalID (id : BlockID)
  | removeRemoteID (id : BlockID)

/-- What a call of `askBlock` meets: the readings of the clock, the answers of the
machines, and the operations during its wait. -/
structure Asking where
  now : Int
  alive : Nat → CheckAnswer
  memory : Nat → MemAnswer
  wait : List LocationOp
  after : Int

namespace Resolver

variable (blockReplica : UInt64)

/-- A new list with one machine; it was never used. -/
def attrOf (id : BlockID) (m : MachineID) : TimedAttr := ⟨BlockNode.attrOf blockReplica id m, 0⟩

/-- `BlockResolver::forceAddLocalID` -/
def forceAddLocalID (resolver : Resolver) (id : BlockID) : Resolver :=
  { resolver with
    localIDs := resolver.localIDs.insert id (attrOf blockReplica id resolver.machineID)
    remoteIDs := resolver.remoteIDs.erase id }

/-- `BlockResolver::removeLocalID`, but for the file. -/
def removeLocalID (resolver : Resolver) (id : BlockID) : Resolver :=
  { resolver with localIDs := resolver.localIDs.erase id }

/-- One round of `cleanCache`: the first entry is erased. -/
def eraseFirst (resolver : Resolver) : Resolver :=
  match resolver.remoteIDs.minKey? with
  | none => resolver
  | some id => resolver.removeRemoteID id

/-- `BlockResolver::cleanCache` -/
def cleanCache (resolver : Resolver) : Resolver :=
  resolver.eraseFirst.eraseFirst.eraseFirst.eraseFirst.eraseFirst

/-- `BlockResolver::forceAddRemoteID` -/
def forceAddRemoteID (resolver : Resolver) (m : MachineID) (id : BlockID) : Resolver :=
  resolver.setRemote id (attrOf blockReplica id m)

/-- Add machines to a list. -/
def addMachines (attr : TimedAttr) (machines : List MachineID) : TimedAttr :=
  { attr with toBlockLocationAttr := attr.toBlockLocationAttr.addMachines blockReplica machines }

/-- `BlockResolver::handleRequestBlockLocationACK`. The first machine is read whether or
not there is one. -/
def handleRequestBlockLocationACK (resolver : Resolver) (data : Bytes) (now : Int) :
    Except Fault Resolver :=
  if data = [] then .ok resolver
  else do
    let (id, machines) ← readLocation data
    match machines with
    | [] => .error .outOfBounds
    | m :: rest =>
        match resolver.remoteIDs[id]? with
        | some attr =>
            .ok (resolver.setRemote id (addMachines blockReplica { attr with ts := now } (m :: rest)))
        | none =>
            let resolver :=
              if remoteSizeMax ≤ resolver.remoteIDs.size then resolver.cleanCache else resolver
            let resolver := resolver.forceAddRemoteID blockReplica m id
            -- the time of a new entry is not set
            .ok (resolver.setRemote id (addMachines blockReplica (attrOf blockReplica id m) rest))

/-- The part of `handleUpdateReplica` for a block of the machine. -/
def updateLocal (resolver : Resolver) (id : BlockID) (mids : List MachineID) : Resolver :=
  match resolver.localIDs[id]? with
  | none => resolver
  | some attr => { resolver with localIDs := resolver.localIDs.insert id { attr with machine := mids } }

/-- The part of `handleUpdateReplica` for a block of another machine. -/
def updateRemote (resolver : Resolver) (id : BlockID) (mids : List MachineID) (now : Int) : Resolver :=
  match resolver.remoteIDs[id]? with
  | none => resolver
  | some attr => resolver.setRemote id { attr with machine := mids, ts := now }

/-- `BlockResolver::handleUpdateReplica` -/
def handleUpdateReplica (resolver : Resolver) (data : Bytes) (now : Int) : Except Fault Resolver := do
  let (id, mids) ← readLocation data
  .ok ((resolver.updateLocal id mids).updateRemote id mids now)

/-- Carry out an operation. -/
def perform (resolver : Resolver) : LocationOp → Except Fault Resolver
  | .locationACK data now => resolver.handleRequestBlockLocationACK blockReplica data now
  | .updateReplica data now => resolver.handleUpdateReplica data now
  | .forceAddLocalID id => .ok (resolver.forceAddLocalID blockReplica id)
  | .removeLocalID id => .ok (resolver.removeLocalID id)
  | .removeRemoteID id => .ok (resolver.removeRemoteID id)

/-- `BlockResolver::chooseReplica` -/
def chooseReplica (attr : TimedAttr) (memory : Nat → MemAnswer) : Except Fault MachineID :=
  match attr.machine[(firstMax (fun i => (memory i).mem) 0 attr.machine.length).2]? with
  | some m => .ok m
  | none => .error .outOfBounds

/-- An entry is used at this time. -/
def touch (resolver : Resolver) (id : BlockID) (now : Int) : Resolver × Option TimedAttr :=
  match resolver.remoteIDs[id]? with
  | none => (resolver, none)
  | some attr => (resolver.setRemote id { attr with ts := now }, some { attr with ts := now })

/-- `BlockResolver::askRemoteBlock` -/
def askRemoteBlock (resolver : Resolver) (id : BlockID) (asking : Asking) :
    Except Fault (Resolver × Option TimedAttr) := do
  let resolver ← asking.wait.foldlM (perform blockReplica) resolver
  .ok (resolver.touch id asking.after)

/-- The part of `askBlock` for a block of another machine: the entry that is used. -/
def findRemote (checkReplicaInterval : Int) (resolver : Resolver) (id : BlockID) (asking : Asking) :
    Except Fault (Resolver × Option TimedAttr) :=
  match resolver.remoteIDs[id]? with
  | some attr =>
      if checkReplicaInterval ≤ asking.now - attr.ts then do
        let (resolver, succ, _) ← resolver.checkReplica blockReplica id asking.alive
        if succ then .ok (resolver.touch id asking.now)
        else resolver.askRemoteBlock blockReplica id asking
      -- before that the entry is not used, and nobody else is asked
      else .ok (resolver, none)
  | none => resolver.askRemoteBlock blockReplica id asking

/-- `BlockResolver::askBlock` -/
def askBlock (checkReplicaInterval : Int) (resolver : Resolver) (id : BlockID) (asking : Asking) :
    Except Fault (Resolver × Option BlockLocationAttr) :=
  if id ∈ resolver.localIDs then
    .ok (resolver, some (BlockNode.attrOf blockReplica id resolver.machineID))
  else do
    let (resolver, tmp) ← resolver.findRemote blockReplica checkReplicaInterval id asking
    match tmp with
    | none => .ok (resolver, none)
    | some attr => do
        let mid ← chooseReplica attr asking.memory
        .ok (resolver, some (BlockNode.attrOf blockReplica id mid))

end Resolver

/-- The operation enters a machine for a block. -/
def LocationOp.Brings (id : BlockID) (m : MachineID) : LocationOp → Prop
  | locationACK data _ | updateReplica data _ =>
      ∃ machines, readLocation data = .ok (id, machines) ∧ m ∈ machines
  | _ => False

namespace Resolver

variable {blockReplica : UInt64} {resolver resolver' : Resolver} {id : BlockID} {m : MachineID}

/-- A machine is listed for a block in the cache. -/
def Knows (resolver : Resolver) (id : BlockID) (m : MachineID) : Prop :=
  ∃ attr, resolver.remoteIDs[id]? = some attr ∧ m ∈ attr.machine

theorem knows_setRemote {key : BlockID} {attr : TimedAttr}
    (h : (resolver.setRemote key attr).Knows id m) :
    id = key ∧ m ∈ attr.machine ∨ resolver.Knows id m := by
  obtain ⟨attr', hget, hmem⟩ := h
  rw [setRemote, getElem?_insert_block] at hget
  split at hget
  next heq =>
    rw [← Option.some.inj hget] at hmem
    exact Or.inl ⟨heq, hmem⟩
  next => exact Or.inr ⟨attr', hget, hmem⟩

theorem knows_removeRemoteID {other : BlockID} (h : (resolver.removeRemoteID other).Knows id m) :
    resolver.Knows id m := by
  obtain ⟨attr, hget, hmem⟩ := h
  rw [removeRemoteID, getElem?_erase_block] at hget
  split at hget
  next => exact absurd hget (by simp)
  next => exact ⟨attr, hget, hmem⟩

theorem knows_cleanCache (h : resolver.cleanCache.Knows id m) : resolver.Knows id m := by
  have hround {resolver : Resolver} (h : resolver.eraseFirst.Knows id m) : resolver.Knows id m := by
    unfold eraseFirst at h
    split at h
    next => exact h
    next => exact knows_removeRemoteID h
  exact hround (hround (hround (hround (hround h))))

/-- What a location does that comes in: nothing, or the machines are added to an entry that
is old or made for them, after some entries may have been erased. -/
theorem locationACK_cases {data : Bytes} {now : Int}
    (hrun : resolver.handleRequestBlockLocationACK blockReplica data now = .ok resolver') :
    data = [] ∧ resolver' = resolver ∨
      ∃ other first rest, readLocation data = .ok (other, first :: rest) ∧
        ((∃ attr, resolver.remoteIDs[other]? = some attr ∧ resolver' = resolver.setRemote other
            (addMachines blockReplica { attr with ts := now } (first :: rest))) ∨
          ∃ cleaned, (cleaned = resolver ∨ cleaned = resolver.cleanCache) ∧
            resolver' = (cleaned.forceAddRemoteID blockReplica first other).setRemote other
              (addMachines blockReplica (attrOf blockReplica other first) rest)) := by
  unfold handleRequestBlockLocationACK at hrun
  split at hrun
  next hempty => exact Or.inl ⟨hempty, (Except.ok.inj hrun).symm⟩
  obtain ⟨⟨other, machines⟩, hread, hrun⟩ := bind_eq_ok_iff.mp hrun
  dsimp only at hrun
  split at hrun
  next => exact absurd hrun (by simp)
  next first rest =>
    refine Or.inr ⟨other, first, rest, hread, ?_⟩
    split at hrun
    next attr hget => exact Or.inl ⟨attr, hget, (Except.ok.inj hrun).symm⟩
    next =>
      refine Or.inr ⟨_, ?_, (Except.ok.inj hrun).symm⟩
      split
      next => exact Or.inr rfl
      next => exact Or.inl rfl

theorem knows_locationACK {data : Bytes} {now : Int}
    (hrun : resolver.handleRequestBlockLocationACK blockReplica data now = .ok resolver')
    (h : resolver'.Knows id m) :
    resolver.Knows id m ∨ (LocationOp.locationACK data now).Brings id m := by
  rcases locationACK_cases hrun with ⟨-, rfl⟩ | ⟨other, first, rest, hread, hcases⟩
  · exact Or.inl h
  have hbrings {m : MachineID} (hmem : m ∈ first :: rest) :
      (LocationOp.locationACK data now).Brings other m := ⟨_, hread, hmem⟩
  rcases hcases with ⟨attr, hget, rfl⟩ | ⟨cleaned, hcleaned, rfl⟩
  · rcases knows_setRemote h with ⟨rfl, hmem⟩ | hold
    · exact (BlockLocationAttr.mem_addMachines hmem).imp (fun hold => ⟨attr, hget, hold⟩) hbrings
    · exact Or.inl hold
  · have hfirst (hmem : m ∈ (attrOf blockReplica other first).machine) : m ∈ first :: rest := by
      rw [(BlockLocationAttr.mem_addMachine hmem).resolve_left List.not_mem_nil]
      exact List.mem_cons_self
    rcases knows_setRemote h with ⟨rfl, hmem⟩ | hold
    · rcases BlockLocationAttr.mem_addMachines hmem with hmem | hnew
      · exact Or.inr (hbrings (hfirst hmem))
      · exact Or.inr (hbrings (List.mem_cons_of_mem _ hnew))
    · rcases knows_setRemote hold with ⟨rfl, hmem⟩ | hold
      · exact Or.inr (hbrings (hfirst hmem))
      · rcases hcleaned with rfl | rfl
        · exact Or.inl hold
        · exact Or.inl (knows_cleanCache hold)

theorem remoteIDs_updateLocal (other : BlockID) (mids : List MachineID) :
    (resolver.updateLocal other mids).remoteIDs = resolver.remoteIDs := by
  unfold updateLocal
  split <;> rfl

theorem knows_updateReplica {data : Bytes} {now : Int}
    (hrun : resolver.handleUpdateReplica data now = .ok resolver') (h : resolver'.Knows id m) :
    resolver.Knows id m ∨ (LocationOp.updateReplica data now).Brings id m := by
  obtain ⟨⟨other, mids⟩, hread, hrun⟩ := bind_eq_ok_iff.mp hrun
  obtain rfl := Except.ok.inj hrun
  have hkeep (hold : (resolver.updateLocal other mids).Knows id m) : resolver.Knows id m := by
    obtain ⟨attr, hget, hmem⟩ := hold
    exact ⟨attr, remoteIDs_updateLocal other mids ▸ hget, hmem⟩
  -- only an entry that there is already is changed
  unfold updateRemote at h
  split at h
  next => exact Or.inl (hkeep h)
  next =>
    rcases knows_setRemote h with ⟨rfl, hmem⟩ | hold
    · exact Or.inr ⟨mids, hread, hmem⟩
    · exact Or.inl (hkeep hold)

/-- An operation enters no other machines than those it brings. -/
theorem knows_perform {op : LocationOp} (hrun : resolver.perform blockReplica op = .ok resolver')
    (h : resolver'.Knows id m) : resolver.Knows id m ∨ op.Brings id m := by
  cases op with
  | locationACK data now => exact knows_locationACK hrun h
  | updateReplica data now => exact knows_updateReplica hrun h
  | forceAddLocalID other =>
      obtain rfl := Except.ok.inj hrun
      exact Or.inl (@knows_removeRemoteID resolver id m other h)
  | removeLocalID other =>
      obtain rfl := Except.ok.inj hrun
      exact Or.inl h
  | removeRemoteID other =>
      obtain rfl := Except.ok.inj hrun
      exact Or.inl (knows_removeRemoteID h)

/-- A block that was not in the cache has only machines that the operations brought. -/
theorem brings_of_knows {ops : List LocationOp}
    (hrun : ops.foldlM (perform blockReplica) resolver = .ok resolver')
    (h : resolver'.Knows id m) : resolver.Knows id m ∨ ∃ op ∈ ops, op.Brings id m := by
  induction ops generalizing resolver with
  | nil =>
      obtain rfl := Except.ok.inj hrun
      exact Or.inl h
  | cons op ops ih =>
      rw [List.foldlM_cons] at hrun
      obtain ⟨middle, hop, hrest⟩ := bind_eq_ok_iff.mp hrun
      rcases ih hrest with hmiddle | ⟨other, hmem, hbrings⟩
      · rcases knows_perform hop hmiddle with hold | hbrings
        · exact Or.inl hold
        · exact Or.inr ⟨op, List.mem_cons_self, hbrings⟩
      · exact Or.inr ⟨other, List.mem_cons_of_mem _ hmem, hbrings⟩

/-- The entry that a call uses: that of a remote query, or one that was checked after the
interval was over; before that none is used. -/
theorem findRemote_cases {checkReplicaInterval : Int} {asking : Asking} {found : Option TimedAttr}
    (hrun : resolver.findRemote blockReplica checkReplicaInterval id asking =
      .ok (resolver', found)) :
    resolver.remoteIDs[id]? = none ∧
        resolver.askRemoteBlock blockReplica id asking = .ok (resolver', found) ∨
      ∃ entry, resolver.remoteIDs[id]? = some entry ∧
        (resolver' = resolver ∧ found = none ∨
          ∃ checked succ sent,
            resolver.checkReplica blockReplica id asking.alive = .ok (checked, succ, sent) ∧
            (succ = true ∧ checked.touch id asking.now = (resolver', found) ∨
              succ = false ∧
                checked.askRemoteBlock blockReplica id asking = .ok (resolver', found))) := by
  unfold findRemote at hrun
  split at hrun
  next entry hentry =>
    refine Or.inr ⟨entry, hentry, ?_⟩
    split at hrun
    next =>
      obtain ⟨⟨checked, succ, sent⟩, hcheck, hrun⟩ := bind_eq_ok_iff.mp hrun
      refine Or.inr ⟨checked, succ, sent, hcheck, ?_⟩
      dsimp only at hrun
      split at hrun
      next hsucc => exact Or.inl ⟨hsucc, Except.ok.inj hrun⟩
      next hsucc => exact Or.inr ⟨Bool.eq_false_of_not_eq_true hsucc, hrun⟩
    next =>
      obtain ⟨rfl, rfl⟩ := Prod.mk.inj (Except.ok.inj hrun)
      exact Or.inl ⟨rfl, rfl⟩
  next hnone => exact Or.inl ⟨hnone, hrun⟩

/-- What a call returns: this machine, none, or one that is chosen from an entry. -/
theorem askBlock_cases {checkReplicaInterval : Int} {asking : Asking}
    {found : Option BlockLocationAttr}
    (hrun : resolver.askBlock blockReplica checkReplicaInterval id asking =
      .ok (resolver', found)) :
    id ∈ resolver.localIDs ∧ resolver' = resolver ∧
        found = some (BlockNode.attrOf blockReplica id resolver.machineID) ∨
      id ∉ resolver.localIDs ∧ ∃ tmp,
        resolver.findRemote blockReplica checkReplicaInterval id asking = .ok (resolver', tmp) ∧
        (tmp = none ∧ found = none ∨
          ∃ attr mid, tmp = some attr ∧ chooseReplica attr asking.memory = .ok mid ∧
            found = some (BlockNode.attrOf blockReplica id mid)) := by
  unfold askBlock at hrun
  split at hrun
  next hlocal =>
    obtain ⟨rfl, rfl⟩ := Prod.mk.inj (Except.ok.inj hrun)
    exact Or.inl ⟨hlocal, rfl, rfl⟩
  next hlocal =>
    obtain ⟨⟨asked, tmp⟩, htmp, hrun⟩ := bind_eq_ok_iff.mp hrun
    refine Or.inr ⟨hlocal, ?_⟩
    dsimp only at hrun
    split at hrun
    next =>
      obtain ⟨rfl, rfl⟩ := Prod.mk.inj (Except.ok.inj hrun)
      exact ⟨none, htmp, Or.inl ⟨rfl, rfl⟩⟩
    next attr =>
      obtain ⟨mid, hchoose, hpure⟩ := bind_eq_ok_iff.mp hrun
      obtain ⟨rfl, rfl⟩ := Prod.mk.inj (Except.ok.inj hpure)
      exact ⟨some attr, htmp, Or.inr ⟨attr, mid, rfl, hchoose, rfl⟩⟩

/-- The machine with the most free memory, as far as the machines report any, and the
first one of these; otherwise the first of all. -/
def Picked (memory : Nat → MemAnswer) (machines : List MachineID) (m : MachineID) : Prop :=
  ∃ place, machines[place]? = some m ∧
    (Offered (fun i => (memory i).mem) 0 machines.length →
      ∃ value, 0 < value ∧ IsFirstMax (fun i => (memory i).mem) machines.length place value) ∧
    (¬ Offered (fun i => (memory i).mem) 0 machines.length → place = 0)

theorem picked_of_chooseReplica {attr : TimedAttr} {memory : Nat → MemAnswer}
    (hrun : chooseReplica attr memory = .ok m) : Picked memory attr.machine m := by
  unfold chooseReplica at hrun
  split at hrun
  next other hget =>
    obtain rfl := Except.ok.inj hrun
    exact ⟨_, hget, firstMax_eq _⟩
  next => exact absurd hrun (by simp)

/-- The list is what is left of the entry in the cache. -/
def Confirmed (resolver : Resolver) (id : BlockID) (asking : Asking) (machines : List MachineID) :
    Prop :=
  ∃ attr, resolver.remoteIDs[id]? = some attr ∧ machines = holders asking.alive attr.machine

/-- No machine of an entry is left, or there is none; those of the list were received
during the wait. -/
def Received (resolver : Resolver) (id : BlockID) (asking : Asking) (machines : List MachineID) :
    Prop :=
  (∀ attr, resolver.remoteIDs[id]? = some attr → holders asking.alive attr.machine = []) ∧
    ∀ m ∈ machines, ∃ op ∈ asking.wait, op.Brings id m

/-- What `askRemoteBlock` returns has only machines that were received, if none was known. -/
theorem received_of_askRemoteBlock {asking : Asking} {attr : TimedAttr}
    (hrun : resolver.askRemoteBlock blockReplica id asking = .ok (resolver', some attr))
    (hnone : ∀ m, ¬ resolver.Knows id m) :
    ∀ m ∈ attr.machine, ∃ op ∈ asking.wait, op.Brings id m := by
  obtain ⟨waited, hwait, hrun⟩ := bind_eq_ok_iff.mp hrun
  have htouch := Except.ok.inj hrun
  unfold touch at htouch
  intro m hmem
  split at htouch
  next => exact absurd (Prod.mk.inj htouch).2 (by simp)
  next attr' hget =>
    rw [← Option.some.inj (Prod.mk.inj htouch).2] at hmem
    exact (brings_of_knows hwait ⟨attr', hget, hmem⟩).resolve_left (hnone m)

/-- Where the machines of the entry stem from that `askBlock` uses. -/
theorem confirmed_or_received {checkReplicaInterval : Int} {asking : Asking} {attr : TimedAttr}
    (hsize : ∀ attr, resolver.remoteIDs[id]? = some attr → attr.machine.length < 2 ^ 64)
    (hrun : resolver.findRemote blockReplica checkReplicaInterval id asking =
      .ok (resolver', some attr)) :
    resolver.Confirmed id asking attr.machine ∨ resolver.Received id asking attr.machine := by
  rcases findRemote_cases hrun with ⟨hnone, hask⟩ | ⟨entry, hentry, ⟨-, hfound⟩ | hchecked⟩
  · refine Or.inr ⟨fun entry hentry => ?_, received_of_askRemoteBlock hask fun m hknows => ?_⟩
    · exact absurd (hnone.symm.trans hentry) (by simp)
    · obtain ⟨entry, hentry, -⟩ := hknows
      exact absurd (hnone.symm.trans hentry) (by simp)
  · exact absurd hfound (by simp)
  obtain ⟨checked, succ, sent, hcheck, hcases⟩ := hchecked
  rw [checkReplica_eq hentry (hsize entry hentry)] at hcheck
  cases hleft : holders asking.alive entry.machine with
  | nil =>
      rw [hleft] at hcheck
      obtain ⟨rfl, hsucc⟩ := Prod.mk.inj (Except.ok.inj hcheck)
      obtain ⟨rfl, -⟩ := Prod.mk.inj hsucc
      -- no machine is left, so the others are asked
      obtain ⟨-, hask⟩ := hcases.resolve_left fun h => absurd h.1 (by simp)
      refine Or.inr ⟨fun entry' hentry' => ?_, received_of_askRemoteBlock hask fun m hknows => ?_⟩
      · rwa [← Option.some.inj (hentry.symm.trans hentry')]
      · -- nothing is left under the key of the entry
        obtain ⟨entry', hget, hmem⟩ := hknows
        rw [removeRemoteID, setRemote, getElem?_erase_block] at hget
        split at hget
        next => exact absurd hget (by simp)
        next =>
          rw [getElem?_insert_block, if_pos rfl] at hget
          rw [← Option.some.inj hget] at hmem
          exact absurd hmem List.not_mem_nil
  | cons first rest =>
      rw [hleft] at hcheck
      obtain ⟨rfl, hsucc⟩ := Prod.mk.inj (Except.ok.inj hcheck)
      obtain ⟨rfl, -⟩ := Prod.mk.inj hsucc
      -- the entry is used as it was left
      obtain ⟨-, htouch⟩ := hcases.resolve_right fun h => absurd h.1 (by simp)
      rw [touch, setRemote, getElem?_insert_block, if_pos rfl] at htouch
      refine Or.inl ⟨entry, hentry, ?_⟩
      rw [hleft, ← Option.some.inj (Prod.mk.inj htouch).2]

/-- A location that `askBlock` returns has one machine: this one for a block of its own, and
otherwise the best of a list that was confirmed in this call or received during it. -/
theorem askBlock_picks {checkReplicaInterval : Int} {asking : Asking} {ans : BlockLocationAttr}
    (hreplica : 1 ≤ blockReplica)
    (hsize : ∀ attr, resolver.remoteIDs[id]? = some attr → attr.machine.length < 2 ^ 64)
    (hrun : resolver.askBlock blockReplica checkReplicaInterval id asking =
      .ok (resolver', some ans)) :
    ∃ m, ans.block = id ∧ ans.machine = [m] ∧
      (id ∈ resolver.localIDs ∧ m = resolver.machineID ∨
        id ∉ resolver.localIDs ∧ ∃ machines, Picked asking.memory machines m ∧
          (resolver.Confirmed id asking machines ∨ resolver.Received id asking machines)) := by
  rcases askBlock_cases hrun with ⟨hlocal, -, hans⟩ | ⟨hlocal, tmp, htmp, hcases⟩
  · rw [Option.some.inj hans]
    exact ⟨resolver.machineID, BlockLocationAttr.block_addMachine _ _,
      BlockNode.machine_attrOf hreplica _ _, Or.inl ⟨hlocal, rfl⟩⟩
  · rcases hcases with ⟨-, hnone⟩ | ⟨attr, mid, rfl, hchoose, hans⟩
    · exact absurd hnone (by simp)
    · rw [Option.some.inj hans]
      exact ⟨mid, BlockLocationAttr.block_addMachine _ _, BlockNode.machine_attrOf hreplica _ _,
        Or.inr ⟨hlocal, attr.machine, picked_of_chooseReplica hchoose,
          confirmed_or_received hsize htmp⟩⟩

/-- One of three machines is lost, and the first of the other two has more memory than the
second one. -/
theorem askBlock_picks_example :
    ∃ resolver' ans, Resolver.askBlock 3 0
        ⟨1, ∅, (∅ : Std.TreeMap BlockID TimedAttr).insert 7 ⟨⟨7, [2, 3, 4], .available⟩, 5⟩⟩ 7
        ⟨10, fun i => if i = 0 then .unreachable else .ack true,
          fun i => if i = 0 then .ack 6 else .ack 4, [], 12⟩ = .ok (resolver', some ans) ∧
      ans.block = 7 ∧ ans.machine = [3] := by
  have hsize (attr : TimedAttr)
      (hget : ((∅ : Std.TreeMap BlockID TimedAttr).insert 7
        ⟨⟨7, [2, 3, 4], .available⟩, 5⟩)[(7 : BlockID)]? = some attr) :
      attr.machine.length < 2 ^ 64 := by
    rw [getElem?_insert_block, if_pos rfl] at hget
    rw [← Option.some.inj hget]
    decide
  refine ⟨_, _, rfl, ?_⟩
  obtain ⟨m, hblock, -⟩ := @askBlock_picks 3
    ⟨1, ∅, (∅ : Std.TreeMap BlockID TimedAttr).insert 7 ⟨⟨7, [2, 3, 4], .available⟩, 5⟩⟩ _ 7 0
    ⟨10, fun i => if i = 0 then .unreachable else .ack true,
      fun i => if i = 0 then .ack 6 else .ack 4, [], 12⟩ _ (by decide) hsize rfl
  exact ⟨hblock, rfl⟩

end Resolver

end Doopey
