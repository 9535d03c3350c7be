import Mathlib.Data.List.InsertIdx
import Mathlib.Data.UInt
import Doopey.Block.BlockNode
import Doopey.Foundation.Erasing

/-!
# The alive check of a location list

`checkReplica` asks the machines of a list, from the last one to the first one, and
erases those that do not answer that they have the block. Its counter is unsigned:
behind the first machine it wraps around and ends the loop.
-/

namespace Doopey

open Foundation

/-- What comes of asking a machine whether it has a block. -/
inductive CheckAnswer
  /-- `sendTo` returns no socket. -/
  | unreachable
  /-- No message comes back. -/
  | noAck
  | ack (alive : Bool)
  deriving DecidableEq

/-- The machine is not erased. -/
def CheckAnswer.alive : CheckAnswer → Bool
  | ack alive => alive
  | _ => false

/-- `class BlockLocationAttr` with the time of its last use. -/
structure TimedAttr extends BlockLocationAttr where
  ts : Int

/-- What a resolver sends to other machines. -/
inductive ResolverMessage
  | checkBlockAlive (id : BlockID)
  | doReplica (data : Bytes)
  deriving DecidableEq

/-- The part of `class BlockResolver` that answers where a block is. The maps own their
lists. -/
structure Resolver where
  machineID : MachineID
  localIDs : Std.TreeMap BlockID TimedAttr
  remoteIDs : Std.TreeMap BlockID TimedAttr

namespace Resolver

/-- `BlockResolver::handleCheckBlockAlive` -/
def handleCheckBlockAlive (resolver : Resolver) (id : BlockID) : CheckAnswer :=
  .ack (resolver.localIDs.contains id)

/-- The loop of `checkReplica`. `answer` tells what comes of asking the machine at a
place. The result has the list that is left, whether a replica is requested, and the
machines that were asked. -/
def checkLoop (answer : Nat → CheckAnswer) :
    Nat → UInt64 → List MachineID → Bool → Except Fault (List MachineID × Bool × List MachineID)
  | 0, _, _, _ => .error .divergence
  | fuel + 1, i, machine, requestReplica =>
      if 0 ≤ i ∧ i < .ofNat machine.length then
        match machine[i.toNat]? with
        | none => .error .outOfBounds
        | some m => do
            -- `erase` moves up the machines behind `i`, which were asked already
            let succ := (answer i.toNat).alive
            let (machine, requestReplica, asked) ← checkLoop answer fuel (i - 1)
              (if succ then machine else machine.eraseIdx i.toNat) (if succ then requestReplica else true)
            .ok (machine, requestReplica, m :: asked)
      else .ok (machine, requestReplica, [])

/-- Change an entry in its place. -/
def setRemote (resolver : Resolver) (key : BlockID) (attr : TimedAttr) : Resolver :=
  { resolver with remoteIDs := resolver.remoteIDs.insert key attr }

/-- `BlockResolver::removeRemoteID` -/
def removeRemoteID (resolver : Resolver) (id : BlockID) : Resolver :=
  { resolver with remoteIDs := resolver.remoteIDs.erase id }

/-- `BlockResolver::checkReplica` of the entry under a key: what it returns and what it
sends. -/
def checkReplica (blockReplica : UInt64) (resolver : Resolver) (key : BlockID)
    (answer : Nat → CheckAnswer) :
    Except Fault (Resolver × Bool × List (MachineID × ResolverMessage)) :=
  match resolver.remoteIDs[key]? with
  | none => .error .badPointer
  | some attr => do
      let requestReplica := decide (.ofNat attr.machine.length < blockReplica)
      let (machine, requestReplica, asked) ←
        checkLoop answer (attr.machine.length + 1) (.ofNat attr.machine.length - 1) attr.machine
          requestReplica
      let resolver := resolver.setRemote key { attr with machine := machine }
      let sent := asked.map fun m => (m, ResolverMessage.checkBlockAlive attr.block)
      -- the first machine that is left has the block and makes the copies
      match machine with
      | [] => .ok (resolver.removeRemoteID attr.block, false, sent)
      | first :: rest =>
          .ok (resolver, true, sent ++ if requestReplica then
            [(first, .doReplica (locationData attr.block (first :: rest)))] else [])

theorem getElem?_insert_block (map : Std.TreeMap BlockID TimedAttr) (id id' : BlockID)
    (attr : TimedAttr) : (map.insert id attr)[id']? = if id' = id then some attr else map[id']? := by
  rw [Std.TreeMap.getElem?_insert]
  simp only [Std.LawfulEqCmp.compare_eq_iff_eq, @eq_comm _ id' id]

theorem getElem?_erase_block (map : Std.TreeMap BlockID TimedAttr) (id id' : BlockID) :
    (map.erase id)[id']? = if id' = id then none else map[id']? := by
  rw [Std.TreeMap.getElem?_erase]
  simp only [Std.LawfulEqCmp.compare_eq_iff_eq, @eq_comm _ id' id]

/-! ## What is left of the list -/

/-- The machines of a list that answered that they have the block. -/
def holders (answer : Nat → CheckAnswer) (machine : List MachineID) : List MachineID :=
  keptAt (fun i => (answer i).alive) machine

section Loop

variable {answer : Nat → CheckAnswer}

/-- With `n` machines before it the loop asks these from the last to the first, and then
the counter is larger than any list. -/
theorem checkLoop_eq {n fuel : Nat} {machine : List MachineID} (hn : n ≤ machine.length)
    (hsize : machine.length < 2 ^ 64) (hfuel : n < fuel) (requestReplica : Bool) :
    checkLoop answer fuel (.ofNat n - 1) machine requestReplica =
      .ok (eraseDown (fun i => (answer i).alive) n machine,
        requestReplica || !(List.range n).all fun i => (answer i).alive,
        (machine.take n).reverse) := by
  induction n generalizing fuel machine requestReplica with
  | zero =>
      obtain ⟨fuel, rfl⟩ := Nat.exists_eq_succ_of_ne_zero (Nat.ne_of_gt hfuel)
      -- behind the first machine the counter is the largest number
      have hout : ¬ (0 ≤ UInt64.ofNat 0 - 1 ∧ UInt64.ofNat 0 - 1 < .ofNat machine.length) := by
        rintro ⟨-, hlt⟩
        rw [UInt64.lt_iff_toNat_lt, UInt64.toNat_ofNat', Nat.mod_eq_of_lt hsize] at hlt
        have hmax : (UInt64.ofNat 0 - 1).toNat = 2 ^ 64 - 1 := by decide
        omega
      rw [checkLoop, if_neg hout]
      simp [eraseDown]
  | succ n ih =>
      obtain ⟨fuel, rfl⟩ := Nat.exists_eq_succ_of_ne_zero (Nat.ne_of_gt (Nat.lt_of_le_of_lt
        (Nat.zero_le _) hfuel))
      have hcounter : UInt64.ofNat (n + 1) - 1 = .ofNat n := by
        rw [UInt64.ofNat_add]
        exact UInt64.add_sub_cancel _ _
      have htoNat : (UInt64.ofNat n).toNat = n := by
        rw [UInt64.toNat_ofNat', Nat.mod_eq_of_lt (by omega)]
      have hin : 0 ≤ UInt64.ofNat n ∧ UInt64.ofNat n < .ofNat machine.length := by
        refine ⟨UInt64.zero_le, ?_⟩
        rw [UInt64.lt_iff_toNat_lt, htoNat, UInt64.toNat_ofNat', Nat.mod_eq_of_lt hsize]
        omega
      have hlast : (machine.take (n + 1)).reverse = machine[n] :: (machine.take n).reverse := by
        rw [List.take_succ_eq_append_getElem hn, List.reverse_append]
        rfl
      rw [hcounter, checkLoop, if_pos hin, htoNat, List.getElem?_eq_getElem hn]
      dsimp only
      cases halive : (answer n).alive with
      | true =>
          rw [if_pos rfl, if_pos rfl, ih (by omega) hsize (by omega), ok_bind, hlast, eraseDown,
            halive, if_pos rfl, List.range_succ, List.all_append]
          simp [halive]
      | false =>
          -- the machines in front of `n` stay in their places
          have herase : (machine.eraseIdx n).length = machine.length - 1 :=
            List.length_eraseIdx_of_lt hn
          rw [if_neg (by simp), if_neg (by simp), ih (by omega) (by omega) (by omega), ok_bind, hlast,
            eraseDown, halive, if_neg (by simp), List.take_eraseIdx_eq_take_of_le _ _ _ (Nat.le_refl n),
            List.range_succ, List.all_append]
          simp [halive]

end Loop

section Check

variable {blockReplica : UInt64} {resolver : Resolver} {key : BlockID} {attr : TimedAttr}

/-- Another copy is requested: there are too few machines, or one is lost. -/
def Requests (blockReplica : UInt64) (answer : Nat → CheckAnswer) (machine : List MachineID) : Prop :=
  machine.length < blockReplica.toNat ∨ ∃ i < machine.length, (answer i).alive = false

instance (blockReplica : UInt64) (answer : Nat → CheckAnswer) (machine : List MachineID) :
    Decidable (Requests blockReplica answer machine) := inferInstanceAs (Decidable (_ ∨ _))

/-- What `checkReplica` does with an entry. -/
theorem checkReplica_eq (hentry : resolver.remoteIDs[key]? = some attr)
    (hsize : attr.machine.length < 2 ^ 64) (answer : Nat → CheckAnswer) :
    resolver.checkReplica blockReplica key answer =
      match holders answer attr.machine with
      | [] => .ok ((resolver.setRemote key { attr with machine := [] }).removeRemoteID attr.block,
          false, attr.machine.reverse.map fun m => (m, .checkBlockAlive attr.block))
      | first :: rest => .ok (resolver.setRemote key { attr with machine := first :: rest }, true,
          (attr.machine.reverse.map fun m => (m, .checkBlockAlive attr.block)) ++
            if Requests blockReplica answer attr.machine then
              [(first, .doReplica (locationData attr.block (first :: rest)))] else []) := by
  -- the flag is set before the loop, or by a machine that is lost
  have hrequest : (decide (UInt64.ofNat attr.machine.length < blockReplica) ||
      !(List.range attr.machine.length).all fun i => (answer i).alive) =
        decide (Requests blockReplica answer attr.machine) := by
    have hlt : UInt64.ofNat attr.machine.length < blockReplica ↔
        attr.machine.length < blockReplica.toNat := by
      rw [UInt64.lt_iff_toNat_lt, UInt64.toNat_ofNat', Nat.mod_eq_of_lt hsize]
    rw [Bool.eq_iff_iff, Bool.or_eq_true, decide_eq_true_iff, decide_eq_true_iff, hlt, Requests]
    simp
  rw [checkReplica, hentry]
  dsimp only
  rw [checkLoop_eq (Nat.le_refl _) hsize (Nat.lt_succ_self _), ok_bind, eraseDown_length,
    List.take_length, hrequest]
  dsimp only
  rw [holders]
  cases keptAt (fun i => (answer i).alive) attr.machine with
  | nil => rfl
  | cons first rest => simp

/-- The alive check keeps the machines that answer that they have the block. Without any
the entry is removed; otherwise the first one is asked for another copy exactly if there
were too few machines or one was lost. -/
theorem checkReplica_keeps_holders (hcached : resolver.remoteIDs[attr.block]? = some attr)
    (hsize : attr.machine.length < 2 ^ 64) (answer : Nat → CheckAnswer) :
    ∃ resolver' result requests, resolver.checkReplica blockReplica attr.block answer =
        .ok (resolver', result,
          (attr.machine.reverse.map fun m => (m, .checkBlockAlive attr.block)) ++ requests) ∧
      (∀ id, id ≠ attr.block → resolver'.remoteIDs[id]? = resolver.remoteIDs[id]?) ∧
      (holders answer attr.machine = [] →
        resolver'.remoteIDs[attr.block]? = none ∧ result = false ∧ requests = []) ∧
      ∀ first rest, holders answer attr.machine = first :: rest →
        resolver'.remoteIDs[attr.block]? = some { attr with machine := first :: rest } ∧
          result = true ∧
          requests = if attr.machine.length < blockReplica.toNat ∨
              ∃ i < attr.machine.length, (answer i).alive = false then
            [(first, .doReplica (locationData attr.block (first :: rest)))] else [] := by
  rw [checkReplica_eq hcached hsize]
  cases holders answer attr.machine with
  | nil =>
      refine ⟨_, false, [], by rw [List.append_nil], fun id hne => ?_, fun _ => ⟨?_, rfl, rfl⟩,
        by simp⟩
      · rw [removeRemoteID, setRemote, getElem?_erase_block, if_neg hne, getElem?_insert_block,
          if_neg hne]
      · rw [removeRemoteID, getElem?_erase_block, if_pos rfl]
  | cons first rest =>
      refine ⟨_, true, _, rfl, fun id hne => ?_, by simp, ?_⟩
      · rw [setRemote, getElem?_insert_block, if_neg hne]
      · rintro first' rest' hleft
        obtain ⟨rfl, rfl⟩ := List.cons.inj hleft
        exact ⟨by rw [setRemote, getElem?_insert_block, if_pos rfl], rfl, rfl⟩

/-- Three of four machines are lost: one does not answer, one cannot be reached, and one
has no such block. -/
theorem checkReplica_keeps_holders_example :
    ∃ resolver' result requests, Resolver.checkReplica 2
        ⟨1, ∅, (∅ : Std.TreeMap BlockID TimedAttr).insert 7 ⟨⟨7, [2, 3, 4, 5], .available⟩, 0⟩⟩ 7
        (fun i => if i = 0 then .unreachable else if i = 1 then .noAck else .ack (i == 2)) =
          .ok (resolver', result, [(5, .checkBlockAlive 7), (4, .checkBlockAlive 7),
            (3, .checkBlockAlive 7), (2, .checkBlockAlive 7)] ++ requests) ∧
      resolver'.remoteIDs[(7 : BlockID)]? = some ⟨⟨7, [4], .available⟩, 0⟩ ∧ result = true ∧
      requests = [(4, .doReplica (locationData 7 [4]))] := by
  obtain ⟨resolver', result, requests, hrun, -, -, hleft⟩ :=
    @checkReplica_keeps_holders 2
      ⟨1, ∅, (∅ : Std.TreeMap BlockID TimedAttr).insert 7 ⟨⟨7, [2, 3, 4, 5], .available⟩, 0⟩⟩
      ⟨⟨7, [2, 3, 4, 5], .available⟩, 0⟩ (by rw [getElem?_insert_block]; rfl) (by decide)
      (fun i => if i = 0 then .unreachable else if i = 1 then .noAck else .ack (i == 2))
  exact ⟨resolver', result, requests, hrun, hleft 4 [] (by decide)⟩

end Check

/-! ## The check by machines -/

section Alive

variable {blockReplica : UInt64} {machine : List MachineID} {answer : Nat → CheckAnswer}
  {alive : MachineID → Bool}

/-- Answers that depend on the machine only. -/
theorem holders_eq_filter (halive : ∀ i m, machine[i]? = some m → (answer i).alive = alive m) :
    holders answer machine = machine.filter alive := keptAt_eq_filter halive

theorem requests_iff (halive : ∀ i m, machine[i]? = some m → (answer i).alive = alive m) :
    Requests blockReplica answer machine ↔
      (decide (machine.length < blockReplica.toNat) || !machine.all alive) = true := by
  rw [Bool.or_eq_true, decide_eq_true_iff, Bool.not_eq_true', List.all_eq_false, Requests]
  constructor
  · rintro (hfew | ⟨i, hi, hlost⟩)
    · exact Or.inl hfew
    · refine Or.inr ⟨machine[i], List.getElem_mem hi, ?_⟩
      rw [← halive i _ (List.getElem?_eq_getElem hi), hlost]
      simp
  · rintro (hfew | ⟨m, hmem, hlost⟩)
    · exact Or.inl hfew
    · obtain ⟨i, hi, rfl⟩ := List.getElem_of_mem hmem
      refine Or.inr ⟨i, hi, ?_⟩
      rw [halive i _ (List.getElem?_eq_getElem hi)]
      simpa using hlost

/-- Machines that can all be asked: those that list the block are left. -/
theorem holders_of_resolvers {others : MachineID → Resolver} {id : BlockID}
    (hanswer : ∀ i m, machine[i]? = some m → answer i = (others m).handleCheckBlockAlive id) :
    holders answer machine = machine.filter fun m => (others m).localIDs.contains id :=
  holders_eq_filter fun i m hget => by rw [hanswer i m hget]; rfl

/-- The requests for copies among the messages. -/
def copyRequests (sent : List (MachineID × ResolverMessage)) : List (Target × BlockMessage) :=
  sent.filterMap fun
    | (m, .doReplica data) => some (.machine m, .doReplica data)
    | (_, .checkBlockAlive _) => none

theorem copyRequests_append (machines : List MachineID) (id : BlockID)
    (requests : List (MachineID × ResolverMessage)) :
    copyRequests ((machines.map fun m => (m, .checkBlockAlive id)) ++ requests) =
      copyRequests requests := by
  induction machines with
  | nil => rfl
  | cons m machines ih => exact ih

/-- The check of a list in the heap does the same. -/
theorem checkReplica_eq_node {resolver : Resolver} {key : BlockID} {attr : TimedAttr}
    (hentry : resolver.remoteIDs[key]? = some attr) (hsize : attr.machine.length < 2 ^ 64)
    (halive : ∀ i m, attr.machine[i]? = some m → (answer i).alive = alive m) {node : BlockNode}
    {cell : Nat} (hcell : node.attrs cell = attr.toBlockLocationAttr) :
    ∃ resolver' sent, resolver.checkReplica blockReplica key answer =
        .ok (resolver', decide (holders answer attr.machine ≠ []), sent) ∧
      ((node.checkReplica blockReplica cell alive).1.attrs cell).machine =
        holders answer attr.machine ∧
      (node.checkReplica blockReplica cell alive).2 = copyRequests sent := by
  rw [checkReplica_eq hentry hsize, holders_eq_filter halive]
  unfold BlockNode.checkReplica
  rw [hcell]
  dsimp only
  cases attr.machine.filter alive with
  | nil =>
      refine ⟨_, _, rfl, by simp [BlockNode.modify, BlockNode.removeRemoteID], ?_⟩
      have hnone := copyRequests_append attr.machine.reverse attr.block []
      rw [List.append_nil] at hnone
      exact hnone.symm
  | cons first rest =>
      refine ⟨_, _, rfl, by simp [BlockNode.modify], ?_⟩
      have hiff := @requests_iff blockReplica _ _ _ halive
      rw [copyRequests_append]
      dsimp only
      by_cases hrequests : Requests blockReplica answer attr.machine
      · rw [if_pos hrequests, if_pos (hiff.mp hrequests)]
        rfl
      · rw [if_neg hrequests, if_neg fun h => hrequests (hiff.mpr h)]
        rfl

end Alive

end Resolver

end Doopey
