import Mathlib.Data.Multiset.AddSub
import Doopey.Foundation.Runs
import Doopey.Block.BlockNode

/-!
# The block managers of a cluster

Machines, named by their IDs, that save blocks, ask each other for locations and
make copies. Messages may be lost, connections may fail, and what one machine
does may come between any two steps of another one.
-/

namespace Doopey

open Foundation

/-- The machines, the messages that they have yet to handle, each with its
sender, and the contents with which every block was first saved. -/
structure BlockNet where
  nodes : MachineID → BlockNode
  inFlight : MachineID → Multiset (MachineID × BlockMessage)
  first : BlockID → Option Bytes

/-- What can happen in a cluster. -/
inductive BlockEvent
  /-- A new block is saved. -/
  | save (n : MachineID) (data : Bytes) (opens : Bool)
  /-- `askRemoteBlock` sends its requests. -/
  | askRemote (n : MachineID) (id : BlockID)
  /-- `checkReplica` runs. -/
  | check (n : MachineID) (id : BlockID) (alive : MachineID → Bool)
  /-- `BlockLoader::getData` fails. -/
  | forget (n : MachineID) (id : BlockID)
  /-- `checkAllReplica` comes to a block. -/
  | checkAll (n : MachineID) (id : BlockID)
  /-- `BlockManager::deleteBlock` is called. -/
  | delete (n : MachineID) (id : BlockID)
  | deliver (n src : MachineID) (msg : BlockMessage)
  | drop (n src : MachineID) (msg : BlockMessage)
  /-- `handleDoReplica` asks a candidate for a copy, gives it up or hears of it, or ends. -/
  | askCopy (n : MachineID) (k : Nat)
  | skipCopy (n : MachineID) (k : Nat)
  | takeCopy (n : MachineID) (k : Nat)
  | finish (n : MachineID) (k : Nat)
  /-- `handleCopyBlockFromRemote` loads the block or fails to, and saves it. -/
  | load (n : MachineID) (k : Nat)
  | loadFails (n : MachineID) (k : Nat)
  | store (n : MachineID) (k : Nat) (opens : Bool)

/-- A message to the target arrives at `n`. No machine has itself in its routing
table. -/
def Target.Reaches (src n : MachineID) : Target → Prop
  | machine m => m = n ∧ n ≠ src
  | others => n ≠ src

instance (src n : MachineID) (target : Target) : Decidable (target.Reaches src n) := by
  cases target with
  | machine m => exact inferInstanceAs (Decidable (_ ∧ _))
  | others => exact inferInstanceAs (Decidable (_ ≠ _))

/-- The messages for `n` among those that a machine sends. -/
def arriving (src : MachineID) (sends : List (Target × BlockMessage)) (n : MachineID) :
    Multiset (MachineID × BlockMessage) :=
  ↑((sends.filter fun send => send.1.Reaches src n).map fun send => (src, send.2))

/-- What `Router::pickMachineBesideList` may return on a machine. It picks nothing
if the number is larger than `blockReplica`. -/
def Picks (blockReplica : UInt64) (me : MachineID)
    (pick : List MachineID → UInt64 → List MachineID) : Prop :=
  ∀ list num, (pick list num).Nodup ∧ (∀ m ∈ pick list num, m ∉ list ∧ m ≠ me) ∧
    (pick list num).length ≤ num.toNat ∧ (blockReplica < num → pick list num = [])

namespace BlockNet

/-- No machine has a block yet. -/
def empty : BlockNet := ⟨fun _ => .empty, fun _ => 0, fun _ => none⟩

/-- A machine goes over to a new state and sends messages. -/
def act (net : BlockNet) (n : MachineID) (node : BlockNode)
    (sends : List (Target × BlockMessage)) : BlockNet :=
  { net with
    nodes := Function.update net.nodes n node
    inFlight := fun m => net.inFlight m + arriving n sends m }

/-- A message has left the network. -/
def without (net : BlockNet) (n : MachineID) (rest : Multiset (MachineID × BlockMessage)) :
    BlockNet := { net with inFlight := Function.update net.inFlight n rest }

/-- The contents of a block that was saved are kept in mind. -/
def remember (net : BlockNet) (id : BlockID) (data : Bytes) : BlockNet :=
  { net with first := if id = 0 then net.first
      else Function.update net.first id ((net.first id).or (some data)) }

@[simp] theorem nodes_act_self (net : BlockNet) (n : MachineID) (node : BlockNode)
    (sends : List (Target × BlockMessage)) : (net.act n node sends).nodes n = node :=
  Function.update_self ..

theorem nodes_act_of_ne {net : BlockNet} {n k : MachineID} (hne : k ≠ n) (node : BlockNode)
    (sends : List (Target × BlockMessage)) : (net.act n node sends).nodes k = net.nodes k :=
  Function.update_of_ne hne ..

/-- A machine that keeps its state and sends nothing. -/
theorem act_nothing (net : BlockNet) (n : MachineID) : net.act n (net.nodes n) [] = net := by
  unfold act
  rw [Function.update_eq_self]
  congr
  funext m
  exact Multiset.add_zero _

end BlockNet

/-- The steps of a cluster. A handler that fails does not make one: how many bytes a copy has
room for is left open, and with less than `sizeofBlock` nothing is deleted. -/
inductive BlockStep (blockReplica : UInt64) (net : BlockNet) : BlockEvent → BlockNet → Prop
  | save (n : MachineID) (data : Bytes) (opens : Bool) (id : BlockID) (node : BlockNode)
      (hn : n ≠ 0) (hdata : data.length = blockSize)
      (hsave : (net.nodes n).saveBlock blockReplica n opens data 0 = (id, node)) :
      BlockStep blockReplica net (.save n data opens) ((net.act n node []).remember id data)
  | askRemote (n : MachineID) (id : BlockID) :
      BlockStep blockReplica net (.askRemote n id)
        (net.act n (net.nodes n) [(.others, .requestBlockLocation n id)])
  | check (n : MachineID) (id : BlockID) (attr : Nat) (alive : MachineID → Bool)
      (hlocal : (net.nodes n).localIDs[id]? = none)
      (hremote : (net.nodes n).remoteIDs[id]? = some attr)
      (halive : ∀ m, alive m = true → m ≠ n ∧ (net.nodes m).localIDs[id]? ≠ none) :
      BlockStep blockReplica net (.check n id alive)
        (net.act n ((net.nodes n).checkReplica blockReplica attr alive).1
          ((net.nodes n).checkReplica blockReplica attr alive).2)
  | forget (n : MachineID) (id : BlockID) :
      BlockStep blockReplica net (.forget n id) (net.act n ((net.nodes n).removeRemoteID id) [])
  | checkAll (n : MachineID) (id : BlockID) (attr : Nat)
      (pick : List MachineID → UInt64 → List MachineID) (node : BlockNode)
      (hlocal : (net.nodes n).localIDs[id]? = some attr) (hpick : Picks blockReplica n pick)
      (hrun : (net.nodes n).handleDoReplica blockReplica pick
        (locationData ((net.nodes n).attrs attr).block ((net.nodes n).attrs attr).machine) =
          .ok node) :
      BlockStep blockReplica net (.checkAll n id) (net.act n node [])
  | delete (n : MachineID) (id : BlockID) (room : Nat) (node : BlockNode)
      (sends : List (Target × BlockMessage))
      (hrun : (net.nodes n).deleteBlock n room id = .ok (node, sends)) :
      BlockStep blockReplica net (.delete n id) (net.act n node sends)
  | deliver (n src : MachineID) (msg : BlockMessage) (rest : Multiset (MachineID × BlockMessage))
      (room : Nat) (pick : List MachineID → UInt64 → List MachineID) (node : BlockNode)
      (sends : List (Target × BlockMessage)) (hflight : net.inFlight n = (src, msg) ::ₘ rest)
      (hpick : Picks blockReplica n pick)
      (hrun : (net.nodes n).request blockReplica room pick src msg = .ok (node, sends)) :
      BlockStep blockReplica net (.deliver n src msg) ((net.without n rest).act n node sends)
  | drop (n src : MachineID) (msg : BlockMessage) (rest : Multiset (MachineID × BlockMessage))
      (hflight : net.inFlight n = (src, msg) ::ₘ rest) :
      BlockStep blockReplica net (.drop n src msg) (net.without n rest)
  | askCopy (n : MachineID) (k : Nat) (task : ReplicaTask) (m : MachineID) (rest : List MachineID)
      (htask : (net.nodes n).replicas[k]? = some task) (hcandidate : task.candidate = m :: rest)
      (hasked : task.asked = false) :
      BlockStep blockReplica net (.askCopy n k)
        (net.act n { net.nodes n with
          replicas := (net.nodes n).replicas.set k { task with asked := true } }
          [(.machine m, .copyBlockFromRemote task.block)])
  | skipCopy (n : MachineID) (k : Nat) (task : ReplicaTask) (m : MachineID) (rest : List MachineID)
      (htask : (net.nodes n).replicas[k]? = some task) (hcandidate : task.candidate = m :: rest) :
      BlockStep blockReplica net (.skipCopy n k)
        (net.act n { net.nodes n with
          replicas := (net.nodes n).replicas.set k
            { task with candidate := rest, asked := false } } [])
  | takeCopy (n : MachineID) (k : Nat) (task : ReplicaTask) (m : MachineID) (rest : List MachineID)
      (flight : Multiset (MachineID × BlockMessage))
      (htask : (net.nodes n).replicas[k]? = some task) (hcandidate : task.candidate = m :: rest)
      (hasked : task.asked = true)
      (hflight : net.inFlight n = (m, .blockACK task.block) ::ₘ flight) :
      BlockStep blockReplica net (.takeCopy n k)
        ((net.without n flight).act n
          ((net.nodes n).addCandidate blockReplica k task m rest) [])
  | finish (n : MachineID) (k : Nat) (task : ReplicaTask)
      (htask : (net.nodes n).replicas[k]? = some task) (hcandidate : task.candidate = []) :
      BlockStep blockReplica net (.finish n k)
        (net.act n ((net.nodes n).finishReplica k task).1 ((net.nodes n).finishReplica k task).2)
  | load (n : MachineID) (k : Nat) (task : CopyTask) (content : Bytes)
      (htask : (net.nodes n).copies[k]? = some task) (hdata : task.data = none)
      (hfile : (net.nodes task.src).files task.block = some content) :
      BlockStep blockReplica net (.load n k)
        (net.act n { net.nodes n with
          copies := (net.nodes n).copies.set k
            { task with data := some (BlockManager.loadFile content) } } [])
  | loadFails (n : MachineID) (k : Nat) (task : CopyTask)
      (htask : (net.nodes n).copies[k]? = some task) (hdata : task.data = none) :
      BlockStep blockReplica net (.loadFails n k)
        (net.act n ({ net.nodes n with
          copies := (net.nodes n).copies.eraseIdx k }.removeRemoteID task.block) [])
  | store (n : MachineID) (k : Nat) (opens : Bool) (task : CopyTask) (data : Bytes) (id : BlockID)
      (node : BlockNode) (htask : (net.nodes n).copies[k]? = some task)
      (hdata : task.data = some data)
      (hsave : { net.nodes n with copies := (net.nodes n).copies.eraseIdx k }.saveBlock
        blockReplica n opens data task.block = (id, node)) :
      BlockStep blockReplica net (.store n k opens)
        (net.act n node (if id = 0 then [] else [(.machine task.src, .blockACK task.block)]))

/-- A cluster that starts without blocks. -/
def blockSystem (blockReplica : UInt64) : System BlockNet BlockEvent where
  init net := net = .empty
  step := BlockStep blockReplica

end Doopey
