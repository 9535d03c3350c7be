import Mathlib.Logic.Function.Basic
import Doopey.Foundation.Runs
import Doopey.Network.Router

/-!
# Machines that join a cluster

Every machine runs the constructor of its `Router` and answers requests only
afterwards. A request and its answer are one step, in which the machine that is
asked does not change; announcements are in flight until they are handled. The
steps of different machines come in any order.

A machine is named by its address. What `gethostbyname` makes of other texts is
a parameter.
-/

namespace Doopey

open Foundation

/-- An IPv4 address. -/
abbrev Host := UInt32

/-- The byte `'.'`. -/
abbrev dot : UInt8 := 46

/-- The text of an address, as `inet_ntop` writes it. -/
def inetNtop (host : Host) : Bytes :=
  decimal (host.toNat / 2 ^ 24) ++ dot :: (decimal (host.toNat / 2 ^ 16 % 256) ++
    dot :: (decimal (host.toNat / 2 ^ 8 % 256) ++ dot :: decimal (host.toNat % 256)))

/-- `gethostbyname`: the texts of addresses are understood, and names have a length. -/
structure Names where
  gethostbyname : Bytes → Option Host
  gethostbyname_inetNtop (host : Host) : gethostbyname (inetNtop host) = some host
  length_lt {text : Bytes} {host : Host} : gethostbyname text = some host → text.length < 2 ^ 64

/-- The address that a text of four numbers stands for. -/
def ofDotted (text : Bytes) : Option Host :=
  match (lines dot [] (text ++ [dot])).map ofDecimal with
  | [a, b, c, d] => some (.ofNat (a * 2 ^ 24 + b * 2 ^ 16 + c * 2 ^ 8 + d))
  | _ => none

theorem ofDotted_inetNtop (host : Host) : ofDotted (inetNtop host) = some host := by
  have hdot (n : Nat) : dot ∉ decimal n := by
    intro hmem
    exact absurd (isDigit_of_mem_decimal hmem) (by decide)
  have hlines : lines dot [] (inetNtop host ++ [dot]) =
      [decimal (host.toNat / 2 ^ 24), decimal (host.toNat / 2 ^ 16 % 256),
        decimal (host.toNat / 2 ^ 8 % 256), decimal (host.toNat % 256)] := by
    simp only [inetNtop, List.append_assoc, List.cons_append]
    rw [lines_append (hdot _), lines_append (hdot _), lines_append (hdot _), lines_append (hdot _)]
    rfl
  rw [ofDotted, hlines]
  simp only [List.map_cons, List.map_nil, ofDecimal_decimal]
  have hhost := host.toNat_lt
  have hsum : host.toNat / 2 ^ 24 * 2 ^ 24 + host.toNat / 2 ^ 16 % 256 * 2 ^ 16 +
      host.toNat / 2 ^ 8 % 256 * 2 ^ 8 + host.toNat % 256 = host.toNat := by omega
  rw [hsum, UInt32.ofNat_toNat]

theorem inetNtop_inj {host other : Host} (heq : inetNtop host = inetNtop other) : host = other := by
  have hread := ofDotted_inetNtop host
  rw [heq, ofDotted_inetNtop] at hread
  exact (Option.some.inj hread).symm

theorem length_inetNtop (host : Host) : (inetNtop host).length ≤ 15 := by
  have hdecimal {n : Nat} (hn : n < 256) : (decimal n).length ≤ 3 := by
    rw [decimal, List.length_map, Nat.length_toDigits_le_iff (by decide) (by decide)]
    exact Nat.lt_trans hn (by decide)
  have hhost := host.toNat_lt
  have ha := @hdecimal (host.toNat / 2 ^ 24) (by omega)
  have hb := @hdecimal (host.toNat / 2 ^ 16 % 256) (Nat.mod_lt _ (by decide))
  have hc := @hdecimal (host.toNat / 2 ^ 8 % 256) (Nat.mod_lt _ (by decide))
  have hd := @hdecimal (host.toNat % 256) (Nat.mod_lt _ (by decide))
  simp only [inetNtop, List.length_append, List.length_cons]
  omega

/-- A name server that knows no names. -/
def numericNames : Names where
  gethostbyname text := if text.length < 2 ^ 64 then ofDotted text else none
  gethostbyname_inetNtop host := by
    have hshort : (inetNtop host).length < 2 ^ 64 :=
      Nat.lt_of_le_of_lt (length_inetNtop host) (by decide)
    rw [if_pos hshort]
    exact ofDotted_inetNtop host
  length_lt {text host} hname := by
    by_contra hlong
    rw [if_neg hlong] at hname
    exact absurd hname (by simp)

/-- How far a machine is with the constructor of its `Router`. -/
inductive JoinStage
  | down
  /-- `initTopology`, with the rest of the list of machines. -/
  | connecting (list : List Bytes)
  /-- `initMachineID` with an old ID. -/
  | checking
  /-- The loop of `initMachineID`, with the addresses that are left. -/
  | asking (rest : List Bytes) (max : MachineID)
  /-- The loop of `initTable`. -/
  | fetching (rest : List Bytes)
  | announcing
  /-- The announcement is sent; requests are not answered yet. -/
  | announced
  | running

/-- The machine answers requests. -/
def JoinStage.answers : JoinStage → Bool
  | running => true
  | _ => false

/-- A machine, with the ID in its snapshot. -/
structure RouterHost where
  stage : JoinStage
  node : RouterNode
  snapshot : MachineID

/-- The machines, and the announcements that they have yet to handle. -/
structure RouterNet where
  hosts : Host → RouterHost
  inFlight : Host → List (MachineID × Bytes)

/-- What can happen in a cluster. -/
inductive RouterEvent
  /-- A machine starts with a list of machines. -/
  | boot (host : Host) (list : List Bytes)
  | connect (host : Host)
  /-- `initMachineID` begins. -/
  | identify (host : Host)
  | check (host : Host)
  | ask (host : Host)
  | fetch (host : Host)
  /-- `updateMachineIDMax`, with the machines that the broadcast comes to. -/
  | announce (host : Host) (tried : MachineID → Bool)
  | start (host : Host)
  | deliver (host : Host) (k : Nat)
  /-- A machine is shut down and saves its ID. -/
  | stop (host : Host)

namespace RouterNet

/-- No machine has run yet. -/
def empty : RouterNet := ⟨fun _ => ⟨.down, .new 0, 0⟩, fun _ => []⟩

/-- A machine goes over to another state. -/
def set (net : RouterNet) (host : Host) (stage : JoinStage) (node : RouterNode) : RouterNet :=
  { net with hosts := Function.update net.hosts host ⟨stage, node, (net.hosts host).snapshot⟩ }

variable (names : Names)

/-- The machine that a connection to an address reaches. -/
def reached (net : RouterNet) (ip : Bytes) : Option Host :=
  (names.gethostbyname ip).filter fun host => (net.hosts host).stage.answers

/-- Its state. -/
def reachedNode (net : RouterNet) (ip : Bytes) : Option RouterNode :=
  (net.reached names ip).map fun host => (net.hosts host).node

/-- The begin of `initMachineID`. Only the first machine has no neighbors. -/
def identify (node : RouterNode) : JoinStage × RouterNode :=
  if node.machineID ≠ 0 then
    if node.neighbors.isEmpty then (.announcing, { node with machineIDMax := node.machineID })
    else (.checking, node)
  else if node.neighbors.isEmpty then (.announcing, { node with machineID := 1, machineIDMax := 1 })
  else (.asking node.addresses 0, node)

/-- `Router::broadcast` of an announcement. A machine that is not reached is erased
from the table while the loop stands at it, so that the loop may go anywhere then. -/
def broadcast (net : RouterNet) (host : Host) (tried : MachineID → Bool) : Option RouterNet :=
  let node := (net.hosts host).node
  let table := node.routingTable.toList
  let failed := table.filter fun (id, entry) => tried id && (net.reached names entry.ip).isNone
  -- without a failure the loop comes to every machine
  if failed = [] ∧ table.any (fun (id, _) => !tried id) then none
  else
    let node := { node with
      routingTable := failed.foldl (fun table (id, _) => table.erase id) node.routingTable }
    let net' := net.set host .announced node
    some { net' with
      inFlight := fun target => net.inFlight target ++
        (table.filter fun (id, entry) => tried id && net.reached names entry.ip = some target).map
          fun _ => (node.machineID, node.updateData (inetNtop host)) }

/-- The next state, if the event can happen. -/
def next (net : RouterNet) : RouterEvent → Option RouterNet
  | .boot host list =>
      match (net.hosts host).stage with
      | .down =>
          -- no machine has the address `0.0.0.0`
          if host = 0 then none
          else some (net.set host (.connecting list) (.new (net.hosts host).snapshot))
      | _ => none
  | .connect host =>
      match (net.hosts host).stage with
      | .connecting (ip :: list) => some (net.set host (.connecting list)
          ((net.hosts host).node.initConnectNeighbor (net.reachedNode names ip) ip))
      | _ => none
  | .identify host =>
      match (net.hosts host).stage with
      | .connecting [] => some (net.set host (identify (net.hosts host).node).1
          (identify (net.hosts host).node).2)
      | _ => none
  | .check host =>
      match (net.hosts host).stage with
      | .checking =>
          let node := (net.hosts host).node
          match node.checkMachineID (inetNtop host) (node.addresses.head?.bind (net.reachedNode names))
            with
          | .ok (some node) => some (net.set host (.fetching node.addresses) node)
          -- the old ID is given up
          | .ok none => some (net.set host (.asking node.addresses 0) node)
          | .error _ => none
      | _ => none
  | .ask host =>
      let node := (net.hosts host).node
      match (net.hosts host).stage with
      | .asking (ip :: rest) max => some (net.set host
          (.asking rest (RouterNode.askMachineIDMax (inetNtop host) (net.reachedNode names ip) ip max))
          node)
      | .asking [] max => some (net.set host (.fetching node.addresses) (node.takeMachineID max))
      | _ => none
  | .fetch host =>
      let node := (net.hosts host).node
      match (net.hosts host).stage with
      | .fetching (ip :: rest) =>
          match node.fetchTable (inetNtop host) (net.reachedNode names ip) with
          | .ok (node, true) => some (net.set host .announcing node)
          | .ok (node, false) => some (net.set host (.fetching rest) node)
          | .error _ => none
      | .fetching [] => some (net.set host .announcing node)
      | _ => none
  | .announce host tried =>
      match (net.hosts host).stage with
      | .announcing => net.broadcast names host tried
      | _ => none
  | .start host =>
      match (net.hosts host).stage with
      | .announced => some (net.set host .running (net.hosts host).node)
      | _ => none
  | .deliver host k =>
      match (net.hosts host).stage, (net.inFlight host)[k]? with
      | .running, some (src, data) =>
          match (net.hosts host).node.handleUpdateMachineIDMax src data with
          | .ok node => some { net.set host .running node with
              inFlight := Function.update net.inFlight host ((net.inFlight host).eraseIdx k) }
          | .error _ => none
      | _, _ => none
  | .stop host =>
      match (net.hosts host).stage with
      | .running =>
          -- the ID goes to the snapshot; what was in flight to the machine is lost
          let machineID := (net.hosts host).node.machineID
          some ⟨Function.update net.hosts host ⟨.down, .new machineID, machineID⟩,
            Function.update net.inFlight host []⟩
      | _ => none

end RouterNet

/-- A cluster in which no machine has run yet. -/
def routerSystem (names : Names) : System RouterNet RouterEvent where
  init net := net = .empty
  step net event net' := net.next names event = some net'

/-! ## What a step can do -/

/-- The steps, one by one. -/
inductive RouterStep (names : Names) (net : RouterNet) : RouterEvent → RouterNet → Prop
  | boot (host : Host) (list : List Bytes) (hstage : (net.hosts host).stage = .down)
      (hhost : host ≠ 0) :
      RouterStep names net (.boot host list)
        (net.set host (.connecting list) (.new (net.hosts host).snapshot))
  | connect (host : Host) (ip : Bytes) (list : List Bytes)
      (hstage : (net.hosts host).stage = .connecting (ip :: list)) :
      RouterStep names net (.connect host)
        (net.set host (.connecting list)
          ((net.hosts host).node.initConnectNeighbor (net.reachedNode names ip) ip))
  | identify (host : Host) (hstage : (net.hosts host).stage = .connecting []) :
      RouterStep names net (.identify host)
        (net.set host (RouterNet.identify (net.hosts host).node).1
          (RouterNet.identify (net.hosts host).node).2)
  | check (host : Host) (node : Option RouterNode) (hstage : (net.hosts host).stage = .checking)
      (hcheck : (net.hosts host).node.checkMachineID (inetNtop host)
        ((net.hosts host).node.addresses.head?.bind (net.reachedNode names)) = .ok node) :
      RouterStep names net (.check host) (match node with
        | some node => net.set host (.fetching node.addresses) node
        | none => net.set host (.asking (net.hosts host).node.addresses 0) (net.hosts host).node)
  | ask (host : Host) (ip : Bytes) (rest : List Bytes) (max : MachineID)
      (hstage : (net.hosts host).stage = .asking (ip :: rest) max) :
      RouterStep names net (.ask host)
        (net.set host (.asking rest (RouterNode.askMachineIDMax (inetNtop host)
          (net.reachedNode names ip) ip max)) (net.hosts host).node)
  | take (host : Host) (max : MachineID) (hstage : (net.hosts host).stage = .asking [] max) :
      RouterStep names net (.ask host)
        (net.set host (.fetching (net.hosts host).node.addresses)
          ((net.hosts host).node.takeMachineID max))
  | fetch (host : Host) (ip : Bytes) (rest : List Bytes) (node : RouterNode) (done : Bool)
      (hstage : (net.hosts host).stage = .fetching (ip :: rest))
      (hfetch : (net.hosts host).node.fetchTable (inetNtop host) (net.reachedNode names ip) =
        .ok (node, done)) :
      RouterStep names net (.fetch host)
        (net.set host (if done then .announcing else .fetching rest) node)
  | fetched (host : Host) (hstage : (net.hosts host).stage = .fetching []) :
      RouterStep names net (.fetch host) (net.set host .announcing (net.hosts host).node)
  | announce (host : Host) (tried : MachineID → Bool) (net' : RouterNet)
      (hstage : (net.hosts host).stage = .announcing)
      (hbroadcast : net.broadcast names host tried = some net') :
      RouterStep names net (.announce host tried) net'
  | start (host : Host) (hstage : (net.hosts host).stage = .announced) :
      RouterStep names net (.start host) (net.set host .running (net.hosts host).node)
  | deliver (host : Host) (k : Nat) (src : MachineID) (data : Bytes) (node : RouterNode)
      (hstage : (net.hosts host).stage = .running)
      (hflight : (net.inFlight host)[k]? = some (src, data))
      (hrun : (net.hosts host).node.handleUpdateMachineIDMax src data = .ok node) :
      RouterStep names net (.deliver host k)
        { net.set host .running node with
          inFlight := Function.update net.inFlight host ((net.inFlight host).eraseIdx k) }
  | stop (host : Host) (hstage : (net.hosts host).stage = .running) :
      RouterStep names net (.stop host)
        ⟨Function.update net.hosts host ⟨.down, .new (net.hosts host).node.machineID,
            (net.hosts host).node.machineID⟩, Function.update net.inFlight host []⟩

theorem RouterNet.step_of_next {names : Names} {net net' : RouterNet} {event : RouterEvent}
    (hnext : net.next names event = some net') : RouterStep names net event net' := by
  cases event with
  | boot host list =>
      dsimp only [next] at hnext
      split at hnext
      next hstage =>
        split at hnext
        next => exact absurd hnext (by simp)
        next hhost =>
          obtain rfl := Option.some.inj hnext
          exact .boot host list hstage hhost
      next => exact absurd hnext (by simp)
  | connect host =>
      dsimp only [next] at hnext
      split at hnext
      next ip list hstage =>
        obtain rfl := Option.some.inj hnext
        exact .connect host ip list hstage
      next => exact absurd hnext (by simp)
  | identify host =>
      dsimp only [next] at hnext
      split at hnext
      next hstage =>
        obtain rfl := Option.some.inj hnext
        exact .identify host hstage
      next => exact absurd hnext (by simp)
  | check host =>
      dsimp only [next] at hnext
      split at hnext
      next hstage =>
        split at hnext
        next node hcheck =>
          obtain rfl := Option.some.inj hnext
          exact .check host (some node) hstage hcheck
        next hcheck =>
          obtain rfl := Option.some.inj hnext
          exact .check host none hstage hcheck
        next => exact absurd hnext (by simp)
      next => exact absurd hnext (by simp)
  | ask host =>
      dsimp only [next] at hnext
      split at hnext
      next ip rest max hstage =>
        obtain rfl := Option.some.inj hnext
        exact .ask host ip rest max hstage
      next max hstage =>
        obtain rfl := Option.some.inj hnext
        exact .take host max hstage
      next => exact absurd hnext (by simp)
  | fetch host =>
      dsimp only [next] at hnext
      split at hnext
      next ip rest hstage =>
        split at hnext
        next node hfetch =>
          obtain rfl := Option.some.inj hnext
          exact .fetch host ip rest node true hstage hfetch
        next node hfetch =>
          obtain rfl := Option.some.inj hnext
          exact .fetch host ip rest node false hstage hfetch
        next => exact absurd hnext (by simp)
      next hstage =>
        obtain rfl := Option.some.inj hnext
        exact .fetched host hstage
      next => exact absurd hnext (by simp)
  | announce host tried =>
      dsimp only [next] at hnext
      split at hnext
      next hstage => exact .announce host tried net' hstage hnext
      next => exact absurd hnext (by simp)
  | start host =>
      dsimp only [next] at hnext
      split at hnext
      next hstage =>
        obtain rfl := Option.some.inj hnext
        exact .start host hstage
      next => exact absurd hnext (by simp)
  | deliver host k =>
      dsimp only [next] at hnext
      split at hnext
      next src data hstage hflight =>
        split at hnext
        next node hrun =>
          obtain rfl := Option.some.inj hnext
          exact .deliver host k src data node hstage hflight hrun
        next => exact absurd hnext (by simp)
      next => exact absurd hnext (by simp)
  | stop host =>
      dsimp only [next] at hnext
      split at hnext
      next hstage =>
        obtain rfl := Option.some.inj hnext
        exact .stop host hstage
      next => exact absurd hnext (by simp)

theorem getElem?_of_foldl_erase {failed : List (MachineID × RoutingEntry)}
    {table : Std.TreeMap MachineID RoutingEntry} {id : MachineID} {entry : RoutingEntry}
    (hentry : (failed.foldl (fun table (id, _) => table.erase id) table)[id]? = some entry) :
    table[id]? = some entry := by
  induction failed generalizing table with
  | nil => exact hentry
  | cons first failed ih =>
      have herased := ih hentry
      rw [Std.TreeMap.getElem?_erase] at herased
      split at herased
      next => exact absurd herased (by simp)
      next => exact herased

/-- Only the machine itself is changed by its broadcast, and its table loses entries. -/
theorem RouterNet.hosts_of_broadcast {names : Names} {net net' : RouterNet} {host : Host}
    {tried : MachineID → Bool} (hbroadcast : net.broadcast names host tried = some net') :
    ∃ table : Std.TreeMap MachineID RoutingEntry,
      (∀ (id : MachineID) (entry : RoutingEntry), table[id]? = some entry →
        (net.hosts host).node.routingTable[id]? = some entry) ∧
      net'.hosts = (net.set host .announced
        { (net.hosts host).node with routingTable := table }).hosts := by
  unfold broadcast at hbroadcast
  dsimp only at hbroadcast
  split at hbroadcast
  next => exact absurd hbroadcast (by simp)
  next =>
    obtain rfl := Option.some.inj hbroadcast
    exact ⟨_, fun id entry hentry => getElem?_of_foldl_erase hentry, rfl⟩

/-- An announcement goes to machines that answer. -/
theorem RouterNet.inFlight_of_broadcast {names : Names} {net net' : RouterNet} {host target : Host}
    {tried : MachineID → Bool} {message : MachineID × Bytes}
    (hbroadcast : net.broadcast names host tried = some net')
    (hmem : message ∈ net'.inFlight target) : message ∈ net.inFlight target ∨
      (message = ((net.hosts host).node.machineID, (net.hosts host).node.updateData (inetNtop host)) ∧
        (net.hosts target).stage.answers = true) := by
  unfold broadcast at hbroadcast
  dsimp only at hbroadcast
  split at hbroadcast
  next => exact absurd hbroadcast (by simp)
  next =>
    obtain rfl := Option.some.inj hbroadcast
    rcases List.mem_append.mp hmem with hold | hnew
    · exact Or.inl hold
    · obtain ⟨entry, hentry, rfl⟩ := List.mem_map.mp hnew
      have hreached := (List.mem_filter.mp hentry).2
      rw [Bool.and_eq_true, decide_eq_true_eq] at hreached
      exact Or.inr ⟨rfl, (Option.filter_eq_some_iff.mp hreached.2).2⟩

/-- A broadcast that reaches every machine of the table. -/
theorem RouterNet.broadcast_of_reached {names : Names} {net net' : RouterNet} {host : Host}
    {tried : MachineID → Bool}
    (hreached : ∀ (id : MachineID) entry, (net.hosts host).node.routingTable[id]? = some entry →
      net.reached names entry.ip ≠ none)
    (hbroadcast : net.broadcast names host tried = some net') :
    net'.hosts = (net.set host .announced (net.hosts host).node).hosts ∧
      ∀ target message, message ∈ net'.inFlight target ↔ message ∈ net.inFlight target ∨
        (message = ((net.hosts host).node.machineID, (net.hosts host).node.updateData (inetNtop host)) ∧
          ∃ (id : MachineID) (entry : RoutingEntry),
            (net.hosts host).node.routingTable[id]? = some entry ∧
              net.reached names entry.ip = some target) := by
  -- nothing is erased, so the loop comes to the whole table
  have hfailed : ((net.hosts host).node.routingTable.toList.filter fun (id, entry) =>
      tried id && (net.reached names entry.ip).isNone) = [] := by
    rw [List.filter_eq_nil_iff]
    intro entry hmem
    have hentry := hreached entry.1 entry.2 (Std.TreeMap.mem_toList_iff_getElem?_eq_some.mp hmem)
    simp [hentry]
  unfold broadcast at hbroadcast
  dsimp only at hbroadcast
  rw [hfailed] at hbroadcast
  split at hbroadcast
  next => exact absurd hbroadcast (by simp)
  next hall =>
    have htried : ∀ entry ∈ (net.hosts host).node.routingTable.toList, tried entry.1 = true := by
      simpa using hall
    obtain rfl := Option.some.inj hbroadcast
    refine ⟨rfl, fun target message => ?_⟩
    rw [List.mem_append, List.mem_map]
    apply or_congr_right
    constructor
    · rintro ⟨entry, hmem, rfl⟩
      obtain ⟨hmem, hentry⟩ := List.mem_filter.mp hmem
      rw [Bool.and_eq_true, decide_eq_true_eq] at hentry
      exact ⟨rfl, entry.1, entry.2, Std.TreeMap.mem_toList_iff_getElem?_eq_some.mp hmem, hentry.2⟩
    · rintro ⟨rfl, id, entry, hentry, htarget⟩
      have hmem := Std.TreeMap.mem_toList_iff_getElem?_eq_some.mpr hentry
      refine ⟨(id, entry), List.mem_filter.mpr ⟨hmem, ?_⟩, rfl⟩
      rw [Bool.and_eq_true, decide_eq_true_eq]
      exact ⟨htried _ hmem, htarget⟩

/-! ## `initMachineID` without interruption -/

namespace RouterNet

section Alone

variable {names : Names} {net : RouterNet} {host : Host}

theorem set_set (net : RouterNet) (host : Host) (stage stage' : JoinStage)
    (node node' : RouterNode) :
    (net.set host stage node).set host stage' node' = net.set host stage' node' := by
  unfold set
  dsimp only
  rw [Function.update_self, Function.update_idem]

/-- A machine that does not answer changes nothing for those that ask. -/
theorem reachedNode_set (hsilent : (net.hosts host).stage.answers = false) {stage : JoinStage}
    (hstage : stage.answers = false) (node : RouterNode) :
    (net.set host stage node).reachedNode names = net.reachedNode names := by
  funext ip
  unfold reachedNode reached set
  cases names.gethostbyname ip with
  | none => rfl
  | some other =>
      by_cases heq : other = host
      · subst heq
        simp [Option.filter, hstage, hsilent]
      · simp [Option.filter, Function.update_of_ne heq]

/-- The loop that looks for the largest ID, to its end. -/
theorem foldlM_ask (hsilent : (net.hosts host).stage.answers = false) (node : RouterNode)
    (rest : List Bytes) (max : MachineID) :
    (List.replicate (rest.length + 1) (.ask host)).foldlM (next names)
        (net.set host (.asking rest max) node) =
      some (net.set host (.fetching node.addresses) (node.takeMachineID (rest.foldl
        (fun max ip => RouterNode.askMachineIDMax (inetNtop host) (net.reachedNode names ip) ip max)
        max))) := by
  induction rest generalizing max with
  | nil => simp [next, set, Function.update_idem]
  | cons ip rest ih =>
      have hround : (net.set host (.asking (ip :: rest) max) node).next names (.ask host) =
          some (net.set host (.asking rest (RouterNode.askMachineIDMax (inetNtop host)
            (net.reachedNode names ip) ip max)) node) := by
        have hreached := @reachedNode_set names _ _ hsilent (.asking (ip :: rest) max) rfl node
        have hstage : ((net.set host (.asking (ip :: rest) max) node).hosts host).stage =
            .asking (ip :: rest) max := by simp [set]
        have hnode : ((net.set host (.asking (ip :: rest) max) node).hosts host).node = node := by
          simp [set]
        rw [next, hstage, hnode, hreached]
        dsimp only
        rw [set_set]
      rw [List.length_cons, List.replicate_succ, List.foldlM_cons, hround]
      exact ih _

/-- The check of an old ID. -/
theorem next_check (hsilent : (net.hosts host).stage.answers = false) {node : RouterNode}
    {kept : Option RouterNode} (hkept : node.checkMachineID (inetNtop host)
      (node.addresses.head?.bind (net.reachedNode names)) = .ok kept) :
    (net.set host .checking node).next names (.check host) = some (match kept with
      | some node => net.set host (.fetching node.addresses) node
      | none => net.set host (.asking node.addresses 0) node) := by
  have hreached := @reachedNode_set names _ _ hsilent .checking rfl node
  have hnode : ((net.set host .checking node).hosts host).node = node := by simp [set]
  have hstage : ((net.set host .checking node).hosts host).stage = .checking := by simp [set]
  simp only [next, hstage, hnode, hreached, hkept, set_set]
  cases kept <;> rfl

/-- As long as the other machines stand still, the steps of a machine do what `initMachineID`
does. -/
theorem exists_foldlM_initMachineID (hstage : (net.hosts host).stage = .connecting [])
    {given : RouterNode}
    (hgiven : (net.hosts host).node.initMachineID (inetNtop host)
      ((net.hosts host).node.addresses.head?.bind (net.reachedNode names))
      (net.reachedNode names) = .ok given) :
    ∃ (events : List RouterEvent) (stage : JoinStage),
      events.foldlM (next names) net = some (net.set host stage given) ∧
        (stage = .announcing ∨ ∃ rest, stage = .fetching rest) := by
  have hsilent : (net.hosts host).stage.answers = false := by
    rw [hstage]
    rfl
  have hidentify : net.next names (.identify host) =
      some (net.set host (identify (net.hosts host).node).1 (identify (net.hosts host).node).2) := by
    rw [next, hstage]
  obtain ⟨asks, hask⟩ : ∃ asks : List RouterEvent, asks.foldlM (next names)
      (net.set host (.asking (net.hosts host).node.addresses 0) (net.hosts host).node) = _ :=
    ⟨_, foldlM_ask hsilent _ _ _⟩
  by_cases hneighbors : (net.hosts host).node.neighbors.isEmpty = true
  · rw [RouterNode.initMachineID_of_isEmpty hneighbors] at hgiven
    obtain rfl := Except.ok.inj hgiven
    refine ⟨[.identify host], .announcing, ?_, Or.inl rfl⟩
    rw [List.foldlM_cons, hidentify]
    by_cases hzero : (net.hosts host).node.machineID = 0 <;> simp [identify, hzero, hneighbors]
  · obtain ⟨kept, hkept, hgiven⟩ := RouterNode.exists_kept_of_initMachineID hneighbors hgiven
    by_cases hzero : (net.hosts host).node.machineID = 0
    · rw [if_pos hzero] at hkept
      obtain rfl := Except.ok.inj hkept
      obtain rfl := hgiven
      refine ⟨.identify host :: asks, .fetching (net.hosts host).node.addresses, ?_,
        Or.inr ⟨_, rfl⟩⟩
      rw [List.foldlM_cons, hidentify, identify, hzero, if_neg (by simp), if_neg hneighbors]
      exact hask
    · rw [if_neg hzero] at hkept
      have hcheck := next_check hsilent hkept
      have hchecking : net.next names (.identify host) =
          some (net.set host .checking (net.hosts host).node) := by
        rw [hidentify]
        simp [identify, hzero, hneighbors]
      cases kept with
      | some node =>
          obtain rfl := hgiven
          refine ⟨[.identify host, .check host], .fetching given.addresses, ?_, Or.inr ⟨_, rfl⟩⟩
          rw [List.foldlM_cons, hchecking]
          simp [hcheck]
      | none =>
          obtain rfl := hgiven
          refine ⟨.identify host :: .check host :: asks,
            .fetching (net.hosts host).node.addresses, ?_, Or.inr ⟨_, rfl⟩⟩
          rw [List.foldlM_cons, hchecking]
          simp only [Option.bind_eq_bind, Option.bind_some, List.foldlM_cons, hcheck]
          exact hask

end Alone

end RouterNet

/-- A run whose states are computed. -/
theorem RouterNet.run_of_foldlM {names : Names} {events : List RouterEvent} {net : RouterNet}
    (hfold : events.foldlM (next names) empty = some net) : (routerSystem names).Run events net :=
  ⟨empty, rfl, System.steps_of_foldlM (fun _ _ _ _ hnext => hnext) hfold⟩

end Doopey
