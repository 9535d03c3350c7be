import Doopey.Block.LastingBlocks
import Doopey.File.Requests
import Doopey.Machine.Client

/-!
# Machines that store files

The block managers and the file trees of a cluster, with clients that upload files to any
machines at the same time. Between two messages of one upload, other uploads go on, on the
same machine or elsewhere, blocks are copied and looked for, directories are made, and
broadcasts arrive, late, again or never. A block may fail to be saved, which the client does
not learn, and a client may leave, upon which the server has its blocks deleted one after the
other.
-/

namespace Doopey

open Foundation FileUploader Client

/-- A file that a client uploads. -/
structure PutFile where
  behind : UInt8
  filename : Bytes
  dir : Bytes
  content : Bytes
  ctime : UInt64

namespace PutFile

/-- The path under which the file is asked for. -/
def path (file : PutFile) : Bytes := remotePath file.behind file.dir (getFileName file.filename)

def messages (file : PutFile) : List Message :=
  putMessages file.behind file.filename file.dir file.content file.ctime

/-- One meta block can list all pieces. -/
def Fits (file : PutFile) : Prop :=
  8 + file.path.length + 24 + 8 * (piecesOf file.content).length ≤ blockSize

end PutFile

/-- A call of `putFile` with the call of `receiveFile` that serves it: the meta block, and the
messages that the client has yet to send. -/
structure Session where
  file : PutFile
  metaBlock : MetaBlock
  left : List Message

/-- The machines with their blocks, trees and uploads, the blocks that are yet to be deleted
after clients that have left, the broadcasts that were sent, and the uploads that were
acknowledged, each with the ID of its meta block. -/
structure StorageNet where
  net : BlockNet
  trees : MachineID → FileTree
  sessions : MachineID → List Session
  cleanups : MachineID → List (List BlockID)
  sent : List Message
  completed : List (BlockID × PutFile)

/-- What can happen in such a cluster. -/
inductive StorageEvent
  | blocks (event : BlockEvent)
  /-- A client starts to upload a file to a machine. -/
  | put (n : MachineID) (file : PutFile)
  /-- `receiveFile` handles the next message of an upload. A file can be created for a block
  that is saved, or it cannot. -/
  | receive (n : MachineID) (k : Nat) (opens : Bool)
  /-- A client disconnects, and `receiveFile` begins to clean up. -/
  | leaves (n : MachineID) (k : Nat)
  /-- `cleanData` comes to the next block. -/
  | cleans (n : MachineID) (k : Nat)
  | addDir (n : MachineID) (dir : Bytes)
  /-- `handleBroadcast` handles a message that was sent at some time. -/
  | hear (n : MachineID) (msg : Message)

/-- What the file manager of a machine can tell of its blocks. -/
structure BlockNode.Shows (node : BlockNode) (n : MachineID) (manager : BlockManager) : Prop where
  machineID : manager.machineID = n
  localMax : manager.localMax = node.localMax
  localIDs (id : BlockID) :
    manager.localIDs id = (node.localIDs[id]?).map fun attr => (node.attrs attr).machine
  files : manager.files = node.files

namespace FileUploader

/-- A round of the loop of `receiveFile`, with a client that leaves if it is not acknowledged.
The server cleans up then, unless it has left the loop before. -/
def serveMessage (up : Upload) (input : Input) : Except Fault (Upload × Outcome) := do
  let (up, reply, outcome) ← receiveMessage up input
  if outcome = .goesOn ∧ reply ≠ some .fileACK then do
    let manager ← cleanData up.metaBlock up.manager
    .ok ({ up with manager := manager }, .failed)
  else .ok (up, outcome)

end FileUploader

namespace StorageNet

/-- No machine has a file yet. -/
def empty (keyHash : Bytes → Nat) : StorageNet where
  net := .empty
  trees := fun _ => .new keyHash
  sessions := fun _ => []
  cleanups := fun _ => []
  sent := []
  completed := []

/-- What a handler of a machine works on. -/
structure Has (s : StorageNet) (n : MachineID) (store : Store) : Prop where
  manager : (s.net.nodes n).Shows n store.manager
  tree : store.tree = s.trees n

/-- The uploads on one machine change, and its tree. -/
def serve (s : StorageNet) (n : MachineID) (net : BlockNet) (tree : FileTree)
    (sessions : List Session) : StorageNet :=
  { s with
    net := net
    trees := Function.update s.trees n tree
    sessions := Function.update s.sessions n sessions }

@[simp] theorem sessions_serve_self (s : StorageNet) (n : MachineID) (net : BlockNet)
    (tree : FileTree) (sessions : List Session) :
    (s.serve n net tree sessions).sessions n = sessions := Function.update_self ..

@[simp] theorem trees_serve_self (s : StorageNet) (n : MachineID) (net : BlockNet)
    (tree : FileTree) (sessions : List Session) : (s.serve n net tree sessions).trees n = tree :=
  Function.update_self ..

/-- A block is saved on the machine, or fails to be, or there is none. -/
def MaySave (blockReplica : UInt64) (net : BlockNet) (n : MachineID) (opens : Bool)
    (net' : BlockNet) : Prop :=
  net' = net ∨ ∃ data, BlockStep blockReplica net (.save n data opens) net'

/-- A machine handles the next message of an upload. -/
structure Receives (blockReplica : UInt64) (s : StorageNet) (n : MachineID) (k : Nat)
    (opens : Bool) (session : Session) (rest : List Message) (net : BlockNet) (up : Upload)
    (outcome : Outcome) : Prop where
  found : (s.sessions n)[k]? = some session
  round : ∃ msg store, session.left = msg :: rest ∧ s.Has n store ∧
    serveMessage ⟨session.metaBlock, store.manager, store.tree⟩ ⟨msg, opens⟩ = .ok (up, outcome)
  saves : MaySave blockReplica s.net n opens net
  shows : (net.nodes n).Shows n up.manager

end StorageNet

/-- The steps of such a cluster. -/
inductive StorageStep (blockReplica : UInt64) (s : StorageNet) : StorageEvent → StorageNet → Prop
  | blocks (event : BlockEvent) (net : BlockNet) (hstep : BlockStep blockReplica s.net event net) :
      StorageStep blockReplica s (.blocks event) { s with net := net }
  | put (n : MachineID) (file : PutFile) (metaBlock : MetaBlock) (hn : n ≠ 0)
      (hmeta : MetaBlock.newMeta = .ok metaBlock) :
      StorageStep blockReplica s (.put n file) (s.serve n s.net (s.trees n)
        (⟨file, metaBlock, file.messages⟩ :: s.sessions n))
  | goesOn (n : MachineID) (k : Nat) (opens : Bool) (session : Session) (rest : List Message)
      (net : BlockNet) (up : Upload)
      (hreceives : s.Receives blockReplica n k opens session rest net up .goesOn) :
      StorageStep blockReplica s (.receive n k opens) (s.serve n net up.tree
        ((s.sessions n).set k { session with metaBlock := up.metaBlock, left := rest }))
  | fails (n : MachineID) (k : Nat) (opens : Bool) (session : Session) (rest : List Message)
      (net : BlockNet) (up : Upload)
      (hreceives : s.Receives blockReplica n k opens session rest net up .failed) :
      StorageStep blockReplica s (.receive n k opens)
        (s.serve n net up.tree ((s.sessions n).eraseIdx k))
  /-- `handleUpload` tells the others. -/
  | completes (n : MachineID) (k : Nat) (opens : Bool) (session : Session) (rest : List Message)
      (net : BlockNet) (up : Upload) (name : Bytes)
      (hreceives : s.Receives blockReplica n k opens session rest net up .completed)
      (hname : up.metaBlock.getFileName = .ok name) :
      StorageStep blockReplica s (.receive n k opens)
        { s.serve n net up.tree ((s.sessions n).eraseIdx k) with
          sent := FileManager.newFileMessage name up.metaBlock.id :: s.sent
          completed := (up.metaBlock.id, session.file) :: s.completed }
  | leaves (n : MachineID) (k : Nat) (session : Session) (ids : List BlockID)
      (hfound : (s.sessions n)[k]? = some session) (hids : session.metaBlock.dataIDs = .ok ids) :
      StorageStep blockReplica s (.leaves n k)
        { s.serve n s.net (s.trees n) ((s.sessions n).eraseIdx k) with
          cleanups := Function.update s.cleanups n
            ((if ids = [] then [] else ids ++ [session.metaBlock.id]) :: s.cleanups n) }
  | cleans (n : MachineID) (k : Nat) (id : BlockID) (rest : List BlockID) (net : BlockNet)
      (hfound : (s.cleanups n)[k]? = some (id :: rest))
      (hstep : BlockStep blockReplica s.net (.delete n id) net) :
      StorageStep blockReplica s (.cleans n k) { s with
        net := net
        cleanups := Function.update s.cleanups n ((s.cleanups n).set k rest) }
  | addDir (n : MachineID) (dir : Bytes) (store store' : Store) (msg : Option Message)
      (success : Bool) (hstore : s.Has n store)
      (hadd : FileManager.handleAddDir store dir = .ok (store', msg, success)) :
      StorageStep blockReplica s (.addDir n dir)
        { s.serve n s.net store'.tree (s.sessions n) with sent := msg.toList ++ s.sent }
  | hear (n : MachineID) (msg : Message) (fuel : Nat) (tree : FileTree) (success : Bool)
      (hsent : msg ∈ s.sent)
      (hhear : FileManager.handleBroadcast fuel (s.trees n) msg = .ok (tree, success)) :
      StorageStep blockReplica s (.hear n msg) (s.serve n s.net tree (s.sessions n))

/-- A cluster that starts without files. -/
def storageSystem (blockReplica : UInt64) (keyHash : Bytes → Nat) :
    System StorageNet StorageEvent where
  init s := s = .empty keyHash
  step := StorageStep blockReplica

/-- No block is deleted, also not after a client that has left, every block can be saved, the
counter of a machine that saves one has not come around, and every file fits into one meta
block. -/
def StorageNet.Enduring (s : StorageNet) : StorageEvent → Prop
  | .blocks event => s.net.Enduring event
  | .put _ file => file.Fits
  | .receive n _ opens => opens = true ∧ (s.net.nodes n).localMax + 1 ≠ 0
  | .cleans _ _ => False
  | .leaves _ _ | .addDir _ _ | .hear _ _ => True

namespace FileUploader

/-- The rounds of an upload that goes on, one after the other. -/
inductive Rounds : Upload → List Input → Upload → Prop
  | nil (up : Upload) : Rounds up [] up
  | cons {up middle up' : Upload} {input : Input} {inputs : List Input}
      (hround : serveMessage up input = .ok (middle, .goesOn)) (hrest : Rounds middle inputs up') :
      Rounds up (input :: inputs) up'

section Rounds

variable {up up' : Upload} {input : Input} {inputs : List Input}

/-- A round that goes on is one of both loops. -/
theorem serveMessage_goesOn (hround : serveMessage up input = .ok (up', .goesOn))
    (inputs : List Input) : receiveLoop up (input :: inputs) = receiveLoop up' inputs ∧
      putFile up (input :: inputs) = putFile up' inputs := by
  obtain ⟨⟨after, reply, outcome⟩, hmessage, hround⟩ := bind_eq_ok_iff.mp hround
  dsimp only at hround
  split at hround
  · obtain ⟨manager, -, hround⟩ := bind_eq_ok_iff.mp hround
    cases (Prod.mk.inj (Except.ok.inj hround)).2
  next hstays =>
    obtain ⟨rfl, rfl⟩ := Prod.mk.inj (Except.ok.inj hround)
    obtain rfl : reply = some .fileACK := by
      by_contra hreply
      exact hstays ⟨rfl, hreply⟩
    exact loops_of_acknowledged hmessage inputs

theorem Rounds.loops (h : Rounds up inputs up') (rest : List Input) :
    receiveLoop up (inputs ++ rest) = receiveLoop up' rest ∧
      putFile up (inputs ++ rest) = putFile up' rest := by
  induction h with
  | nil up => exact ⟨rfl, rfl⟩
  | cons hround _ ih =>
      obtain ⟨hreceive, hput⟩ := serveMessage_goesOn hround (_ ++ rest)
      exact ⟨hreceive.trans ih.1, hput.trans ih.2⟩

/-- With the last round the server leaves its loop. -/
theorem serveMessage_ends {outcome : Outcome} (hround : serveMessage up input = .ok (up', outcome))
    (hends : outcome ≠ .goesOn) : receiveLoop up [input] =
      .ok (if outcome = .completed then some up'.metaBlock else none, up') := by
  obtain ⟨⟨after, reply, outcome'⟩, hmessage, hround⟩ := bind_eq_ok_iff.mp hround
  rw [receiveLoop, hmessage, ok_bind]
  dsimp only at hround ⊢
  split at hround
  next hleaves =>
    obtain ⟨manager, hclean, hround⟩ := bind_eq_ok_iff.mp hround
    obtain ⟨rfl, rfl⟩ := Prod.mk.inj (Except.ok.inj hround)
    rw [hleaves.1]
    dsimp only
    rw [receiveLoop, hclean, ok_bind]
    rfl
  next =>
    obtain ⟨rfl, rfl⟩ := Prod.mk.inj (Except.ok.inj hround)
    cases outcome' with
    | goesOn => exact absurd rfl hends
    | failed => rfl
    | completed => rfl

/-- An upload that nothing interrupts is a call of `handleUpload`. -/
theorem handleUpload_of_rounds {start : MetaBlock} {store : Store} {outcome : Outcome}
    {name : Bytes} (hstart : MetaBlock.newMeta = .ok start)
    (h : Rounds ⟨start, store.manager, store.tree⟩ inputs up)
    (hround : serveMessage up input = .ok (up', outcome)) (hends : outcome ≠ .goesOn)
    (hname : up'.metaBlock.getFileName = .ok name) :
    FileManager.handleUpload store (inputs ++ [input]) =
      .ok (⟨up'.manager, up'.tree⟩, if outcome = .completed then
        some (FileManager.newFileMessage name up'.metaBlock.id) else none,
        outcome = .completed) := by
  rw [FileManager.handleUpload, receiveFile, hstart, ok_bind, (h.loops _).1,
    serveMessage_ends hround hends, ok_bind]
  cases outcome with
  | goesOn => exact absurd rfl hends
  | failed => rfl
  | completed =>
      dsimp only
      rw [if_pos rfl]
      dsimp only
      rw [hname, ok_bind]
      rfl

/-- An upload after which the client leaves is one, too, with the blocks deleted that are yet
to be. -/
theorem handleUpload_of_left {start : MetaBlock} {store : Store} {ids : List BlockID}
    (hstart : MetaBlock.newMeta = .ok start)
    (h : Rounds ⟨start, store.manager, store.tree⟩ inputs up)
    (hids : up.metaBlock.dataIDs = .ok ids) : FileManager.handleUpload store inputs = (do
      let manager ← up.manager.deleteBlocks (if ids = [] then [] else ids ++ [up.metaBlock.id])
      .ok (⟨manager, up.tree⟩, none, false)) := by
  have hloop := (h.loops []).1
  rw [List.append_nil] at hloop
  rw [FileManager.handleUpload, receiveFile, hstart, ok_bind, hloop, receiveLoop,
    cleanData_of_dataIDs hids]
  cases up.manager.deleteBlocks (if ids = [] then [] else ids ++ [up.metaBlock.id]) with
  | error fault => rfl
  | ok manager => rfl

end Rounds

end FileUploader

end Doopey
