import Mathlib.Data.UInt
import Doopey.Common.Socket
import Doopey.File.FileManager
import Doopey.File.Path

/-!
# The client

`putFile` cuts a file into pieces of the size of a block and sends them after the
facts about the file; `getFile` learns where the blocks are and lets four workers
fetch them into a new local file.

The server at the other end of the connection is modelled by its handlers. Which
worker is free when it is asked is a parameter, and so is how much of a block a
call of `write` transfers. Here a worker that is free takes the block that it is given; that
`runTask` may refuse it is part of `FetchPool`.
-/

namespace Doopey

open Foundation

/-- `class BlockInfo` -/
structure BlockInfo where
  wsize : UInt64
  nblock : Nat
  id : BlockID
  ip : Bytes

namespace Client

/-! ## Uploading -/

/-- The path that `putFile` asks for. For an empty directory the source looks at
the byte in front of it. -/
def remotePath (behind : UInt8) (dir purename : Bytes) : Bytes :=
  if dir.getLast?.getD behind ≠ slash then dir ++ [slash] ++ purename else dir ++ purename

/-- The message about the file; `totalLength` is counted on its own. -/
def putMeta (behind : UInt8) (dir purename : Bytes) (ctime size : UInt64) : Message :=
  let apart := dir.getLast?.getD behind ≠ slash
  let totalLength := purename.length + dir.length + (if apart then 1 else 0)
  let msg := ((Message.new .file .upFileMeta).addData (bytesOf (.ofNat totalLength))).addData dir
  let msg := if apart then msg.addData [slash] else msg
  ((msg.addData purename).addData (bytesOf ctime)).addData (bytesOf size)

/-- The pieces that the calls of `fread` return. -/
def piecesOf (content : Bytes) : List Bytes :=
  if content = [] then [] else content.take blockSize :: piecesOf (content.drop blockSize)
termination_by content.length
decreasing_by
  rename_i hne
  have hpos := List.length_pos_iff.mpr hne
  rw [List.length_drop, blockSize]
  omega

/-- The messages of `putFile` that it waits for a reply to. The file is a regular one, of which
`lstat` gives the number of bytes that are read. -/
def putMessages (behind : UInt8) (filename dir content : Bytes) (ctime : UInt64) : List Message :=
  putMeta behind dir (getFileName filename) ctime (.ofNat content.length) ::
    ((piecesOf content).map fun piece => (Message.new .file .upFileData).addData piece) ++
    [.new .file .upFileEnd]

/-- `putFile` sends each message when the one before was acknowledged. -/
def putFile (up : Upload) : List Input → Except Fault (Upload × Bool)
  | [] => .ok (up, true)
  | input :: inputs => do
      let (up, reply, _) ← FileUploader.receiveMessage up input
      match reply with
      -- the client waits for a reply that never comes
      | none => .error .divergence
      | some reply => if reply ≠ .fileACK then .ok (up, false) else putFile up inputs

/-- Both sides go on after a message that is acknowledged. -/
theorem loops_of_acknowledged {up up' : Upload} {input : Input}
    (hround : FileUploader.receiveMessage up input = .ok (up', some .fileACK, .goesOn))
    (inputs : List Input) :
    FileUploader.receiveLoop up (input :: inputs) = FileUploader.receiveLoop up' inputs ∧
      putFile up (input :: inputs) = putFile up' inputs := by
  refine ⟨FileUploader.receiveLoop_cons hround inputs, ?_⟩
  rw [putFile, hround, ok_bind]
  dsimp only
  rw [if_neg (by simp)]

/-! ## Downloading -/

/-- `threadNum` in `getFile` -/
def threadNum : Nat := 4

/-- The loop that looks for a free worker, from the poll number `poll` and the
worker `j` on. After a round without success `j` starts at `1`. -/
def findFree (isFree : Nat → Nat → Bool) : Nat → Nat → Nat → Except Fault (Nat × Nat)
  | 0, _, _ => .error .divergence
  | fuel + 1, poll, j =>
      if isFree poll j then .ok (j, poll + 1)
      else findFree isFree fuel (poll + 1) (if j = threadNum - 1 then 1 else j + 1)

/-- The loop of `getFile` that hands the blocks to workers, none of which refuses one. -/
def dispatch (isFree : Nat → Nat → Bool) (fuel : Nat) :
    List BlockInfo → UInt64 → Nat → Except Fault (List (Nat × BlockInfo))
  | [], _, _ => .ok []
  | info :: infos, fileSize, poll => do
      let wsize := if .ofNat blockSize < fileSize then .ofNat blockSize else fileSize
      let (worker, poll) ← findFree isFree fuel poll 0
      let tasks ← dispatch isFree fuel infos (fileSize - wsize) poll
      .ok ((worker, { info with wsize := wsize }) :: tasks)

/-- The loop of `getFile` that receives the places of the blocks. -/
def readInfos : Nat → Nat → List Message → Except Fault (Option (List BlockInfo))
  | _, 0, _ => .ok (some [])
  | _, _ + 1, [] => .error .badPointer
  | i, count + 1, msg :: replies =>
      if ¬ msg.Is .requestFile then .ok none
      else do
        let id ← readUInt64 msg.data 0
        let infos ← readInfos (i + 1) count replies
        .ok (infos.map (⟨0, i, id, msg.data.drop 8⟩ :: ·))

/-- `getFile` up to the point where all blocks are handed to workers. -/
def getFile (isFree : Nat → Nat → Bool) (fuel : Nat) :
    List Message → Except Fault (Option (List (Nat × BlockInfo)))
  | ack :: replies =>
      if ¬ ack.Is .fileACK then .ok none
      else match replies with
        | size :: number :: replies => do
            let fileSize ← readUInt64 size.data 0
            let blockNum ← readUInt64 number.data 0
            let infos ← readInfos 0 blockNum.toNat replies
            match infos with
            | none => .ok none
            | some infos => do
                let tasks ← dispatch isFree fuel infos fileSize 0
                .ok (some tasks)
        | _ => .error .badPointer
  | [] => .error .badPointer

/-- The loop of `receiveBlock`: the calls of `write`. -/
def writeLoop (data : Bytes) (start wsize : Nat) :
    Nat → Socket.Calls → Nat → Except Fault (List (Nat × Bytes))
  | 0, _, _ => .error .divergence
  | fuel + 1, calls, wrAmount =>
      if wrAmount < wsize then
        if data.length < wsize then .error .outOfBounds
        else do
          let (wrOnce, calls) := Socket.transfer calls (wsize - wrAmount)
          let writes ← writeLoop data start wsize fuel calls (wrAmount + wrOnce)
          .ok ((start + wrAmount, part data wrAmount wrOnce) :: writes)
      else .ok []

/-- `receiveBlock`: what is written into the local file, and whether no error is
reported. `serves` is the machine that answers at an address. -/
def receiveBlock (serves : Bytes → Option BlockManager) (info : BlockInfo) (calls : Socket.Calls) :
    Except Fault (List (Nat × Bytes) × Bool) :=
  match serves info.ip with
  | none => .ok ([], false)
  | some manager => do
      let ack ← manager.handleRequestBlockData
        ((Message.new .block .requestBlockData).addData (bytesOf info.id))
      match ack with
      | none => .ok ([], false)
      | some ack =>
          if ¬ ack.Is .blockACK then .ok ([], false)
          else do
            let writes ← writeLoop ack.data (info.nblock * blockSize) info.wsize.toNat
              (info.wsize.toNat + 1) calls 0
            .ok (writes, true)

end Client

end Doopey
