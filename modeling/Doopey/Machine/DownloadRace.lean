import Doopey.Foundation.Runs
import Doopey.Machine.Download

/-!
# The workers of a download and the loop that waits for them

`getFile` hands the blocks to its workers and then looks at their results, one
after the other, until all of them are `1`. A worker sets its result to `1` before
it does anything else, and to `-1` when it fails; the steps of the workers and of
the loop may come in any order.
-/

namespace Doopey

open Foundation

/-- How far the call of `receiveBlock` for a block is. -/
inductive ReceiveStage
  | waiting
  /-- A worker has the block. -/
  | given
  | connecting
  | requesting
  | receiving
  /-- The bytes are there, and the local file is opened. -/
  | opening (data : Bytes)
  | writing (data : Bytes) (wrAmount : Nat)
  | closing (data : Bytes)
  | closed (data : Bytes)
  | failed

namespace ReceiveStage

/-- The worker is not free. -/
def running : ReceiveStage → Bool
  | waiting | closed _ | failed => false
  | _ => true

/-- A request of the worker may fail, and the worker gives up. -/
def mayFail : ReceiveStage → Bool
  | connecting | requesting | receiving | opening _ => true
  | _ => false

/-- The bytes of the block, once the worker has them. -/
def received : ReceiveStage → Option Bytes
  | opening data | writing data _ | closing data | closed data => some data
  | _ => none

/-- The worker is past its calls of `write`. -/
def Left (stage : ReceiveStage) : Prop := ∃ data, stage = closing data ∨ stage = closed data

end ReceiveStage

/-- A block of a download with its cell of `result`. -/
structure Receiving where
  info : BlockInfo
  stage : ReceiveStage
  result : Int

/-- What a worker does next. -/
inductive ReceiveEvent
  | setResult
  | connect
  | send
  | receive (ack : Message)
  | openFile
  | fail
  | write (wrOnce : Nat)
  | writeFails
  | leave
  | close

/-- The steps of `receiveBlock`, with what is written into the local file. -/
inductive ReceiveStep (task : Receiving) : ReceiveEvent → Receiving → List (Nat × Bytes) → Prop
  | setResult (hstage : task.stage = .given) :
      ReceiveStep task .setResult { task with stage := .connecting, result := 1 } []
  | connect (hstage : task.stage = .connecting) :
      ReceiveStep task .connect { task with stage := .requesting } []
  | send (hstage : task.stage = .requesting) :
      ReceiveStep task .send { task with stage := .receiving } []
  | receive (ack : Message) (hstage : task.stage = .receiving) (hack : ack.Is .blockACK) :
      ReceiveStep task (.receive ack) { task with stage := .opening ack.data } []
  | openFile (data : Bytes) (hstage : task.stage = .opening data) :
      ReceiveStep task .openFile { task with stage := .writing data 0 } []
  | fail (hfail : task.stage.mayFail = true) :
      ReceiveStep task .fail { task with stage := .failed, result := -1 } []
  | write (data : Bytes) (wrAmount wrOnce : Nat) (hstage : task.stage = .writing data wrAmount)
      (hmore : wrAmount < task.info.wsize.toNat) (hread : task.info.wsize.toNat ≤ data.length)
      (hpos : 0 < wrOnce) (hle : wrAmount + wrOnce ≤ task.info.wsize.toNat) :
      ReceiveStep task (.write wrOnce) { task with stage := .writing data (wrAmount + wrOnce) }
        [(task.info.nblock * blockSize + wrAmount, part data wrAmount wrOnce)]
  /-- No byte was written; this is not an error. -/
  | writeNothing (data : Bytes) (wrAmount : Nat) (hstage : task.stage = .writing data wrAmount)
      (hmore : wrAmount < task.info.wsize.toNat) :
      ReceiveStep task (.write 0) { task with stage := .closing data } []
  | writeFails (data : Bytes) (wrAmount : Nat) (hstage : task.stage = .writing data wrAmount)
      (hmore : wrAmount < task.info.wsize.toNat) :
      ReceiveStep task .writeFails { task with stage := .closing data, result := -1 } []
  | leave (data : Bytes) (wrAmount : Nat) (hstage : task.stage = .writing data wrAmount)
      (hdone : ¬ wrAmount < task.info.wsize.toNat) :
      ReceiveStep task .leave { task with stage := .closing data } []
  | close (data : Bytes) (hstage : task.stage = .closing data) :
      ReceiveStep task .close { task with stage := .closed data } []

/-- How far `getFile` is: it hands out the block `i`, or looks at its result. -/
inductive GetFileStage
  | dispatching (i : Nat)
  | polling (i : Nat)
  | returned (succ : Bool)

/-- A download, with the writes into the local file. -/
structure DownloadState where
  tasks : List Receiving
  stage : GetFileStage
  writes : List (Nat × Bytes)

/-- What can happen in a download. -/
inductive DownloadEvent
  | dispatch
  | poll
  | read
  | work (i : Nat) (event : ReceiveEvent)

/-- What `getFile` does after it has read the result of the block `i` of `blockNum`. -/
def afterRead (blockNum i : Nat) (result : Int) : GetFileStage :=
  if result = 0 then .polling 0
  else if result = -1 then .returned false
  else if i + 1 < blockNum then .polling (i + 1)
  -- only behind the last block
  else if result = 1 then .returned true
  else .polling 0

/-- The steps of a download. -/
inductive DownloadStep (state : DownloadState) : DownloadEvent → DownloadState → Prop
  | dispatch (i : Nat) (task : Receiving) (hstage : state.stage = .dispatching i)
      (htask : state.tasks[i]? = some task)
      (hfree : (state.tasks.filter fun task => task.stage.running).length < Client.threadNum) :
      DownloadStep state .dispatch
        { state with
          tasks := state.tasks.set i { task with stage := .given }
          stage := .dispatching (i + 1) }
  | poll (hstage : state.stage = .dispatching state.tasks.length) :
      DownloadStep state .poll { state with stage := .polling 0 }
  | read (i : Nat) (task : Receiving) (hstage : state.stage = .polling i)
      (htask : state.tasks[i]? = some task) :
      DownloadStep state .read { state with stage := afterRead state.tasks.length i task.result }
  | work (i : Nat) (event : ReceiveEvent) (task task' : Receiving) (writes : List (Nat × Bytes))
      (htask : state.tasks[i]? = some task) (hstep : ReceiveStep task event task' writes) :
      DownloadStep state (.work i event)
        { state with tasks := state.tasks.set i task', writes := state.writes ++ writes }

namespace DownloadState

/-- The blocks are known, and none is handed out. -/
def start (infos : List BlockInfo) : DownloadState :=
  ⟨infos.map fun info => ⟨info, .waiting, 0⟩, .dispatching 0, []⟩

end DownloadState

/-- A download of a file of any size with any number of blocks. -/
def downloadSystem : System DownloadState DownloadEvent where
  init state := ∃ infos fileSize, state = .start (sized infos fileSize)
  step := DownloadStep

/-- The first bytes of a block are written in their place. -/
def Stored (writes : List (Nat × Bytes)) (info : BlockInfo) (data : Bytes) (length : Nat) : Prop :=
  ∀ index < length, ∃ write ∈ writes, Covers write (info.nblock * blockSize + index) ∧
    write.2[info.nblock * blockSize + index - write.1]? = data[index]?

/-- All bytes of a block that the file has are received and written. -/
def Receiving.Written (task : Receiving) (writes : List (Nat × Bytes)) : Prop :=
  ∃ data, task.stage.received = some data ∧ Stored writes task.info data task.info.wsize.toNat

namespace DownloadState

/-- A result that is read as `1` is the one of a worker that is past its writes, and
a call of `write` writes something or fails. -/
def Waits (state : DownloadState) : DownloadEvent → Prop
  | .read => ∀ i task, state.stage = .polling i → state.tasks[i]? = some task →
      task.result = 1 → task.stage.Left
  | .work _ event => event ≠ .write 0
  | _ => True

end DownloadState

/-! ## A worker -/

section Worker

variable {writes : List (Nat × Bytes)} {info : BlockInfo} {data : Bytes}

theorem Stored.mono {length : Nat} (h : Stored writes info data length)
    (more : List (Nat × Bytes)) : Stored (writes ++ more) info data length := by
  intro index hindex
  obtain ⟨write, hmem, hcovers⟩ := h index hindex
  exact ⟨write, List.mem_append_left _ hmem, hcovers⟩

/-- A call of `write` goes on where the one before it ended. -/
theorem Stored.write {wrAmount wrOnce : Nat} (h : Stored writes info data wrAmount)
    (hlength : wrAmount + wrOnce ≤ data.length) :
    Stored (writes ++ [(info.nblock * blockSize + wrAmount, part data wrAmount wrOnce)]) info data
      (wrAmount + wrOnce) := by
  intro index hindex
  by_cases hold : index < wrAmount
  · exact h.mono _ index hold
  · have hpart : (part data wrAmount wrOnce).length = wrOnce := length_part hlength
    refine ⟨_, List.mem_append_right _ (List.mem_singleton.mpr rfl), ⟨?_, ?_⟩, ?_⟩
    · dsimp only
      omega
    · dsimp only
      rw [hpart]
      omega
    · have hat : info.nblock * blockSize + index - (info.nblock * blockSize + wrAmount) =
          index - wrAmount := by omega
      dsimp only
      rw [hat, part, List.getElem?_take_of_lt (by omega), List.getElem?_drop,
        Nat.add_sub_of_le (Nat.le_of_not_lt hold)]

namespace Receiving

/-- What the stage of a worker tells about the writes. -/
structure Sound (task : Receiving) (writes : List (Nat × Bytes)) : Prop where
  result : task.result = 0 ∨ task.result = 1 ∨ task.result = -1
  writing {data : Bytes} {wrAmount : Nat} :
    task.stage = .writing data wrAmount → Stored writes task.info data wrAmount
  left {data : Bytes} : task.result ≠ -1 → task.stage = .closing data ∨ task.stage = .closed data →
    Stored writes task.info data task.info.wsize.toNat

/-- The worker is past its calls of `write`, and they have written the block. -/
def Complete (task : Receiving) (writes : List (Nat × Bytes)) : Prop :=
  ∃ data, (task.stage = .closing data ∨ task.stage = .closed data) ∧
    Stored writes task.info data task.info.wsize.toNat

variable {task task' : Receiving}

theorem Complete.written (h : task.Complete writes) : task.Written writes := by
  obtain ⟨data, hstage, hstored⟩ := h
  refine ⟨data, ?_, hstored⟩
  rcases hstage with hstage | hstage
  · rw [hstage]
    rfl
  · rw [hstage]
    rfl

theorem Sound.complete (h : task.Sound writes) (hresult : task.result ≠ -1)
    (hleft : task.stage.Left) : task.Complete writes := by
  obtain ⟨data, hstage⟩ := hleft
  exact ⟨data, hstage, h.left hresult hstage⟩

theorem Sound.mono (h : task.Sound writes) (more : List (Nat × Bytes)) :
    task.Sound (writes ++ more) where
  result := h.result
  writing hstage := (h.writing hstage).mono more
  left hresult hstage := (h.left hresult hstage).mono more

theorem Complete.mono (h : task.Complete writes) (more : List (Nat × Bytes)) :
    task.Complete (writes ++ more) := by
  obtain ⟨data, hstage, hstored⟩ := h
  exact ⟨data, hstage, hstored.mono more⟩

theorem Sound.step (h : task.Sound writes) {event : ReceiveEvent} (hevent : event ≠ .write 0)
    {new : List (Nat × Bytes)} (hstep : ReceiveStep task event task' new) :
    task'.Sound (writes ++ new) := by
  cases hstep with
  | setResult hstage => exact ⟨Or.inr (Or.inl rfl), nofun, nofun⟩
  | connect hstage => exact ⟨h.result, nofun, nofun⟩
  | send hstage => exact ⟨h.result, nofun, nofun⟩
  | receive ack hstage hack => exact ⟨h.result, nofun, nofun⟩
  | openFile data hstage =>
      refine ⟨h.result, fun heq => ?_, nofun⟩
      rw [← (ReceiveStage.writing.inj heq).2]
      exact fun _ hindex => absurd hindex (Nat.not_lt_zero _)
  | fail hfail => exact ⟨Or.inr (Or.inr rfl), nofun, nofun⟩
  | write data wrAmount wrOnce hstage hmore hread hpos hle =>
      refine ⟨h.result, fun heq => ?_, nofun⟩
      obtain ⟨rfl, rfl⟩ := ReceiveStage.writing.inj heq
      exact (h.writing hstage).write (Nat.le_trans hle hread)
  | writeNothing data wrAmount hstage hmore => exact absurd rfl hevent
  | writeFails data wrAmount hstage hmore =>
      exact ⟨Or.inr (Or.inr rfl), nofun, fun hresult => absurd rfl hresult⟩
  | leave data wrAmount hstage hdone =>
      refine ⟨h.result, nofun, fun {data'} _ heq => ?_⟩
      obtain rfl := ReceiveStage.closing.inj (heq.resolve_right nofun)
      rw [List.append_nil]
      intro index hindex
      exact h.writing hstage index (Nat.lt_of_lt_of_le hindex (Nat.le_of_not_lt hdone))
  | close data hstage =>
      refine ⟨h.result, nofun, fun {data'} hresult heq => ?_⟩
      obtain rfl := ReceiveStage.closed.inj (heq.resolve_left nofun)
      rw [List.append_nil]
      exact h.left hresult (Or.inl hstage)

/-- A block that is complete stays so. -/
theorem Complete.step (h : task.Complete writes) {event : ReceiveEvent} {new : List (Nat × Bytes)}
    (hstep : ReceiveStep task event task' new) : task'.Complete (writes ++ new) := by
  obtain ⟨data, hstage, hstored⟩ := h
  -- all that such a worker may still do is to close its file
  have hclosing : ∃ data', task.stage = .closing data' ∧
      task' = { task with stage := .closed data' } ∧ new = [] := by
    cases hstep with
    | fail hfail =>
        rcases hstage with hstage | hstage <;>
        · rw [hstage] at hfail
          exact absurd hfail Bool.false_ne_true
    | close data' hstage' => exact ⟨data', hstage', rfl, rfl⟩
    | _ => simp_all
  obtain ⟨data', hstage', rfl, rfl⟩ := hclosing
  have hdata : data' = data := by
    rcases hstage with hstage | hstage
    · exact ReceiveStage.closing.inj (hstage'.symm.trans hstage)
    · exact absurd (hstage'.symm.trans hstage) nofun
  rw [hdata, List.append_nil]
  exact ⟨data, Or.inr rfl, hstored⟩

end Receiving

end Worker

/-! ## The loop that waits -/

namespace DownloadState

variable {state after : DownloadState}

/-- Whatever the loop has seen to be done is complete. -/
structure Watched (state : DownloadState) : Prop where
  task {task : Receiving} : task ∈ state.tasks → task.Sound state.writes
  polled {i j : Nat} {task : Receiving} : state.stage = .polling i → j < i →
    state.tasks[j]? = some task → task.Complete state.writes
  returned {task : Receiving} : state.stage = .returned true → task ∈ state.tasks →
    task.Complete state.writes

theorem watched_start (infos : List BlockInfo) : (start infos).Watched := by
  refine ⟨fun {task} hmem => ?_, nofun, nofun⟩
  obtain ⟨info, -, rfl⟩ := List.mem_map.mp hmem
  exact ⟨Or.inl rfl, nofun, nofun⟩

/-- Reading the result of a complete block. -/
theorem Watched.read (h : state.Watched) {i : Nat} {task : Receiving}
    (hstage : state.stage = .polling i) (htask : state.tasks[i]? = some task)
    (hwaits : task.result = 1 → task.stage.Left) :
    ({ state with stage := afterRead state.tasks.length i task.result } : DownloadState).Watched := by
  have hsound := h.task (List.mem_of_getElem? htask)
  by_cases hone : task.result = 1
  · have hcomplete : task.Complete state.writes :=
      hsound.complete (by rw [hone]; decide) (hwaits hone)
    have hupto {j : Nat} {other : Receiving} (hj : j ≤ i) (hother : state.tasks[j]? = some other) :
        other.Complete state.writes := by
      rcases Nat.lt_or_eq_of_le hj with hlt | rfl
      · exact h.polled hstage hlt hother
      · rw [← Option.some.inj (htask.symm.trans hother)]
        exact hcomplete
    have hafter : afterRead state.tasks.length i task.result =
        if i + 1 < state.tasks.length then .polling (i + 1) else .returned true := by
      rw [hone]
      rfl
    by_cases hmore : i + 1 < state.tasks.length
    · rw [hafter, if_pos hmore]
      refine ⟨h.task, fun heq hj hother => ?_, nofun⟩
      rw [← GetFileStage.polling.inj heq] at hj
      exact hupto (Nat.le_of_lt_succ hj) hother
    · rw [hafter, if_neg hmore]
      refine ⟨h.task, nofun, fun _ hmem => ?_⟩
      obtain ⟨j, hj, hother⟩ := List.mem_iff_getElem.mp hmem
      exact hupto (by dsimp only at hj; omega) (List.getElem?_eq_some_iff.mpr ⟨hj, hother⟩)
  · rcases hsound.result with hzero | hone' | hminus
    · rw [hzero]
      refine ⟨h.task, fun heq hj => ?_, nofun⟩
      rw [← GetFileStage.polling.inj heq] at hj
      exact absurd hj (Nat.not_lt_zero _)
    · exact absurd hone' hone
    · rw [hminus]
      exact ⟨h.task, nofun, fun heq => absurd (GetFileStage.returned.inj heq) Bool.false_ne_true⟩

/-- A worker takes a step. -/
theorem Watched.work (h : state.Watched) {i : Nat} {event : ReceiveEvent} {task task' : Receiving}
    {new : List (Nat × Bytes)} (htask : state.tasks[i]? = some task) (hevent : event ≠ .write 0)
    (hstep : ReceiveStep task event task' new) :
    ({ state with tasks := state.tasks.set i task', writes := state.writes ++ new } :
      DownloadState).Watched := by
  have hstill {other : Receiving} (hold : other.Complete state.writes) :
      other.Complete (state.writes ++ new) := hold.mono new
  refine ⟨fun {other} hmem => ?_, fun {k j other} hstage hj hother => ?_,
    fun {other} hstage hmem => ?_⟩
  · rcases List.mem_or_eq_of_mem_set hmem with hold | rfl
    · exact (h.task hold).mono new
    · exact (h.task (List.mem_of_getElem? htask)).step hevent hstep
  · dsimp only at hother
    rw [List.getElem?_set] at hother
    split at hother
    next heq =>
      subst heq
      split at hother
      next =>
        rw [← Option.some.inj hother]
        exact (h.polled hstage hj htask).step hstep
      next => exact absurd hother (by simp)
    next => exact hstill (h.polled hstage hj hother)
  · rcases List.mem_or_eq_of_mem_set hmem with hold | rfl
    · exact hstill (h.returned hstage hold)
    · exact (h.returned hstage (List.mem_of_getElem? htask)).step hstep

theorem Watched.step (h : state.Watched) {event : DownloadEvent} (hwaits : state.Waits event)
    (hstep : DownloadStep state event after) : after.Watched := by
  cases hstep with
  | dispatch i task hstage htask hfree =>
      refine ⟨fun {other} hmem => ?_, nofun, nofun⟩
      rcases List.mem_or_eq_of_mem_set hmem with hold | rfl
      · exact h.task hold
      · exact ⟨(h.task (List.mem_of_getElem? htask)).result, nofun, nofun⟩
  | poll hstage =>
      refine ⟨h.task, fun heq hj => ?_, nofun⟩
      rw [← GetFileStage.polling.inj heq] at hj
      exact absurd hj (Nat.not_lt_zero _)
  | read i task hstage htask => exact h.read hstage htask (hwaits i task hstage htask)
  | work i event task task' new htask hstep => exact h.work htask hwaits hstep

theorem invariant_watched : (downloadSystem.restrict Waits).Invariant Watched where
  init hinit := by
    obtain ⟨infos, fileSize, rfl⟩ := hinit
    exact watched_start _
  step h hstep := h.step hstep.1 hstep.2

/-- If the loop reads no `1` of a worker that is still at work, a download that
succeeds has all bytes of all blocks in the local file. -/
theorem written_of_run {events : List DownloadEvent}
    (hrun : (downloadSystem.restrict Waits).Run events state)
    (hreturned : state.stage = .returned true) :
    ∀ task ∈ state.tasks, task.Written state.writes :=
  fun _ hmem => ((invariant_watched.run hrun).returned hreturned hmem).written

/-! ## A file of one byte -/

/-- The block of the file. -/
def oneByte : BlockInfo := ⟨1, 0, 1, []⟩

theorem sized_oneByte : sized [⟨0, 0, 1, []⟩] 1 = [oneByte] := rfl

/-- A download in which the loop waits until the worker is done. -/
def patientDownload : List DownloadEvent :=
  [.dispatch, .poll, .work 0 .setResult, .work 0 .connect, .work 0 .send,
    .work 0 (.receive ((Message.new .block .blockACK).addData [7])), .work 0 .openFile,
    .work 0 (.write 1), .work 0 .leave, .read]

theorem written_of_run_example :
    ∃ state, (downloadSystem.restrict Waits).Run patientDownload state ∧
      state.stage = .returned true ∧ ∃ task ∈ state.tasks, task.Written state.writes := by
  have hrun : (downloadSystem.restrict Waits).Run patientDownload
      ⟨[⟨oneByte, .closing [7], 1⟩], .returned true, [(0, [7])]⟩ := by
    refine ⟨start [oneByte], ⟨[⟨0, 0, 1, []⟩], 1, congrArg start sized_oneByte.symm⟩, ?_⟩
    apply System.Steps.cons
    · exact ⟨trivial, DownloadStep.dispatch 0 ⟨oneByte, .waiting, 0⟩ rfl rfl (by decide)⟩
    apply System.Steps.cons
    · exact ⟨trivial, DownloadStep.poll rfl⟩
    apply System.Steps.cons
    · exact ⟨nofun, DownloadStep.work 0 _ _ _ _ rfl (.setResult rfl)⟩
    apply System.Steps.cons
    · exact ⟨nofun, DownloadStep.work 0 _ _ _ _ rfl (.connect rfl)⟩
    apply System.Steps.cons
    · exact ⟨nofun, DownloadStep.work 0 _ _ _ _ rfl (.send rfl)⟩
    apply System.Steps.cons
    · exact ⟨nofun, DownloadStep.work 0 _ _ _ _ rfl (.receive _ rfl rfl)⟩
    apply System.Steps.cons
    · exact ⟨nofun, DownloadStep.work 0 _ _ _ _ rfl (.openFile _ rfl)⟩
    apply System.Steps.cons
    · exact ⟨nofun, DownloadStep.work 0 _ _ _ _ rfl
        (.write [7] 0 1 rfl (by decide) (by decide) (by decide) (by decide))⟩
    apply System.Steps.cons
    · exact ⟨nofun, DownloadStep.work 0 _ _ _ _ rfl (.leave [7] 1 rfl (by decide))⟩
    apply System.Steps.cons
    · refine ⟨?_, DownloadStep.read 0 _ rfl rfl⟩
      intro i task hstage htask _
      obtain rfl := GetFileStage.polling.inj hstage
      obtain rfl := Option.some.inj htask
      exact ⟨[7], Or.inl rfl⟩
    exact .nil _
  exact ⟨_, hrun, rfl, _, List.mem_singleton.mpr rfl,
    written_of_run hrun rfl _ (List.mem_singleton.mpr rfl)⟩

/-- The loop reads the result of a worker that cannot connect in the end. -/
def hastyDownload : List DownloadEvent :=
  [.dispatch, .poll, .work 0 .setResult, .read, .work 0 .fail]

/-- No worker is left, nothing is written, and the download has succeeded. -/
theorem exists_run_not_written :
    ∃ state, downloadSystem.Run hastyDownload state ∧ state.stage = .returned true ∧
      (∀ task ∈ state.tasks, task.stage.running = false) ∧
      ∃ task ∈ state.tasks, 0 < task.info.wsize.toNat ∧ state.writes = [] ∧
        ¬ task.Written state.writes := by
  have hrun : downloadSystem.Run hastyDownload
      ⟨[⟨oneByte, .failed, -1⟩], .returned true, []⟩ := by
    refine ⟨start [oneByte], ⟨[⟨0, 0, 1, []⟩], 1, congrArg start sized_oneByte.symm⟩, ?_⟩
    apply System.Steps.cons
    · exact DownloadStep.dispatch 0 ⟨oneByte, .waiting, 0⟩ rfl rfl (by decide)
    apply System.Steps.cons
    · exact DownloadStep.poll rfl
    apply System.Steps.cons
    · exact DownloadStep.work 0 _ _ _ _ rfl (.setResult rfl)
    apply System.Steps.cons
    · exact DownloadStep.read 0 _ rfl rfl
    apply System.Steps.cons
    · exact DownloadStep.work 0 _ _ _ _ rfl (.fail rfl)
    exact .nil _
  refine ⟨_, hrun, rfl, List.forall_mem_singleton.mpr rfl, _, List.mem_singleton.mpr rfl,
    by decide, rfl, ?_⟩
  rintro ⟨data, -, hstored⟩
  obtain ⟨write, hmem, -⟩ := hstored 0 (by decide)
  exact absurd hmem List.not_mem_nil

end DownloadState

end Doopey
