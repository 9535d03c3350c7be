import Mathlib.Algebra.Ring.Int.Defs
import Doopey.Common.Socket
import Doopey.Foundation.Buffer

/-!
# The loops over the body of a message

`Socket::send` and `Socket::receive` transfer a body in slices. Here the counters
of the two loops are the unsigned numbers of 64 bits that they are in the code,
and every call may return anything from a failure to what it requested. The two
loops are one loop over different calls, and share its invariant.
-/

namespace Doopey

open Foundation

namespace Socket

/-- What the calls of `write` or `read` in a loop return: the answer to the `n`-th
call, given the size that it requests. -/
abbrev Answers := Nat → UInt64 → Int

/-- The size that is requested after `count` bytes. The sum wraps around. -/
def requested (len count : UInt64) : UInt64 :=
  if count + UInt64.ofNat sliceSize > len then len - count else UInt64.ofNat sliceSize

/-- A call in a loop: the place in the buffer, the size requested, the result. -/
structure SliceCall where
  count : UInt64
  size : UInt64
  ret : Int

/-- What a loop does: whether it goes through (if not, the socket is no longer
connected), the calls that it makes and what they leave behind. -/
structure BodyRun (σ : Type) where
  success : Bool
  calls : List SliceCall
  state : σ

section Loop

variable {σ : Type} (call : Nat → UInt64 → UInt64 → σ → Except Fault (Int × σ)) (len : UInt64)

/-- The second loop of `send` and of `receive`, over the calls that it makes. -/
def bodyLoop : Nat → Nat → UInt64 → σ → Except Fault (BodyRun σ)
  | 0, _, _, _ => .error .divergence
  | fuel + 1, n, count, state => do
      let size := requested len count
      let (ret, state) ← call n count size state
      if ret ≤ 0 then .ok ⟨false, [⟨count, size, ret⟩], state⟩
      else
        let next := count + UInt64.ofInt ret
        if next < len then do
          let run ← bodyLoop fuel (n + 1) next state
          .ok ⟨run.success, ⟨count, size, ret⟩ :: run.calls, run.state⟩
        else .ok ⟨true, [⟨count, size, ret⟩], state⟩

end Loop

/-- `write(_fd, data.data() + count, size)`, which may read all of the `size` bytes. -/
def writeSlice (data : Bytes) (answers : Answers) (n : Nat) (count size : UInt64) (wire : Bytes) :
    Except Fault (Int × Bytes) :=
  if data.length < count.toNat + size.toNat then .error .outOfBounds
  else
    let ret := answers n size
    .ok (ret, wire ++ part data count.toNat ret.toNat)

/-- The buffer of `receive` and what is on the wire still. -/
structure Reading where
  data : Bytes
  wire : Bytes

/-- `read(_fd, data.data() + count, size)`, which may fill all of the `size` bytes, and
returns no more than there is on the wire. -/
def readSlice (answers : Answers) (n : Nat) (count size : UInt64) (state : Reading) :
    Except Fault (Int × Reading) :=
  if state.data.length < count.toNat + size.toNat then .error .outOfBounds
  else
    let ret := min (answers n size) state.wire.length
    .ok (ret, ⟨overwrite state.data count.toNat (state.wire.take ret.toNat),
      state.wire.drop ret.toNat⟩)

/-- The second loop of `Socket::send`: what it writes. -/
def sendSlices (data : Bytes) (answers : Answers) (fuel : Nat) : Except Fault (BodyRun Bytes) :=
  bodyLoop (writeSlice data answers) (UInt64.ofNat data.length) fuel 0 0 []

/-- The second loop of `Socket::receive`, behind `data.resize(len)`. -/
def receiveSlices (len : UInt64) (answers : Answers) (wire : Bytes) (fuel : Nat) :
    Except Fault (BodyRun Reading) :=
  bodyLoop (readSlice answers) len fuel 0 0 ⟨List.replicate len.toNat 0, wire⟩

/-! ## Requests -/

/-- A call inside the slice it may transfer and inside the body. -/
structure Inside (len : Nat) (call : SliceCall) : Prop where
  size_pos : 0 < call.size.toNat
  size_le_slice : call.size.toNat ≤ sliceSize
  count_add_size : call.count.toNat + call.size.toNat ≤ len

variable {len : UInt64}

/-- As long as the sum does not wrap around, the size requested is the one of the
loops over numbers without bounds. -/
theorem toNat_requested (hfit : len.toNat + sliceSize < 2 ^ 64) {count : UInt64}
    (hcount : count.toNat ≤ len.toNat) :
    (requested len count).toNat = slice len.toNat count.toNat := by
  have hslice : (UInt64.ofNat sliceSize).toNat = sliceSize := rfl
  have hsum : (count + UInt64.ofNat sliceSize).toNat = count.toNat + sliceSize := by
    rw [UInt64.toNat_add, hslice, Nat.mod_eq_of_lt (by omega)]
  have hbeyond : count + UInt64.ofNat sliceSize > len ↔ count.toNat + sliceSize > len.toNat := by
    rw [gt_iff_lt, UInt64.lt_iff_toNat_lt, hsum]
  unfold requested slice
  by_cases hlast : count.toNat + sliceSize > len.toNat
  · rw [if_pos hlast, if_pos (hbeyond.mpr hlast)]
    exact UInt64.toNat_sub_of_le _ _ (UInt64.le_iff_toNat_le.mpr hcount)
  · rw [if_neg hlast, if_neg (mt hbeyond.mp hlast), hslice]

theorem slice_le (len count : Nat) : slice len count ≤ sliceSize := by
  unfold slice
  split <;> omega

theorem inside_requested (hfit : len.toNat + sliceSize < 2 ^ 64) {count : UInt64}
    (hcount : count.toNat < len.toNat) (ret : Int) :
    Inside len.toNat ⟨count, requested len count, ret⟩ := by
  have hsize := toNat_requested hfit (Nat.le_of_lt hcount)
  obtain ⟨hpos, hle⟩ := slice_bounds hcount
  have hslice := slice_le len.toNat count.toNat
  rw [← hsize] at hpos hle hslice
  constructor
  · dsimp only
    omega
  · dsimp only
    exact hslice
  · dsimp only
    omega

/-- The next place in the buffer after a call that transferred something. -/
theorem toNat_add_ret {count : UInt64} {ret : Int} (hret : 0 < ret)
    (hsum : count.toNat + ret.toNat < 2 ^ 64) :
    (count + UInt64.ofInt ret).toNat = count.toNat + ret.toNat := by
  have hmod : ret % 2 ^ 64 = ret := Int.emod_eq_of_lt (Int.le_of_lt hret) (by omega)
  rw [UInt64.ofInt, hmod, UInt64.toNat_add, UInt64.toNat_ofNat_of_lt' (show ret.toNat < 2 ^ 64 by omega),
    Nat.mod_eq_of_lt hsum]

/-! ## The invariant of the loop -/

/-- The calls of a loop that has `count` bytes behind it: each is inside the body and
begins where the ones before it ended; together they transfer the rest of the body,
unless one fails, which is then the last. -/
structure BodyRun.Exact {σ : Type} (len count : Nat) (run : BodyRun σ) : Prop where
  inside : ∀ call ∈ run.calls, Inside len call
  begins : ∀ before call after, run.calls = before ++ call :: after →
    (call.count.toNat : Int) = count + (before.map SliceCall.ret).sum
  number : run.calls.length ≤ len - count
  total : run.success = true → count + (run.calls.map SliceCall.ret).sum = len
  failed : ∀ before call after, run.calls = before ++ call :: after → call.ret ≤ 0 →
    after = [] ∧ run.success = false
  stopped : run.success = false → ∃ call ∈ run.calls, call.ret ≤ 0

namespace BodyRun.Exact

variable {σ : Type} {len count : Nat} {call : SliceCall}

/-- The last call fails. -/
theorem of_failed (hinside : Inside len call) (hcount : call.count.toNat = count)
    (hret : call.ret ≤ 0) (state : σ) : Exact len count ⟨false, [call], state⟩ where
  inside := by simpa using hinside
  begins := by
    intro before call' after hcalls
    obtain ⟨rfl, hcalls⟩ | ⟨before, rfl, hcalls⟩ := List.cons_eq_append_iff.mp hcalls
    · obtain ⟨rfl, -⟩ := List.cons_eq_cons.mp hcalls
      simp [hcount]
    · simp at hcalls
  number := by
    have hpos := hinside.size_pos
    have hle := hinside.count_add_size
    simp only [List.length_singleton]
    omega
  total := by simp
  failed := by
    intro before call' after hcalls _
    obtain ⟨-, hcalls⟩ | ⟨before, -, hcalls⟩ := List.cons_eq_append_iff.mp hcalls
    · exact ⟨(List.cons_eq_cons.mp hcalls).2, rfl⟩
    · simp at hcalls
  stopped := fun _ => ⟨call, List.mem_singleton_self _, hret⟩

/-- The last call transfers the rest of the body. -/
theorem of_done (hinside : Inside len call) (hcount : call.count.toNat = count)
    (hret : 0 < call.ret) (hend : count + call.ret = len) (state : σ) :
    Exact len count ⟨true, [call], state⟩ where
  inside := by simpa using hinside
  begins := by
    intro before call' after hcalls
    obtain ⟨rfl, hcalls⟩ | ⟨before, rfl, hcalls⟩ := List.cons_eq_append_iff.mp hcalls
    · obtain ⟨rfl, -⟩ := List.cons_eq_cons.mp hcalls
      simp [hcount]
    · simp at hcalls
  number := by
    simp only [List.length_singleton]
    omega
  total := by simpa using hend
  failed := by
    intro before call' after hcalls hfailed
    obtain ⟨-, hcalls⟩ | ⟨before, -, hcalls⟩ := List.cons_eq_append_iff.mp hcalls
    · obtain ⟨rfl, -⟩ := List.cons_eq_cons.mp hcalls
      omega
    · simp at hcalls
  stopped := by simp

/-- A call that transfers something, in front of the calls that go on behind it. -/
theorem of_next (hinside : Inside len call) (hcount : call.count.toNat = count)
    (hret : 0 < call.ret) (hle : call.ret ≤ call.size.toNat) {run : BodyRun σ}
    (hrun : Exact len (count + call.ret.toNat) run) :
    Exact len count ⟨run.success, call :: run.calls, run.state⟩ where
  inside := List.forall_mem_cons.mpr ⟨hinside, hrun.inside⟩
  begins := by
    intro before call' after hcalls
    obtain ⟨rfl, hcalls⟩ | ⟨before, rfl, hcalls⟩ := List.cons_eq_append_iff.mp hcalls
    · obtain ⟨rfl, -⟩ := List.cons_eq_cons.mp hcalls
      simp [hcount]
    · have hbegins := hrun.begins before call' after (List.cons_eq_cons.mp hcalls).2
      simp only [List.map_cons, List.sum_cons]
      omega
  number := by
    have hnumber := hrun.number
    have hend := hinside.count_add_size
    simp only [List.length_cons]
    omega
  total := by
    intro hsuccess
    have htotal := hrun.total hsuccess
    simp only [List.map_cons, List.sum_cons]
    omega
  failed := by
    intro before call' after hcalls hfailed
    obtain ⟨-, hcalls⟩ | ⟨before, -, hcalls⟩ := List.cons_eq_append_iff.mp hcalls
    · obtain ⟨rfl, -⟩ := List.cons_eq_cons.mp hcalls
      omega
    · exact hrun.failed before call' after hcalls hfailed
  stopped := by
    intro hstopped
    obtain ⟨call', hmem, hfailed⟩ := hrun.stopped hstopped
    exact ⟨call', List.mem_cons_of_mem _ hmem, hfailed⟩

end BodyRun.Exact

section Rule

variable {σ : Type} {call : Nat → UInt64 → UInt64 → σ → Except Fault (Int × σ)}

/-- What the calls of a loop do that keep `inv` of the bytes transferred so far: they
stay inside their buffers and transfer at most what is requested. -/
def Keeps (len : Nat) (call : Nat → UInt64 → UInt64 → σ → Except Fault (Int × σ))
    (inv : Nat → σ → Prop) : Prop :=
  ∀ n count size state, Inside len ⟨count, size, 0⟩ → inv count.toNat state →
    ∃ ret state', call n count size state = .ok (ret, state') ∧ ret ≤ size.toNat ∧
      inv (count.toNat + ret.toNat) state'

/-- Each call of a loop that begins with the `n`-th one returned what it is recorded with. -/
def Answered (call : Nat → UInt64 → UInt64 → σ → Except Fault (Int × σ)) (inv : Nat → σ → Prop)
    (n : Nat) (calls : List SliceCall) : Prop :=
  ∀ i made, calls[i]? = some made → ∃ state state', inv made.count.toNat state ∧
    call (n + i) made.count made.size state = .ok (made.ret, state')

theorem Answered.single {inv : Nat → σ → Prop} {n : Nat} {count size : UInt64} {ret : Int}
    {state state' : σ} (hinv : inv count.toNat state)
    (hcall : call n count size state = .ok (ret, state')) :
    Answered call inv n [⟨count, size, ret⟩] := by
  intro i made hmade
  cases i with
  | zero =>
      obtain rfl := Option.some.inj hmade
      exact ⟨state, state', hinv, hcall⟩
  | succ i => simp at hmade

theorem Answered.cons {inv : Nat → σ → Prop} {n : Nat} {count size : UInt64} {ret : Int}
    {state state' : σ} (hinv : inv count.toNat state)
    (hcall : call n count size state = .ok (ret, state')) {calls : List SliceCall}
    (hcalls : Answered call inv (n + 1) calls) :
    Answered call inv n (⟨count, size, ret⟩ :: calls) := by
  intro i made hmade
  cases i with
  | zero =>
      obtain rfl := Option.some.inj hmade
      exact ⟨state, state', hinv, hcall⟩
  | succ i =>
      have hrest := hcalls i made (by simpa using hmade)
      rwa [Nat.add_right_comm, Nat.add_assoc] at hrest

/-- The loop over calls that keep an invariant: it ends within a call for each byte that is
missing, and the invariant holds of what was transferred. -/
theorem bodyLoop_exact (hfit : len.toNat + sliceSize < 2 ^ 64) {inv : Nat → σ → Prop}
    (hkeeps : Keeps len.toNat call inv) (n : Nat) {count : UInt64} {state : σ}
    (hcount : count.toNat < len.toNat) (hinv : inv count.toNat state) :
    ∃ run, (∀ fuel, len.toNat ≤ count.toNat + fuel →
        bodyLoop call len fuel n count state = .ok run) ∧
      run.Exact len.toNat count.toNat ∧ Answered call inv n run.calls ∧
      ∃ total ≤ len.toNat, inv total run.state ∧ (run.success = true → total = len.toNat) := by
  induction hmissing : len.toNat - count.toNat using Nat.strong_induction_on
    generalizing n count state with
  | _ missing ih =>
      have hinside := inside_requested hfit hcount
      obtain ⟨ret, state', hcall, hle, hinv'⟩ :=
        hkeeps n count (requested len count) state (hinside 0) hinv
      have hend := (hinside ret).count_add_size
      dsimp only at hend
      -- every amount of fuel that is enough is that of at least one more call
      have hfuel {run : BodyRun σ} (hrun : ∀ fuel, len.toNat ≤ count.toNat + (fuel + 1) →
          bodyLoop call len (fuel + 1) n count state = .ok run) (fuel : Nat)
          (henough : len.toNat ≤ count.toNat + fuel) :
          bodyLoop call len fuel n count state = .ok run := by
        cases fuel with
        | zero => omega
        | succ fuel => exact hrun fuel henough
      by_cases hfailed : ret ≤ 0
      · refine ⟨_, hfuel fun fuel _ => ?_, .of_failed (hinside ret) rfl hfailed state',
          .single hinv hcall, _, ?_, hinv', by simp⟩
        · rw [bodyLoop, hcall, ok_bind]
          exact if_pos hfailed
        · omega
      · have hret : 0 < ret := Int.not_le.mp hfailed
        have hnext : (count + UInt64.ofInt ret).toNat = count.toNat + ret.toNat :=
          toNat_add_ret hret (by omega)
        by_cases hmore : count.toNat + ret.toNat < len.toNat
        · rw [← hnext] at hmore hinv'
          obtain ⟨run, hrun, hexact, hanswered, hstate⟩ := ih _ (by omega) (n + 1) hmore hinv' rfl
          rw [hnext] at hrun hexact
          refine ⟨⟨run.success, ⟨count, requested len count, ret⟩ :: run.calls, run.state⟩,
            hfuel fun fuel henough => ?_, .of_next (hinside ret) rfl hret (by dsimp only; exact hle)
              hexact, .cons hinv hcall hanswered, hstate⟩
          rw [bodyLoop, hcall, ok_bind]
          dsimp only
          rw [if_neg hfailed, if_pos (UInt64.lt_iff_toNat_lt.mpr hmore), hrun fuel (by omega), ok_bind]
        · refine ⟨_, hfuel fun fuel _ => ?_, .of_done (hinside ret) rfl hret (by dsimp only; omega)
            state', .single hinv hcall, _, ?_, hinv', fun _ => by omega⟩
          · rw [bodyLoop, hcall, ok_bind]
            dsimp only
            rw [if_neg hfailed, if_neg fun hlt => hmore (by rwa [UInt64.lt_iff_toNat_lt, hnext] at hlt)]
          · omega

/-- If every call transfers something, the loop goes through. -/
theorem success_of_progress {inv : Nat → σ → Prop} {n count len : Nat} {run : BodyRun σ}
    (hexact : run.Exact len count) (hanswered : Answered call inv n run.calls)
    (hprogress : ∀ n count size state ret state', Inside len ⟨count, size, ret⟩ →
      inv count.toNat state → call n count size state = .ok (ret, state') → 0 < ret) :
    run.success = true := by
  by_contra hfailed
  obtain ⟨made, hmade, hret⟩ := hexact.stopped (Bool.eq_false_iff.mpr hfailed)
  obtain ⟨i, hi⟩ := List.mem_iff_getElem?.mp hmade
  obtain ⟨state, state', hinv, hcall⟩ := hanswered i made hi
  have hpos := hprogress _ _ _ state _ state' (hexact.inside made hmade) hinv hcall
  omega

end Rule

/-! ## The two ends -/

/-- No call transfers more than it requests. -/
def Answers.Lawful (answers : Answers) : Prop :=
  ∀ n (size : UInt64), 0 < size.toNat → answers n size ≤ size.toNat

/-- Every call transfers some of what it requests. -/
def Answers.Progress (answers : Answers) : Prop :=
  ∀ n (size : UInt64), 0 < size.toNat → 1 ≤ answers n size

variable {answers : Answers}

/-- The invariant of `send`: what is on the wire is the front of the body. -/
def Sent (data : Bytes) (count : Nat) (wire : Bytes) : Prop := wire = data.take count

theorem keeps_writeSlice (hanswers : answers.Lawful) (data : Bytes) :
    Keeps data.length (writeSlice data answers) (Sent data) := by
  intro n count size wire hinside hsent
  have hend := hinside.count_add_size
  refine ⟨answers n size, _, if_neg (Nat.not_lt.mpr hend), hanswers n size hinside.size_pos, ?_⟩
  rw [Sent, hsent, part, List.take_add]

/-- The invariant of `receive`: the front of the buffer is what was taken off the wire. -/
def Received (len : Nat) (wire : Bytes) (count : Nat) (state : Reading) : Prop :=
  count ≤ wire.length ∧ state.wire = wire.drop count ∧
    state.data = wire.take count ++ List.replicate (len - count) 0

theorem keeps_readSlice (hanswers : answers.Lawful) (len : Nat) (wire : Bytes) :
    Keeps len (readSlice answers) (Received len wire) := by
  intro n count size state hinside hreceived
  obtain ⟨data, left⟩ := state
  obtain ⟨hcount, rfl, rfl⟩ := hreceived
  have hend : count.toNat + size.toNat ≤ len := hinside.count_add_size
  have hle := hanswers n size hinside.size_pos
  have hfront : (wire.take count.toNat).length = count.toNat := List.length_take_of_le hcount
  have hlength : (wire.take count.toNat ++ List.replicate (len - count.toNat) 0).length = len := by
    rw [List.length_append, hfront, List.length_replicate]
    omega
  have hwire : (wire.drop count.toNat).length = wire.length - count.toNat := List.length_drop
  refine ⟨_, _, if_neg (by rw [hlength]; exact Nat.not_lt.mpr hend), by omega, ?_⟩
  generalize hret : (min (answers n size) ((wire.drop count.toNat).length : Int)).toNat = ret
  have hread : ((wire.drop count.toNat).take ret).length = ret := by
    rw [List.length_take, hwire]
    omega
  refine ⟨by omega, List.drop_drop, ?_⟩
  have hwrite := overwrite_append (wire.take count.toNat) (List.replicate (len - count.toNat) 0)
    ((wire.drop count.toNat).take ret)
  rw [hfront, hread, ← List.take_add, List.drop_replicate, Nat.sub_sub] at hwrite
  exact hwrite

/-- The loop of `send` writes the front of the body, and all of it if every call
transfers something. -/
theorem sendSlices_exact (hanswers : answers.Lawful) {data : Bytes} (hpos : 1 ≤ data.length)
    (hfit : data.length + sliceSize < 2 ^ 64) :
    ∃ run, (∀ fuel, data.length ≤ fuel → sendSlices data answers fuel = .ok run) ∧
      run.Exact data.length 0 ∧
      (∀ i call, run.calls[i]? = some call → call.ret = answers i call.size) ∧
      (∃ total ≤ data.length, run.state = data.take total) ∧
      (run.success = true → run.state = data) ∧ (answers.Progress → run.success = true) := by
  have hlen : (UInt64.ofNat data.length).toNat = data.length :=
    UInt64.toNat_ofNat_of_lt' (show data.length < 2 ^ 64 by omega)
  have hloop := fun hfit hkeeps => @bodyLoop_exact (UInt64.ofNat data.length) Bytes
    (writeSlice data answers) hfit (Sent data) hkeeps 0 0 []
  rw [hlen, UInt64.toNat_zero] at hloop
  obtain ⟨run, hrun, hexact, hanswered, total, htotal, hsent, hall⟩ :=
    hloop hfit (keeps_writeSlice hanswers data) hpos rfl
  have hret (n : Nat) (count size : UInt64) (state : Bytes) (ret : Int) (state' : Bytes)
      (hcall : writeSlice data answers n count size state = .ok (ret, state')) :
      ret = answers n size := by
    unfold writeSlice at hcall
    split at hcall
    next => simp at hcall
    next => exact (Prod.mk.inj (Except.ok.inj hcall)).1.symm
  refine ⟨run, fun fuel hfuel => hrun fuel (by omega), hexact, fun i call hcall => ?_,
    ⟨total, htotal, hsent⟩, fun hsuccess => ?_, fun hprogress => ?_⟩
  · obtain ⟨state, state', -, hmade⟩ := hanswered i call hcall
    rw [Nat.zero_add] at hmade
    exact hret i _ _ state _ state' hmade
  · rw [hsent, hall hsuccess, List.take_length]
  · refine success_of_progress hexact hanswered ?_
    intro n count size state ret state' hinside _ hcall
    rw [hret n count size state ret state' hcall]
    exact hprogress n size hinside.size_pos

/-- The loop of `receive` takes no more than the body off the wire, and all of it if
every call transfers something and it is there. -/
theorem receiveSlices_exact (hanswers : answers.Lawful) (hpos : 1 ≤ len.toNat)
    (hfit : len.toNat + sliceSize < 2 ^ 64) (wire : Bytes) :
    ∃ run, (∀ fuel, len.toNat ≤ fuel → receiveSlices len answers wire fuel = .ok run) ∧
      run.Exact len.toNat 0 ∧
      (∀ i call, run.calls[i]? = some call → call.ret = min (answers i call.size)
        ((wire.drop call.count.toNat).length : Int)) ∧
      (∃ total ≤ len.toNat, run.state.wire = wire.drop total) ∧
      (run.success = true →
        len.toNat ≤ wire.length ∧ run.state = ⟨wire.take len.toNat, wire.drop len.toNat⟩) ∧
      (answers.Progress → len.toNat ≤ wire.length → run.success = true) := by
  have hloop := fun hkeeps => @bodyLoop_exact len Reading (readSlice answers) hfit
    (Received len.toNat wire) hkeeps 0 0 ⟨List.replicate len.toNat 0, wire⟩
  rw [UInt64.toNat_zero] at hloop
  obtain ⟨run, hrun, hexact, hanswered, total, htotal, ⟨hle, hwire, hdata⟩, hall⟩ :=
    hloop (keeps_readSlice hanswers len.toNat wire) hpos ⟨by omega, by simp, by simp⟩
  have hret (n : Nat) (count size : UInt64) (state : Reading) (ret : Int) (state' : Reading)
      (hreceived : Received len.toNat wire count.toNat state)
      (hcall : readSlice answers n count size state = .ok (ret, state')) :
      ret = min (answers n size) ((wire.drop count.toNat).length : Int) := by
    unfold readSlice at hcall
    split at hcall
    next => simp at hcall
    next =>
      rw [← hreceived.2.1]
      exact (Prod.mk.inj (Except.ok.inj hcall)).1.symm
  refine ⟨run, fun fuel hfuel => hrun fuel (by omega), hexact, fun i call hcall => ?_,
    ⟨total, htotal, hwire⟩, fun hsuccess => ?_, fun hprogress hlong => ?_⟩
  · obtain ⟨state, state', hreceived, hmade⟩ := hanswered i call hcall
    rw [Nat.zero_add] at hmade
    exact hret i _ _ state _ state' hreceived hmade
  · obtain rfl := hall hsuccess
    rw [Nat.sub_self, List.replicate_zero, List.append_nil] at hdata
    exact ⟨hle, congrArg₂ Reading.mk hdata hwire⟩
  · refine success_of_progress hexact hanswered ?_
    intro n count size state ret state' hinside hreceived hcall
    have hanswer := hprogress n size hinside.size_pos
    have hend : count.toNat + size.toNat ≤ len.toNat := hinside.count_add_size
    have hsize : 0 < size.toNat := hinside.size_pos
    rw [hret n count size state ret state' hreceived hcall, List.length_drop]
    omega

/-- The loops over the body with all that they do: every call requests a part of a slice
inside the body, and a call that fails is the last. When every call transfers something,
the sender writes the bytes of the body and the receiver takes as many off the wire. -/
theorem bodyLoops_exact (hpos : 1 ≤ len.toNat) (hfit : len.toNat + sliceSize < 2 ^ 64)
    (hanswers : answers.Lawful) :
    (∀ data : Bytes, data.length = len.toNat → ∃ run,
      (∀ fuel, len.toNat ≤ fuel → sendSlices data answers fuel = .ok run) ∧
      run.Exact len.toNat 0 ∧
      (∀ i call, run.calls[i]? = some call → call.ret = answers i call.size) ∧
      (answers.Progress → run.success = true ∧ run.state = data)) ∧
    (∀ wire : Bytes, ∃ run,
      (∀ fuel, len.toNat ≤ fuel → receiveSlices len answers wire fuel = .ok run) ∧
      run.Exact len.toNat 0 ∧
      (∀ i call, run.calls[i]? = some call → call.ret = min (answers i call.size)
        ((wire.drop call.count.toNat).length : Int)) ∧
      (∃ total ≤ len.toNat, run.state.wire = wire.drop total) ∧
      (answers.Progress → len.toNat ≤ wire.length →
        run.success = true ∧ run.state = ⟨wire.take len.toNat, wire.drop len.toNat⟩)) := by
  constructor
  · intro data hdata
    obtain ⟨run, hrun, hexact, hret, -, hall, hprogress⟩ :=
      @sendSlices_exact answers hanswers data (by omega) (by omega)
    rw [hdata] at hrun hexact
    exact ⟨run, hrun, hexact, hret, fun h => ⟨hprogress h, hall (hprogress h)⟩⟩
  · intro wire
    obtain ⟨run, hrun, hexact, hret, hwire, hall, hprogress⟩ :=
      receiveSlices_exact hanswers hpos hfit wire
    exact ⟨run, hrun, hexact, hret, hwire,
      fun h hlong => ⟨hprogress h hlong, (hall (hprogress h hlong)).2⟩⟩

/-- A body of three bytes, in calls that yield two bytes at most. -/
theorem bodyLoops_exact_example :
    ∃ run, (∀ fuel, 3 ≤ fuel → sendSlices [7, 8, 9] (fun _ size => min 2 size.toNat) fuel = .ok run) ∧
      run.success = true ∧ run.state = [7, 8, 9] := by
  have hlawful : Answers.Lawful fun _ size => min 2 size.toNat := fun _ _ _ => Int.min_le_right ..
  obtain ⟨run, hrun, -, -, hall⟩ := (@bodyLoops_exact 3 _ (by decide) (by decide)
    hlawful).1 [7, 8, 9] rfl
  refine ⟨run, hrun, hall fun _ size hsize => ?_⟩
  dsimp only
  omega

/-! ## The loops over numbers without bounds -/

/-- What the calls of a schedule return. -/
def answersOf (calls : Calls) : Answers := fun n size => (transfer (calls.drop n) size.toNat).1

theorem lawful_answersOf (calls : Calls) : (answersOf calls).Lawful := by
  intro n size hsize
  obtain ⟨ret, rest, htransfer, -, hle⟩ := transfer_bounds (calls.drop n) hsize
  rw [answersOf, htransfer]
  exact Int.ofNat_le.mpr hle

theorem progress_answersOf (calls : Calls) : (answersOf calls).Progress := by
  intro n size hsize
  obtain ⟨ret, rest, htransfer, hret, -⟩ := transfer_bounds (calls.drop n) hsize
  rw [answersOf, htransfer]
  exact Int.ofNat_le.mpr hret

/-- `sendBody` writes what the loop over numbers of 64 bits writes. -/
theorem sendBody_eq_sendSlices {data : Bytes} (hpos : 1 ≤ data.length)
    (hfit : data.length + sliceSize < 2 ^ 64) (calls : Calls) :
    ∃ run, sendSlices data (answersOf calls) data.length = .ok run ∧
      sendBody data data.length calls 0 = .ok (if run.success then some run.state else none) := by
  obtain ⟨run, hrun, -, -, -, hall, hprogress⟩ :=
    sendSlices_exact (lawful_answersOf calls) hpos hfit
  have hsuccess := hprogress (progress_answersOf calls)
  refine ⟨run, hrun _ (Nat.le_refl _), ?_⟩
  rw [sendBody_eq calls hpos (by omega), if_pos hsuccess, hall hsuccess, List.drop_zero]

/-- `receiveBody` yields what the loop over numbers of 64 bits yields. -/
theorem receiveBody_eq_receiveSlices (hpos : 1 ≤ len.toNat) (hfit : len.toNat + sliceSize < 2 ^ 64)
    (calls : Calls) (wire : Bytes) :
    ∃ run rest, receiveSlices len (answersOf calls) wire len.toNat = .ok run ∧
      receiveBody len.toNat len.toNat calls [] wire =
        .ok (if run.success then some run.state.data else none, rest) ∧
      (run.success = true → rest = run.state.wire) := by
  obtain ⟨run, hrun, -, -, -, hall, hprogress⟩ :=
    receiveSlices_exact (lawful_answersOf calls) hpos hfit wire
  obtain ⟨hends, hbody⟩ := @receiveBody_eq len.toNat len.toNat calls [] wire hpos (by simp)
  rw [List.length_nil, Nat.zero_add] at hends hbody
  by_cases hlong : len.toNat ≤ wire.length
  · have hsuccess := hprogress (progress_answersOf calls) hlong
    have hstate := (hall hsuccess).2
    refine ⟨run, wire.drop len.toNat, hrun _ (Nat.le_refl _), ?_, fun _ => ?_⟩
    · rw [hbody hlong, if_pos hsuccess, hstate, List.nil_append, Nat.sub_zero]
    · rw [hstate]
  · obtain ⟨rest, hnone⟩ := hends (Nat.lt_of_not_le hlong)
    have hfailed : ¬ run.success = true := fun hsuccess => hlong (hall hsuccess).1
    exact ⟨run, rest, hrun _ (Nat.le_refl _), by rw [hnone, if_neg hfailed], fun h => absurd h hfailed⟩

end Socket

end Doopey
