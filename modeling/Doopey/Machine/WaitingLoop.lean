import Doopey.Machine.DownloadRace

/-!
# The loop of a download that waits for its workers

`getFile` looks through the results of its workers again and again until the last
one that it looked at is `1`. Here the counter of the inner loop is the unsigned
number of 32 bits that it is in the code, and the number of blocks one of 64 bits.

Once every worker has left its result, the next round is the last one; but a file
without blocks has no result that the loop could look at, and the counter comes
around before it reaches a number of blocks from 2³² on.
-/

namespace Doopey

open Foundation

namespace Client

section Loop

variable (blockNum : UInt64) (results : List Int)

/-- The `for` loop over the results, from the block `i` on: the last result it looks at,
or nothing if `getFile` returns `false`. -/
def scan : Nat → UInt32 → Int → Except Fault (Option Int)
  | 0, _, _ => .error .divergence
  | fuel + 1, i, finish =>
      if i.toUInt64 < blockNum then
        match results[i.toNat]? with
        | none => .error .outOfBounds
        | some finish =>
            if finish = 0 then .ok (some finish)
            else if finish = -1 then .ok none
            else scan fuel (i + 1) finish
      else .ok (some finish)

/-- The `while` loop around it, for at most `rounds` more rounds: what `getFile` returns. -/
def waitLoop (fuel : Nat) : Nat → Int → Except Fault Bool
  | 0, finish => if finish ≠ 1 then .error .divergence else .ok true
  | rounds + 1, finish =>
      if finish ≠ 1 then do
        let finish ← scan blockNum results fuel 0 finish
        match finish with
        | none => .ok false
        | some finish => waitLoop fuel rounds finish
      else .ok true

end Loop

/-- Where the waiting loop is when the last worker leaves its result. -/
inductive WaitPosition
  /-- A round is over, or none has begun. -/
  | between (finish : Int)
  /-- In a round that has looked at the results in front of the block `i`, all `1`. -/
  | within (i : UInt32)

/-- A position that the loop over `length` results can be at, and has to go on from. -/
def WaitPosition.Waits (length : Nat) : WaitPosition → Prop
  | between finish => finish ≠ 1
  | within i => i.toNat ≤ length ∧ (i = 0 → 2 ^ 32 ≤ length)

/-- The rest of a round, and at most `rounds` more. -/
def resume (blockNum : UInt64) (results : List Int) (fuel rounds : Nat) :
    WaitPosition → Except Fault Bool
  | .between finish => waitLoop blockNum results fuel rounds finish
  | .within i => do
      let finish ← scan blockNum results fuel i 1
      match finish with
      | none => .ok false
      | some finish => waitLoop blockNum results fuel rounds finish

/-- After at most one more round `getFile` returns whether all results are `1`. -/
def Ends (blockNum : UInt64) (results : List Int) (position : WaitPosition) : Prop :=
  ∃ enough, ∀ fuel, enough ≤ fuel →
    resume blockNum results fuel 1 position = .ok (decide (∀ result ∈ results, result = 1))

/-- The counter reaches the number of blocks, or a result that is `-1` before it comes
around. There is a result to look at; and in a round that is not over, one that turned into
`-1` behind the loop is not the only one. -/
def Reaches (results : List Int) : WaitPosition → Prop
  | .between _ => results ≠ [] ∧ (2 ^ 32 ≤ results.length → -1 ∈ results.take (2 ^ 32))
  | .within i =>
      if 2 ^ 32 ≤ results.length then -1 ∈ results.take (2 ^ 32)
      else -1 ∈ results.take i.toNat → -1 ∈ results.drop i.toNat

variable {blockNum : UInt64} {results : List Int}

/-! ## The inner loop -/

section Scan

variable (hlength : results.length = blockNum.toNat)

include hlength

theorem toUInt64_lt_iff {i : Nat} (hi : i < 2 ^ 32) :
    (UInt32.ofNat i).toUInt64 < blockNum ↔ i < results.length := by
  rw [UInt64.lt_iff_toNat_lt, UInt32.toNat_toUInt64, UInt32.toNat_ofNat_of_lt' hi, hlength]

/-- The loop goes on behind a result that is `1`. -/
theorem scan_one {i : Nat} (hi : i < 2 ^ 32) (hresult : results[i]? = some 1) (fuel : Nat)
    (finish : Int) :
    scan blockNum results (fuel + 1) (.ofNat i) finish =
      scan blockNum results fuel (.ofNat (i + 1)) 1 := by
  have hinside : i < results.length := (List.getElem?_eq_some_iff.mp hresult).1
  rw [scan, if_pos ((toUInt64_lt_iff hlength hi).mpr hinside), UInt32.toNat_ofNat_of_lt' hi, hresult]
  dsimp only
  rw [if_neg (by decide), if_neg (by decide), UInt32.ofNat_add]
  rfl

/-- The loop stops at a result that is `-1`. -/
theorem scan_failed {i : Nat} (hi : i < 2 ^ 32) (hresult : results[i]? = some (-1)) (fuel : Nat)
    (finish : Int) : scan blockNum results (fuel + 1) (.ofNat i) finish = .ok none := by
  have hinside : i < results.length := (List.getElem?_eq_some_iff.mp hresult).1
  rw [scan, if_pos ((toUInt64_lt_iff hlength hi).mpr hinside), UInt32.toNat_ofNat_of_lt' hi, hresult]
  rfl

/-- The loop stops behind the last result. -/
theorem scan_end (hfew : results.length < 2 ^ 32) (fuel : Nat) (finish : Int) :
    scan blockNum results (fuel + 1) (.ofNat results.length) finish = .ok (some finish) := by
  rw [scan, if_neg fun hlt => Nat.lt_irrefl _ ((toUInt64_lt_iff hlength hfew).mp hlt)]

/-- Results that are `1` are passed over, each for one unit of fuel. -/
theorem scan_pass {i : Nat} (count fuel : Nat) (finish : Int) (hend : i + count ≤ 2 ^ 32)
    (hresults : ∀ j < count, results[i + j]? = some 1) :
    scan blockNum results (count + fuel) (.ofNat i) finish =
      scan blockNum results fuel (.ofNat (i + count)) (if count = 0 then finish else 1) := by
  induction count generalizing i finish with
  | zero => simp
  | succ count ih =>
      have hrest : ∀ j < count, results[i + 1 + j]? = some 1 := by
        intro j hj
        rw [Nat.add_assoc, Nat.add_comm 1 j]
        exact hresults (j + 1) (Nat.succ_lt_succ hj)
      have hfirst : results[i]? = some 1 := hresults 0 (Nat.succ_pos _)
      rw [Nat.add_right_comm, scan_one hlength (by omega) hfirst,
        ih 1 (by omega) hrest, if_neg (Nat.succ_ne_zero _), ite_self, Nat.add_right_comm i 1]
      rfl

/-- From a result on that is followed by `-1` behind others that are `1`. -/
theorem scan_none {i : Nat} (count : Nat) (hend : i + count < 2 ^ 32)
    (hfailed : results[i + count]? = some (-1)) (hresults : ∀ j < count, results[i + j]? = some 1)
    {fuel : Nat} (hfuel : count < fuel) (finish : Int) :
    scan blockNum results fuel (.ofNat i) finish = .ok none := by
  obtain ⟨rest, rfl⟩ : ∃ rest, fuel = count + (rest + 1) := ⟨fuel - count - 1, by omega⟩
  rw [scan_pass hlength count (rest + 1) finish (by omega) hresults,
    scan_failed hlength hend hfailed]

/-- From a result on that is followed by others that are `1` up to the last one. -/
theorem scan_some (hfew : results.length < 2 ^ 32) {i : Nat} (hi : i ≤ results.length)
    (hresults : ∀ j, i + j < results.length → results[i + j]? = some 1) {fuel : Nat}
    (hfuel : results.length < fuel) (finish : Int) :
    scan blockNum results fuel (.ofNat i) finish =
      .ok (some (if i = results.length then finish else 1)) := by
  obtain ⟨count, hcount⟩ := Nat.exists_eq_add_of_le hi
  obtain ⟨rest, hrest⟩ : ∃ rest, fuel = count + (rest + 1) := ⟨fuel - count - 1, by omega⟩
  rw [hrest, scan_pass hlength count (rest + 1) finish (by omega) fun j hj => hresults j (by omega),
    ← hcount, scan_end hlength hfew]
  have hiff : count = 0 ↔ i = results.length := by omega
  simp only [hiff]

/-- The counter comes around, again and again. -/
theorem scan_diverges (hresults : ∀ j < 2 ^ 32, results[j]? = some 1) (fuel : Nat) (i : UInt32)
    (finish : Int) : scan blockNum results fuel i finish = .error .divergence := by
  induction fuel generalizing i finish with
  | zero => rfl
  | succ fuel ih =>
      have hi : UInt32.ofNat i.toNat = i := UInt32.ofNat_toNat
      rw [← hi, scan_one hlength i.toNat_lt (hresults _ i.toNat_lt), ih]

end Scan

/-! ## Final results -/

/-- Final results are `1` up to the first that is `-1`. -/
theorem exists_first_failed {results : List Int} (hfinal : ∀ result ∈ results, result = 1 ∨ result = -1)
    (hfailed : -1 ∈ results) :
    ∃ count : Nat, results[count]? = some (-1) ∧ ∀ j < count, results[j]? = some 1 := by
  induction results with
  | nil => exact absurd hfailed List.not_mem_nil
  | cons result results ih =>
      rcases hfinal result List.mem_cons_self with rfl | rfl
      · obtain ⟨count, hcount, hbefore⟩ := ih
          (fun other hother => hfinal other (List.mem_cons_of_mem _ hother))
          ((List.mem_cons.mp hfailed).resolve_left (by decide))
        refine ⟨count + 1, by simpa using hcount, fun j hj => ?_⟩
        cases j with
        | zero => rfl
        | succ j => simpa using hbefore j (by omega)
      · exact ⟨0, rfl, by simp⟩

theorem getElem?_of_not_failed {results : List Int}
    (hfinal : ∀ result ∈ results, result = 1 ∨ result = -1) (hnot : -1 ∉ results) {j : Nat}
    (hj : j < results.length) : results[j]? = some 1 := by
  have hmem := List.getElem_mem hj
  rw [List.getElem?_eq_getElem hj]
  rcases hfinal _ hmem with hone | hfailed
  · rw [hone]
  · exact absurd (hfailed ▸ hmem) hnot

theorem forall_one_iff {results : List Int}
    (hfinal : ∀ result ∈ results, result = 1 ∨ result = -1) :
    (∀ result ∈ results, result = 1) ↔ -1 ∉ results := by
  constructor
  · intro hall hfailed
    exact absurd (hall _ hfailed) (by decide)
  · intro hnot result hmem
    apply (hfinal result hmem).resolve_right
    rintro rfl
    exact hnot hmem

/-! ## The outer loop -/

/-- The block that the loop looks at next. -/
def WaitPosition.index : WaitPosition → Nat
  | between _ => 0
  | within i => i.toNat

/-- The result that the loop looked at last. -/
def WaitPosition.finish : WaitPosition → Int
  | between finish => finish
  | within _ => 1

/-- The rounds that are left behind the one that is run through next. -/
def WaitPosition.rounds : WaitPosition → Nat
  | between _ => 0
  | within _ => 1

theorem WaitPosition.Waits.index_le {position : WaitPosition} {length : Nat}
    (hwaits : position.Waits length) : position.index ≤ length := by
  cases position with
  | between finish => exact Nat.zero_le _
  | within i => exact hwaits.1

theorem WaitPosition.index_lt (position : WaitPosition) : position.index < 2 ^ 32 := by
  cases position with
  | between finish => exact Nat.two_pow_pos 32
  | within i => exact i.toNat_lt

/-- In any position the loop goes on with a scan. -/
theorem resume_eq (blockNum : UInt64) (results : List Int) (fuel : Nat) {position : WaitPosition}
    (hwaits : position.Waits results.length) :
    resume blockNum results fuel 1 position = (do
      let finish ← scan blockNum results fuel (.ofNat position.index) position.finish
      match finish with
      | none => .ok false
      | some finish => waitLoop blockNum results fuel position.rounds finish) := by
  cases position with
  | between finish => exact if_pos hwaits
  | within i =>
      rw [WaitPosition.index, UInt32.ofNat_toNat]
      rfl

section Wait

variable (hlength : results.length = blockNum.toNat)
  (hfinal : ∀ result ∈ results, result = 1 ∨ result = -1)

include hlength hfinal

/-- A result that is `-1` and ahead of the counter is found. -/
theorem scan_of_failed (i : Nat) (hfailed : -1 ∈ (results.take (2 ^ 32)).drop i) :
    ∃ enough, ∀ fuel, enough ≤ fuel → ∀ finish,
      scan blockNum results fuel (.ofNat i) finish = .ok none := by
  have hsub : ∀ result ∈ (results.take (2 ^ 32)).drop i, result = 1 ∨ result = -1 :=
    fun result hmem => hfinal result (List.mem_of_mem_take (List.mem_of_mem_drop hmem))
  obtain ⟨count, hcount, hbefore⟩ := exists_first_failed hsub hfailed
  simp only [List.getElem?_drop, List.getElem?_take] at hcount hbefore
  have hend : i + count < 2 ^ 32 := by
    by_contra hend
    rw [if_neg hend] at hcount
    exact absurd hcount (by simp)
  rw [if_pos hend] at hcount
  refine ⟨count + 1, fun fuel hfuel finish =>
    scan_none hlength count hend hcount (fun j hj => ?_) hfuel finish⟩
  have hresult := hbefore j hj
  rwa [if_pos (by omega)] at hresult

/-- If the counter comes around, it comes to every result that it can reach. -/
theorem scan_around (hmany : 2 ^ 32 ≤ results.length) (hfailed : -1 ∈ results.take (2 ^ 32))
    {i : Nat} (hi : i < 2 ^ 32) : ∃ enough, ∀ fuel, enough ≤ fuel → ∀ finish,
      scan blockNum results fuel (.ofNat i) finish = .ok none := by
  by_cases hahead : -1 ∈ (results.take (2 ^ 32)).drop i
  · exact scan_of_failed hlength hfinal i hahead
  · obtain ⟨enough, hscan⟩ := scan_of_failed hlength hfinal 0 (by rwa [List.drop_zero])
    have hpass (j : Nat) (hj : j < 2 ^ 32 - i) : results[i + j]? = some 1 := by
      have hsub : ∀ result ∈ (results.take (2 ^ 32)).drop i, result = 1 ∨ result = -1 :=
        fun result hmem => hfinal result (List.mem_of_mem_take (List.mem_of_mem_drop hmem))
      have hone := getElem?_of_not_failed (j := j) hsub hahead (by
        rw [List.length_drop, List.length_take]
        omega)
      rwa [List.getElem?_drop, List.getElem?_take, if_pos (by omega)] at hone
    have hzero : UInt32.ofNat (i + (2 ^ 32 - i)) = UInt32.ofNat 0 := by
      rw [Nat.add_sub_of_le (by omega)]
      rfl
    refine ⟨2 ^ 32 - i + enough, fun fuel hfuel finish => ?_⟩
    obtain ⟨rest, rfl⟩ : ∃ rest, fuel = 2 ^ 32 - i + rest := ⟨fuel - (2 ^ 32 - i), by omega⟩
    rw [scan_pass hlength (2 ^ 32 - i) rest finish (by omega) hpass, hzero]
    exact hscan rest (by omega) _

/-- What becomes of a scan that goes on from the block `i`. -/
theorem scan_cases {i : Nat} (hi : i ≤ results.length) (hi32 : i < 2 ^ 32) :
    (2 ^ 32 ≤ results.length → -1 ∉ results.take (2 ^ 32) → ∀ fuel finish,
      scan blockNum results fuel (.ofNat i) finish = .error .divergence) ∧
    ((if 2 ^ 32 ≤ results.length then -1 ∈ results.take (2 ^ 32) else -1 ∈ results.drop i) →
      ∃ enough, ∀ fuel, enough ≤ fuel → ∀ finish,
        scan blockNum results fuel (.ofNat i) finish = .ok none) ∧
    (results.length < 2 ^ 32 → -1 ∉ results.drop i → ∃ enough, ∀ fuel, enough ≤ fuel → ∀ finish,
      scan blockNum results fuel (.ofNat i) finish =
        .ok (some (if i = results.length then finish else 1))) := by
  refine ⟨fun hmany hnot fuel finish => ?_, fun hfailed => ?_, fun hfew hnot => ?_⟩
  · refine scan_diverges hlength (fun j hj => ?_) fuel _ finish
    have hone := getElem?_of_not_failed (j := j)
      (fun result hmem => hfinal result (List.mem_of_mem_take hmem)) hnot (by
        rw [List.length_take]
        omega)
    rwa [List.getElem?_take, if_pos hj] at hone
  · split at hfailed
    next hmany => exact scan_around hlength hfinal hmany hfailed hi32
    next hfew =>
      apply scan_of_failed hlength hfinal
      rwa [List.take_of_length_le (by omega)]
  · refine ⟨results.length + 1, fun fuel hfuel finish =>
      scan_some hlength hfew hi (fun j hj => ?_) hfuel finish⟩
    have hone := getElem?_of_not_failed (j := j)
      (fun result hmem => hfinal result (List.mem_of_mem_drop hmem)) hnot (by
        rw [List.length_drop]
        omega)
    rwa [List.getElem?_drop] at hone

omit hlength in
theorem decide_of_failed (hfailed : -1 ∈ results) :
    decide (∀ result ∈ results, result = 1) = false :=
  decide_eq_false fun hall => (forall_one_iff hfinal).mp hall hfailed

omit hlength in
/-- The loop ends with `false` when a scan comes to a result that is `-1`. -/
theorem ends_of_scan_none {position : WaitPosition} (hwaits : position.Waits results.length)
    (hfailed : -1 ∈ results) (hscan : ∃ enough, ∀ fuel, enough ≤ fuel → ∀ finish,
      scan blockNum results fuel (.ofNat position.index) finish = .ok none) :
    Ends blockNum results position := by
  obtain ⟨enough, hscan⟩ := hscan
  refine ⟨enough, fun fuel hfuel => ?_⟩
  rw [resume_eq blockNum results fuel hwaits, hscan fuel hfuel, decide_of_failed hfinal hfailed]
  rfl

/-- The loop over no more results than the counter can reach, when none that is ahead is `-1`. -/
theorem ends_iff_of_scan_some (hfew : results.length < 2 ^ 32) {position : WaitPosition}
    (hwaits : position.Waits results.length) (hahead : -1 ∉ results.drop position.index)
    {enough : Nat} (hscan : ∀ fuel, enough ≤ fuel → ∀ finish,
      scan blockNum results fuel (.ofNat position.index) finish =
        .ok (some (if position.index = results.length then finish else 1))) :
    Ends blockNum results position ↔ Reaches results position := by
  have hmany : ¬ 2 ^ 32 ≤ results.length := Nat.not_le.mpr hfew
  have hresume (fuel : Nat) (hfuel : enough ≤ fuel) : resume blockNum results fuel 1 position =
      waitLoop blockNum results fuel position.rounds
        (if position.index = results.length then position.finish else 1) := by
    rw [resume_eq blockNum results fuel hwaits, hscan fuel hfuel]
    rfl
  cases position with
  | between finish =>
      rw [WaitPosition.index, List.drop_zero] at hahead
      by_cases hnil : results = []
      · -- the last result is still the one from before the round
        refine iff_of_false ?_ fun hreaches => hreaches.1 hnil
        rintro ⟨enough', hends⟩
        have hends := hends (enough + enough') (by omega)
        have hindex : (WaitPosition.between finish).index = results.length := by
          rw [hnil]
          rfl
        rw [hresume _ (by omega), if_pos hindex] at hends
        exact absurd (hends.symm.trans (if_pos hwaits)) (by simp)
      · refine iff_of_true ⟨enough, fun fuel hfuel => ?_⟩ ⟨hnil, fun h => absurd h hmany⟩
        have hpos := List.length_pos_of_ne_nil hnil
        rw [hresume fuel hfuel, WaitPosition.index, if_neg (by omega),
          decide_eq_true ((forall_one_iff hfinal).mpr hahead)]
        rfl
  | within i =>
      have hall : (∀ result ∈ results, result = 1) ↔ Reaches results (.within i) := by
        rw [forall_one_iff hfinal, Reaches, if_neg hmany]
        constructor
        · exact fun hnot hmem => absurd (List.mem_of_mem_take hmem) hnot
        · intro hreaches hmem
          rw [← List.take_append_drop i.toNat results, List.mem_append] at hmem
          exact hahead (hmem.elim hreaches id)
      have hvalue (fuel : Nat) (hfuel : enough ≤ fuel) :
          resume blockNum results fuel 1 (.within i) = .ok true := by
        rw [hresume fuel hfuel, WaitPosition.finish, ite_self]
        rfl
      rw [← hall]
      constructor
      · rintro ⟨enough', hends⟩
        have hends := hends (enough + enough') (by omega)
        rw [hvalue _ (by omega)] at hends
        exact of_decide_eq_true (Except.ok.inj hends).symm
      · intro hone
        exact ⟨enough, fun fuel hfuel => by rw [hvalue fuel hfuel, decide_eq_true hone]⟩

/-- When all results are there, the loop ends as it should, from any position at which it has
to go on, exactly if it reaches what it has to. -/
theorem waitLoop_ends_iff {position : WaitPosition} (hwaits : position.Waits results.length) :
    Ends blockNum results position ↔ Reaches results position := by
  obtain ⟨hdiverges, hnone, hsome⟩ :=
    scan_cases hlength hfinal hwaits.index_le position.index_lt
  by_cases hmany : 2 ^ 32 ≤ results.length
  · have hreaches : Reaches results position ↔ -1 ∈ results.take (2 ^ 32) := by
      cases position with
      | between finish =>
          refine ⟨fun h => h.2 hmany, fun h => ⟨?_, fun _ => h⟩⟩
          exact List.ne_nil_of_mem (List.mem_of_mem_take h)
      | within i => exact iff_of_eq (if_pos hmany)
    rw [hreaches]
    by_cases hfailed : -1 ∈ results.take (2 ^ 32)
    · refine iff_of_true (ends_of_scan_none hfinal hwaits ?_ ?_) hfailed
      · exact List.mem_of_mem_take hfailed
      · exact hnone (by rwa [if_pos hmany])
    · refine iff_of_false ?_ hfailed
      rintro ⟨enough, hends⟩
      have hends := hends enough (Nat.le_refl _)
      rw [resume_eq blockNum results enough hwaits, hdiverges hmany hfailed] at hends
      exact absurd hends (by simp)
  · by_cases hahead : -1 ∈ results.drop position.index
    · have hfailed := List.mem_of_mem_drop hahead
      refine iff_of_true (ends_of_scan_none hfinal hwaits hfailed ?_) ?_
      · exact hnone (by rwa [if_neg hmany])
      · cases position with
        | between finish => exact ⟨List.ne_nil_of_mem hfailed, fun h => absurd h hmany⟩
        | within i => exact (if_neg hmany).mpr fun _ => hahead
    · obtain ⟨enough, hscan⟩ := hsome (by omega) hahead
      exact ends_iff_of_scan_some hlength hfinal (by omega) hwaits hahead hscan

end Wait

/-- One of two blocks could not be received. -/
theorem waitLoop_ends_iff_example : Ends 2 [1, -1] (.between 0) ∧
    resume 2 [1, -1] 3 1 (.between 0) = .ok false := by
  refine ⟨?_, rfl⟩
  refine (waitLoop_ends_iff (by rfl) (by decide) ?_).mpr ⟨by simp, fun h => absurd h (by decide)⟩
  exact (by decide : (0 : Int) ≠ 1)

/-- For a file without blocks, `getFile` waits forever. -/
theorem waitLoop_of_no_blocks : ¬ ∃ fuel rounds ret, waitLoop 0 [] fuel rounds 0 = .ok ret := by
  rintro ⟨fuel, rounds, ret, hrun⟩
  have hwaits : waitLoop 0 [] fuel rounds 0 = .error .divergence := by
    clear hrun
    induction rounds with
    | zero => rfl
    | succ rounds ih =>
        rw [waitLoop, if_pos (by decide)]
        cases fuel with
        | zero => rfl
        | succ fuel => exact ih
  exact absurd (hwaits.symm.trans hrun) (by simp)

end Client

namespace DownloadState

open Client

/-- In the system of the workers and the loop, reading the results that are there leads
`getFile` to what the loop over the results returns. -/
theorem returned_of_polling {state : DownloadState} {i : Nat} (hstage : state.stage = .polling i)
    (hi : i < state.tasks.length)
    (hfinal : ∀ task ∈ state.tasks, task.result = 1 ∨ task.result = -1) :
    ∃ count, downloadSystem.Steps state (List.replicate count .read) { state with
      stage := .returned (decide (∀ task ∈ state.tasks.drop i, task.result = 1)) } := by
  induction hleft : state.tasks.length - i generalizing state i with
  | zero => omega
  | succ left ih =>
      have htask : state.tasks[i]? = some state.tasks[i] := List.getElem?_eq_getElem hi
      have hread := DownloadStep.read i state.tasks[i] hstage htask
      have hdrop := List.drop_eq_getElem_cons hi
      rcases hfinal _ (List.getElem_mem hi) with hone | hfailed
      · rw [hone] at hread
        by_cases hmore : i + 1 < state.tasks.length
        · have hafter : afterRead state.tasks.length i 1 = .polling (i + 1) := if_pos hmore
          rw [hafter] at hread
          obtain ⟨count, hsteps⟩ := @ih { state with stage := .polling (i + 1) } (i + 1) rfl hmore
            hfinal (by dsimp only; omega)
          refine ⟨count + 1, .cons hread ?_⟩
          simpa only [hdrop, List.forall_mem_cons, hone, true_and] using hsteps
        · have hafter : afterRead state.tasks.length i 1 = .returned true := if_neg hmore
          rw [hafter] at hread
          refine ⟨1, .cons hread ?_⟩
          rw [hdrop, List.drop_of_length_le (by omega)]
          simpa [hone] using .nil _
      · rw [hfailed] at hread
        refine ⟨1, .cons hread ?_⟩
        have hnot : ¬ ∀ task ∈ state.tasks.drop i, task.result = 1 := by
          rw [hdrop, List.forall_mem_cons, hfailed]
          exact fun h => absurd h.1 (by decide)
        rw [decide_eq_false hnot]
        exact .nil _

end DownloadState

end Doopey
