import Mathlib.Data.List.Perm.Subperm
import Mathlib.Data.UInt
import Doopey.Block.BlockNet
import Doopey.Foundation.Runs
import Doopey.Network.Router

/-!
# Picking machines for copies

`pickMachineBesideList` draws machines of the routing table at random, with replacement,
and takes those that are neither excluded nor taken yet. Its iterator is put back into
the table in each round, so that the loop is left in the middle only, once enough
machines are taken.
-/

namespace Doopey

open Foundation

/-- The variables of the loop of `pickMachineBesideList`; the iterator is a place in the
table. -/
structure Picking where
  it : Nat
  num : UInt64
  ret : List MachineID

namespace RouterNode

variable (blockReplica : UInt64) (node : RouterNode) (list : List MachineID)

/-- The variables before the loop. -/
def startPicking (num : UInt64) : Picking := ⟨0, num, []⟩

/-- One round with the value of `rand()`. There is no next state if the loop is left. -/
def pickRound (picking : Picking) (rand : Nat) : Except Fault (Option Picking) :=
  let j := rand % node.routingTable.size
  match node.routingTable.keys[j]? with
  | none => .error .outOfBounds
  | some m =>
      -- tested after the iterator has been put back into the table
      if picking.num = 0 ∨ blockReplica < picking.num then .ok none
      else if m ∈ list ∨ m ∈ picking.ret then .ok (some { picking with it := j })
      else .ok (some ⟨j, picking.num - 1, picking.ret ++ [m]⟩)

/-- The loop with the values of `rand()` that it gets; it may need more. -/
def pickLoop (picking : Picking) : List Nat → Except Fault (List MachineID)
  | [] => if picking.it = node.routingTable.size then .ok picking.ret else .error .divergence
  | rand :: rands =>
      if picking.it = node.routingTable.size then .ok picking.ret
      else do
        match ← node.pickRound blockReplica list picking rand with
        | none => .ok picking.ret
        | some picking => pickLoop picking rands

/-- `Router::pickMachineBesideList` -/
def pickMachineBesideList (num : UInt64) (rands : List Nat) : Except Fault (List MachineID) :=
  node.pickLoop blockReplica list (startPicking num) rands

/-- The rounds of a call after which the loop goes on. -/
def rounds (num : UInt64) : System Picking Nat where
  init picking := picking = startPicking num
  step before rand after :=
    before.it ≠ node.routingTable.size ∧
      node.pickRound blockReplica list before rand = .ok (some after)

/-- The state of the loop at the test of its condition. -/
structure Picked (num : UInt64) (picking : Picking) : Prop where
  inside : node.routingTable.size = 0 ∨ picking.it < node.routingTable.size
  nodup : picking.ret.Nodup
  candidates : ∀ m ∈ picking.ret, m ∈ node.routingTable ∧ m ∉ list
  /-- Each machine that is taken is counted. -/
  counted : num ≤ blockReplica → picking.ret.length + picking.num.toNat = num.toNat
  /-- None is taken if there are too many to take. -/
  refused : blockReplica < num → picking.num = num ∧ picking.ret = []

variable {blockReplica node list} {num : UInt64} {picking picking' : Picking} {rand : Nat}

/-- The cases of a round. -/
theorem pickRound_eq_some (hnext : node.pickRound blockReplica list picking rand = .ok (some picking')) :
    ∃ m, node.routingTable.keys[rand % node.routingTable.size]? = some m ∧
      picking.num ≠ 0 ∧ picking.num ≤ blockReplica ∧
      (((m ∈ list ∨ m ∈ picking.ret) ∧
          picking' = { picking with it := rand % node.routingTable.size }) ∨
        (m ∉ list ∧ m ∉ picking.ret ∧
          picking' = ⟨rand % node.routingTable.size, picking.num - 1, picking.ret ++ [m]⟩)) := by
  unfold pickRound at hnext
  dsimp only at hnext
  split at hnext
  next => exact absurd hnext (by simp)
  next m hm =>
    split at hnext
    next => exact absurd (Except.ok.inj hnext) (by simp)
    next hgo =>
      rw [not_or, UInt64.not_lt] at hgo
      refine ⟨m, hm, hgo.1, hgo.2, ?_⟩
      split at hnext
      next hin => exact Or.inl ⟨hin, (Option.some.inj (Except.ok.inj hnext)).symm⟩
      next hnew =>
        rw [not_or] at hnew
        exact Or.inr ⟨hnew.1, hnew.2, (Option.some.inj (Except.ok.inj hnext)).symm⟩

/-- The loop is left when enough machines are taken, or at once. -/
theorem pickRound_eq_none (hleft : node.pickRound blockReplica list picking rand = .ok none) :
    picking.num = 0 ∨ blockReplica < picking.num := by
  unfold pickRound at hleft
  dsimp only at hleft
  split at hleft
  next => exact absurd hleft (by simp)
  next =>
    split at hleft
    next hdone => exact hdone
    next => split at hleft <;> exact absurd (Except.ok.inj hleft) (by simp)

theorem lt_size_of_getElem? {j : Nat} {m : MachineID}
    (hm : node.routingTable.keys[j]? = some m) : j < node.routingTable.size := by
  rw [← Std.TreeMap.length_keys]
  exact (List.getElem?_eq_some_iff.mp hm).1

theorem mem_of_getElem?_keys {j : Nat} {m : MachineID}
    (hm : node.routingTable.keys[j]? = some m) : m ∈ node.routingTable :=
  Std.TreeMap.mem_keys.mp (List.mem_of_getElem? hm)

theorem toNat_pred {n : UInt64} (hne : n ≠ 0) : (n - 1).toNat + 1 = n.toNat := by
  have hpos : 1 ≤ n.toNat := by
    have hzero : n.toNat ≠ 0 := fun h => hne (UInt64.toNat_inj.mp h)
    omega
  have hone : (1 : UInt64) ≤ n := UInt64.le_iff_toNat_le.mpr hpos
  rw [UInt64.toNat_sub_of_le _ _ hone]
  exact Nat.sub_add_cancel hpos

/-- Every round keeps what is said about the state. -/
theorem picked_rounds (num : UInt64) :
    (node.rounds blockReplica list num).Invariant (node.Picked blockReplica list num) where
  init := by
    rintro picking rfl
    refine ⟨?_, List.nodup_nil, by simp [startPicking], fun _ => Nat.zero_add _, fun _ => ⟨rfl, rfl⟩⟩
    exact Nat.eq_zero_or_pos _
  step := by
    rintro before after rand h ⟨-, hnext⟩
    obtain ⟨m, hm, hne, hle, ⟨-, rfl⟩ | ⟨hlist, hret, rfl⟩⟩ := pickRound_eq_some hnext
    · exact ⟨Or.inr (lt_size_of_getElem? hm), h.nodup, h.candidates, h.counted, h.refused⟩
    · refine ⟨Or.inr (lt_size_of_getElem? hm), ?_, ?_, fun hnum => ?_, fun hnum => ?_⟩
      · rw [List.nodup_append]
        exact ⟨h.nodup, List.nodup_singleton m, by simp; rintro a ha rfl; exact hret ha⟩
      · intro other hmem
        rcases List.mem_append.mp hmem with hold | hnew
        · exact h.candidates other hold
        · rw [List.mem_singleton.mp hnew]
          exact ⟨mem_of_getElem?_keys hm, hlist⟩
      · have hcounted := h.counted hnum
        have hpred := toNat_pred hne
        dsimp only
        rw [List.length_append, List.length_singleton]
        omega
      · exact absurd ((h.refused hnum).1 ▸ hle) (UInt64.not_le.mpr hnum)

/-- A loop that is left has come to a state in which it is left. -/
theorem steps_of_pickLoop {rands : List Nat} {ret : List MachineID}
    (hrun : node.pickLoop blockReplica list picking rands = .ok ret) :
    ∃ used last, used <+: rands ∧ (node.rounds blockReplica list num).Steps picking used last ∧
      last.ret = ret ∧
      (last.it = node.routingTable.size ∨ last.num = 0 ∨ blockReplica < last.num) := by
  induction rands generalizing picking with
  | nil =>
      unfold pickLoop at hrun
      split at hrun
      next hend => exact ⟨[], picking, List.nil_prefix, .nil _, Except.ok.inj hrun, Or.inl hend⟩
      next => exact absurd hrun (by simp)
  | cons rand rands ih =>
      unfold pickLoop at hrun
      split at hrun
      next hend => exact ⟨[], picking, List.nil_prefix, .nil _, Except.ok.inj hrun, Or.inl hend⟩
      next hgo =>
        obtain ⟨next, hround, hrun⟩ := bind_eq_ok_iff.mp hrun
        cases next with
        | none =>
            exact ⟨[], picking, List.nil_prefix, .nil _, Except.ok.inj hrun,
              Or.inr (pickRound_eq_none hround)⟩
        | some after =>
            obtain ⟨used, last, hused, hsteps, hret, hlast⟩ := ih hrun
            exact ⟨rand :: used, last, List.cons_prefix_cons.mpr ⟨rfl, hused⟩,
              .cons ⟨hgo, hround⟩ hsteps, hret, hlast⟩

theorem size_pos_of_mem {m : MachineID} (hm : m ∈ node.routingTable) :
    0 < node.routingTable.size := by
  rw [← Std.TreeMap.length_keys]
  exact List.length_pos_of_mem (Std.TreeMap.mem_keys.mpr hm)

/-- With a table the loop is left only in the middle. -/
theorem Picked.num_eq_zero (h : node.Picked blockReplica list num picking)
    (htable : 0 < node.routingTable.size) (hnum : num ≤ blockReplica)
    (hleft : picking.it = node.routingTable.size ∨ picking.num = 0 ∨ blockReplica < picking.num) :
    picking.num = 0 := by
  rcases hleft with hend | hzero | hmany
  · rcases h.inside with hempty | hinside
    · exact absurd hempty (Nat.ne_of_gt htable)
    · exact absurd hend (Nat.ne_of_lt hinside)
  · exact hzero
  · have hcounted := h.counted hnum
    have hbound := UInt64.le_iff_toNat_le.mp hnum
    have hlt := UInt64.lt_iff_toNat_lt.mp hmany
    omega

/-- A difference that is wrapped around is too large. -/
theorem lt_of_wrapped {size : Nat} (hsize : size < 2 ^ 64) (hmany : blockReplica.toNat < size) :
    blockReplica < blockReplica - .ofNat size := by
  rw [UInt64.lt_iff_toNat_lt, UInt64.toNat_sub, UInt64.toNat_ofNat', Nat.mod_eq_of_lt hsize]
  have hreplica := blockReplica.toNat_lt
  omega

/-- The machines that are picked are different ones of the table that are not excluded.
They are as many as asked for, if there is a table and they are not too many, as they are
where more machines have the block than should. -/
theorem pickMachineBesideList_sound {rands : List Nat} {ret : List MachineID}
    (hrun : node.pickMachineBesideList blockReplica list num rands = .ok ret) :
    ret.Nodup ∧ (∀ m ∈ ret, m ∈ node.routingTable) ∧ (∀ m ∈ ret, m ∉ list) ∧
      (ret.length = if 0 < node.routingTable.size ∧ num ≤ blockReplica then num.toNat else 0) ∧
      ∀ size : Nat, size < 2 ^ 64 → blockReplica.toNat < size →
        num = blockReplica - .ofNat size → ret = [] := by
  obtain ⟨used, last, -, hsteps, rfl, hlast⟩ :=
    @steps_of_pickLoop blockReplica node list num _ _ _ hrun
  have h := (picked_rounds num).run ⟨_, rfl, hsteps⟩
  refine ⟨h.nodup, fun m hm => (h.candidates m hm).1, fun m hm => (h.candidates m hm).2, ?_, ?_⟩
  · by_cases htable : 0 < node.routingTable.size
    · by_cases hnum : num ≤ blockReplica
      · have hcounted := h.counted hnum
        rw [h.num_eq_zero htable hnum hlast] at hcounted
        rw [if_pos ⟨htable, hnum⟩]
        exact hcounted
      · rw [if_neg (fun h => hnum h.2), (h.refused (UInt64.not_le.mp hnum)).2]
        rfl
    · rw [if_neg (fun h => htable h.1), List.length_eq_zero_iff, List.eq_nil_iff_forall_not_mem]
      exact fun m hm => htable (size_pos_of_mem (h.candidates m hm).1)
  · intro size hsize hmany hwrapped
    exact (h.refused (hwrapped ▸ lt_of_wrapped hsize hmany)).2

/-- Three of five machines are taken; two are excluded, and one is drawn twice. -/
theorem pickMachineBesideList_sound_example : ∃ ret,
    (addEntries [0] [(2, ⟨[2], 1⟩), (3, ⟨[3], 1⟩), (4, ⟨[4], 1⟩), (5, ⟨[5], 1⟩), (6, ⟨[6], 1⟩)]
      (new 1)).pickMachineBesideList 3 [3, 5] 3 [2, 8, 7, 2, 5, 9, 0] = .ok ret ∧
      ret.Nodup ∧ ret.length = 3 := by
  refine ⟨_, rfl, ?_⟩
  obtain ⟨hnodup, -, -, hlength, -⟩ := @pickMachineBesideList_sound 3
    (addEntries [0] [(2, ⟨[2], 1⟩), (3, ⟨[3], 1⟩), (4, ⟨[4], 1⟩), (5, ⟨[5], 1⟩), (6, ⟨[6], 1⟩)]
      (new 1)) [3, 5] 3 [2, 8, 7, 2, 5, 9, 0] _ rfl
  exact ⟨hnodup, hlength⟩

/-- Functions whose results are picked on a machine that is not in its own table pick as
`handleDoReplica` expects it. -/
theorem picks_of_pickMachineBesideList {me : MachineID} (hme : me ∉ node.routingTable)
    {pick : List MachineID → UInt64 → List MachineID}
    (hpick : ∀ list num, ∃ rands,
      node.pickMachineBesideList blockReplica list num rands = .ok (pick list num)) :
    Picks blockReplica me pick := by
  intro list num
  obtain ⟨rands, hrun⟩ := hpick list num
  obtain ⟨hnodup, htable, hlist, hlength, -⟩ := pickMachineBesideList_sound hrun
  refine ⟨hnodup, fun m hm => ⟨hlist m hm, fun heq => hme (heq ▸ htable m hm)⟩, ?_, fun hmany => ?_⟩
  · rw [hlength]
    split
    next => exact Nat.le_refl _
    next => exact Nat.zero_le _
  · rw [if_neg (fun h => UInt64.not_le.mpr hmany h.2)] at hlength
    exact List.length_eq_zero_iff.mp hlength

/-! ## Drawing until enough machines are taken -/

variable (blockReplica node list)

/-- The machines of a list that are not excluded. -/
def beside (machines : List MachineID) : List MachineID := machines.filter (· ∉ list)

/-- From every state that the loop may come to, there are further values of `rand()` that
end it. If fewer machines than asked for are not excluded, all of these are returned. -/
def AlwaysFinishes (randMax : Nat) (num : UInt64) : Prop :=
  ∀ rands picking,
    ((node.rounds blockReplica list num).restrict fun _ rand => rand ≤ randMax).Run rands picking →
    ∃ more ret, (∀ rand ∈ more, rand ≤ randMax) ∧
      node.pickLoop blockReplica list picking more = .ok ret ∧
      ((beside list node.routingTable.keys).length < num.toNat →
        ret.Perm (beside list node.routingTable.keys))

variable {blockReplica node list} {randMax : Nat}

theorem mem_beside {machines : List MachineID} {m : MachineID} :
    m ∈ beside list machines ↔ m ∈ machines ∧ m ∉ list := by
  rw [beside, List.mem_filter, decide_eq_true_iff]

/-- A machine that is taken is at a place of the table that can be drawn. -/
theorem drawn_rounds : ((node.rounds blockReplica list num).restrict
    fun _ rand => rand ≤ randMax).Invariant
      fun picking => picking.ret ⊆ node.routingTable.keys.take (randMax + 1) where
  init := by
    rintro picking rfl
    exact List.nil_subset _
  step := by
    rintro before after rand h ⟨hrand, -, hnext⟩
    obtain ⟨m, hm, -, -, ⟨-, rfl⟩ | ⟨-, -, rfl⟩⟩ := pickRound_eq_some hnext
    · exact h
    · refine List.append_subset.mpr ⟨h, fun other hmem => ?_⟩
      have hplace : rand % node.routingTable.size < randMax + 1 :=
        Nat.lt_succ_of_le ((Nat.mod_le _ _).trans hrand)
      rw [List.mem_singleton.mp hmem]
      exact List.mem_of_getElem? ((List.getElem?_take_of_lt hplace).trans hm)

/-- What is taken so far are some of the machines that can be drawn. -/
theorem Picked.length_le (h : node.Picked blockReplica list num picking)
    (hdrawn : picking.ret ⊆ node.routingTable.keys.take (randMax + 1)) :
    picking.ret.length ≤ (beside list (node.routingTable.keys.take (randMax + 1))).length := by
  refine (List.subperm_of_subset h.nodup fun m hm => ?_).length_le
  exact mem_beside.mpr ⟨hdrawn hm, (h.candidates m hm).2⟩

/-- A value that takes one more machine. -/
theorem exists_draw {want : Nat}
    (hless : picking.ret.length < (beside list (node.routingTable.keys.take (randMax + 1))).length)
    (hnum : picking.num ≤ blockReplica) (hwant : picking.num.toNat = want + 1) :
    ∃ rand after, rand ≤ randMax ∧
      node.pickRound blockReplica list picking rand = .ok (some after) ∧
      after.num.toNat = want ∧ after.ret.length = picking.ret.length + 1 := by
  -- fewer are taken than could be drawn, so one of these is new
  obtain ⟨m, hm, hnew⟩ : ∃ m ∈ beside list (node.routingTable.keys.take (randMax + 1)),
      m ∉ picking.ret := by
    by_contra hall
    have hsubset : beside list (node.routingTable.keys.take (randMax + 1)) ⊆ picking.ret := by
      intro m hm
      by_contra hnew
      exact hall ⟨m, hm, hnew⟩
    have hnodup : (beside list (node.routingTable.keys.take (randMax + 1))).Nodup :=
      (Std.TreeMap.nodup_keys.sublist (List.take_sublist _ _)).sublist List.filter_sublist
    exact absurd (List.subperm_of_subset hnodup hsubset).length_le (Nat.not_le.mpr hless)
  obtain ⟨htake, hlist⟩ := mem_beside.mp hm
  obtain ⟨j, hj, hget⟩ := List.mem_iff_getElem.mp htake
  rw [List.length_take] at hj
  rw [List.getElem_take] at hget
  have hplace : node.routingTable.keys[j]? = some m := by
    rw [List.getElem?_eq_getElem (by omega), hget]
  have hne : picking.num ≠ 0 := by
    rintro hzero
    rw [hzero] at hwant
    exact absurd hwant (by simp)
  refine ⟨j, ⟨j, picking.num - 1, picking.ret ++ [m]⟩, by omega, ?_, ?_, by simp⟩
  · unfold pickRound
    rw [Nat.mod_eq_of_lt (lt_size_of_getElem? hplace)]
    dsimp only
    rw [hplace]
    dsimp only
    rw [if_neg (not_or.mpr ⟨hne, UInt64.not_lt.mpr hnum⟩), if_neg (not_or.mpr ⟨hlist, hnew⟩)]
  · have hpred := toNat_pred hne
    dsimp only
    omega

/-- When all are taken, any value ends the loop. -/
theorem pickRound_of_num_eq_zero (htable : 0 < node.routingTable.size) (hnum : picking.num = 0)
    (rand : Nat) : node.pickRound blockReplica list picking rand = .ok none := by
  have hplace : rand % node.routingTable.size < node.routingTable.keys.length := by
    rw [Std.TreeMap.length_keys]
    exact Nat.mod_lt _ htable
  unfold pickRound
  dsimp only
  rw [List.getElem?_eq_getElem hplace]
  dsimp only
  rw [if_pos (Or.inl hnum)]

theorem Picked.it_ne_size (h : node.Picked blockReplica list num picking)
    (htable : 0 < node.routingTable.size) : picking.it ≠ node.routingTable.size := by
  rcases h.inside with hempty | hinside
  · exact absurd hempty (Nat.ne_of_gt htable)
  · exact Nat.ne_of_lt hinside

/-- With enough machines that can be drawn the loop can be ended. -/
theorem Picked.finishes {want : Nat} (h : node.Picked blockReplica list num picking)
    (htable : 0 < node.routingTable.size) (hnum : num ≤ blockReplica)
    (hwant : picking.num.toNat = want)
    (henough : picking.ret.length + want ≤
      (beside list (node.routingTable.keys.take (randMax + 1))).length ∨ want = 0) :
    ∃ more ret, (∀ rand ∈ more, rand ≤ randMax) ∧
      node.pickLoop blockReplica list picking more = .ok ret := by
  induction want generalizing picking with
  | zero =>
      have hround := @pickRound_of_num_eq_zero blockReplica node list picking htable
        (UInt64.toNat_inj.mp hwant) 0
      refine ⟨[0], picking.ret, by simp, ?_⟩
      rw [pickLoop, if_neg (h.it_ne_size htable), hround, ok_bind]
  | succ want ih =>
      have hless : picking.ret.length + (want + 1) ≤
          (beside list (node.routingTable.keys.take (randMax + 1))).length :=
        henough.resolve_right (Nat.succ_ne_zero want)
      have hcounted := h.counted hnum
      have hbound := UInt64.le_iff_toNat_le.mp hnum
      have hfew : picking.num ≤ blockReplica := UInt64.le_iff_toNat_le.mpr (by omega)
      have hroom : picking.ret.length <
          (beside list (node.routingTable.keys.take (randMax + 1))).length := by omega
      -- one more machine is taken, and one less is wanted
      obtain ⟨rand, after, hrand, hround, hafter, hlength⟩ := exists_draw hroom hfew hwant
      have hstep : (node.rounds blockReplica list num).step picking rand after :=
        ⟨h.it_ne_size htable, hround⟩
      obtain ⟨more, ret, hmore, hrun⟩ := ih ((picked_rounds num).step h hstep) hafter
        (Or.inl (by omega))
      refine ⟨rand :: more, ret, List.forall_mem_cons.mpr ⟨hrand, hmore⟩, ?_⟩
      rw [pickLoop, if_neg (h.it_ne_size htable), hround, ok_bind]
      exact hrun

/-- A loop that can be ended finds enough machines that are not excluded. -/
theorem AlwaysFinishes.enough (hfinishes : node.AlwaysFinishes blockReplica list randMax num)
    (hnum : num ≤ blockReplica) :
    node.routingTable.size = 0 ∨ num = 0 ∨
      num.toNat ≤ (beside list (node.routingTable.keys.take (randMax + 1))).length := by
  obtain ⟨more, ret, hmore, hrun, -⟩ := hfinishes [] (startPicking num) ⟨_, rfl, .nil _⟩
  obtain ⟨used, last, hused, hsteps, -, hlast⟩ := @steps_of_pickLoop _ _ _ num _ _ _ hrun
  have h := (picked_rounds num).run ⟨_, rfl, hsteps⟩
  have hdrawn := drawn_rounds.run ⟨_, rfl, hsteps.restrict fun rand hrand _ =>
    hmore rand (hused.subset hrand)⟩
  rcases Nat.eq_zero_or_pos node.routingTable.size with hempty | htable
  · exact Or.inl hempty
  · have hcounted := h.counted hnum
    rw [h.num_eq_zero htable hnum hlast] at hcounted
    refine Or.inr (Or.inr ?_)
    rw [← hcounted]
    exact h.length_le hdrawn

/-- The loop can always be ended exactly if there is no table, none is asked for, or enough
machines that can be drawn are not excluded. -/
theorem alwaysFinishes_iff (hnum : num ≤ blockReplica) :
    node.AlwaysFinishes blockReplica list randMax num ↔
      node.routingTable.size = 0 ∨ num = 0 ∨
        num.toNat ≤ (beside list (node.routingTable.keys.take (randMax + 1))).length := by
  refine ⟨fun hfinishes => hfinishes.enough hnum, fun hcond rands picking hrun => ?_⟩
  have h := ((picked_rounds num).restrict _).run hrun
  rcases Nat.eq_zero_or_pos node.routingTable.size with hempty | htable
  · -- the loop is not even entered
    obtain ⟨start, rfl, hsteps⟩ := hrun
    cases hsteps with
    | cons hstep _ => exact absurd hempty.symm hstep.2.1
    | nil =>
        have hkeys : node.routingTable.keys = [] := by
          rw [← List.length_eq_zero_iff, Std.TreeMap.length_keys, hempty]
        refine ⟨[], [], by simp, if_pos hempty.symm, fun _ => ?_⟩
        rw [hkeys]
        exact List.Perm.nil
  · have hcounted := h.counted hnum
    have henough : picking.ret.length + picking.num.toNat ≤
        (beside list (node.routingTable.keys.take (randMax + 1))).length ∨
          picking.num.toNat = 0 := by
      rcases hcond with hempty | rfl | henough
      · exact absurd hempty (Nat.ne_of_gt htable)
      · exact Or.inr (Nat.eq_zero_of_add_eq_zero_left hcounted)
      · exact Or.inl (hcounted ▸ henough)
    obtain ⟨more, ret, hmore, hfinish⟩ := h.finishes htable hnum rfl henough
    refine ⟨more, ret, hmore, hfinish, fun hfew => ?_⟩
    -- with enough machines there are not fewer than asked for
    have hdrawn : (beside list (node.routingTable.keys.take (randMax + 1))).length ≤
        (beside list node.routingTable.keys).length :=
      ((List.take_sublist _ _).filter _).length_le
    rcases hcond with hempty | rfl | henough
    · exact absurd hempty (Nat.ne_of_gt htable)
    · exact absurd hfew (Nat.not_lt_zero _)
    · exact absurd (henough.trans hdrawn) (Nat.not_le.mpr hfew)

/-- Two of three machines are asked for, and one of the three is excluded. -/
theorem alwaysFinishes_iff_example :
    (addEntries [0] [(2, ⟨[2], 1⟩), (3, ⟨[3], 1⟩), (4, ⟨[4], 1⟩)] (new 1)).AlwaysFinishes 2 [3]
      2147483647 2 := by
  refine (@alwaysFinishes_iff 2
    (addEntries [0] [(2, ⟨[2], 1⟩), (3, ⟨[3], 1⟩), (4, ⟨[4], 1⟩)] (new 1)) [3] 2 2147483647
    (by decide)).mpr (Or.inr (Or.inr ?_))
  decide

/-- A machine that knows only one other one looks for a second copy beside that one. -/
theorem not_alwaysFinishes_excluded :
    ¬ (addEntries [0] [(2, ⟨[2], 1⟩)] (new 1)).AlwaysFinishes 2 [2] 2147483647 1 := by
  intro hfinishes
  rcases hfinishes.enough (by decide) with hempty | hnone | henough
  · exact absurd hempty (by decide)
  · exact absurd hnone (by decide)
  · exact absurd henough (by decide)

end RouterNode

end Doopey
