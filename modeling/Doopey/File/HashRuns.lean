import Mathlib.Data.List.Induction
import Doopey.File.HashList
import Doopey.Foundation.Except

/-!
# The hash table over whole sequences of calls

What a sequence of calls should return is said by a map from keys to values. The table
returns it, whatever the hash, exactly if every `remove` finds its key among the first two
items of the chain, or finds a single item there.
-/

namespace Doopey

open Foundation

/-- A call of a member function of `HashList`. -/
inductive HashCall (K V : Type)
  | add (key : K) (value : V)
  | remove (key : K)
  | getValue (key : K)

/-- What it returns. -/
inductive HashResult (V : Type)
  | done (result : Bool)
  | value (value : V)

namespace HashCall

variable {K V : Type} [DecidableEq K]

/-- The map after a call. -/
def update (map : K → Option V) : HashCall K V → K → Option V
  | add key value => Function.update map key (some value)
  | remove key => Function.update map key none
  | getValue _ => map

/-- What the map answers to a call. -/
def answer [Inhabited V] (map : K → Option V) : HashCall K V → HashResult V
  | add _ _ => .done true
  | remove key => .done (map key).isSome
  | getValue key => .value ((map key).getD default)

def answers [Inhabited V] : (K → Option V) → List (HashCall K V) → List (HashResult V)
  | _, [] => []
  | map, call :: calls => call.answer map :: answers (call.update map) calls

/-- Only keys that the map does not have are added. -/
def Fresh : (K → Option V) → List (HashCall K V) → Prop
  | _, [] => True
  | map, call :: calls =>
      (∀ key value, call = add key value → map key = none) ∧ Fresh (call.update map) calls

/-- The value was added with the key, which was neither removed nor added afterwards. -/
def LastAdded (calls : List (HashCall K V)) (key : K) (value : V) : Prop :=
  ∃ before after, calls = before ++ add key value :: after ∧
    ∀ call ∈ after, call ≠ remove key ∧ ∀ other, call ≠ add key other

theorem update_of_forall_ne {map : K → Option V} {call : HashCall K V} {key : K}
    (hne : call ≠ remove key ∧ ∀ other, call ≠ add key other) : call.update map key = map key := by
  cases call with
  | add key' value =>
      apply Function.update_of_ne
      rintro rfl
      exact hne.2 value rfl
  | remove key' =>
      apply Function.update_of_ne
      rintro rfl
      exact hne.1 rfl
  | getValue key' => rfl

omit [DecidableEq K] in
/-- One more call: it adds the value, or leaves the key alone. -/
theorem lastAdded_concat_iff {calls : List (HashCall K V)} {call : HashCall K V} {key : K}
    {value : V} : LastAdded (calls ++ [call]) key value ↔ call = add key value ∨
      (call ≠ remove key ∧ ∀ other, call ≠ add key other) ∧ LastAdded calls key value := by
  constructor
  · rintro ⟨before, after, heq, hafter⟩
    -- the call that adds the value is the new one, or the new one comes behind it
    rcases List.eq_nil_or_concat after with rfl | ⟨after, last, rfl⟩
    · exact Or.inl (List.singleton_inj.mp (List.append_inj' heq rfl).2)
    · rw [List.concat_eq_append] at heq hafter
      obtain ⟨rfl, hlast⟩ := List.append_inj' (heq.trans (List.append_assoc before (_ :: after) _).symm) rfl
      obtain rfl := List.singleton_inj.mp hlast
      exact Or.inr ⟨hafter call (List.mem_append_right _ (List.mem_singleton_self _)), before, after,
        rfl, fun other hmem => hafter other (List.mem_append_left _ hmem)⟩
  · rintro (rfl | ⟨hcall, before, after, rfl, hafter⟩)
    · exact ⟨calls, [], rfl, fun call hmem => absurd hmem List.not_mem_nil⟩
    · refine ⟨before, after ++ [call], by simp, fun other hmem => ?_⟩
      rcases List.mem_append.mp hmem with hmem | hmem
      · exact hafter other hmem
      · rw [List.mem_singleton.mp hmem]
        exact hcall

theorem foldl_update_eq_some_iff {calls : List (HashCall K V)} {key : K} {value : V} :
    calls.foldl update (fun _ => none) key = some value ↔ LastAdded calls key value := by
  induction calls using List.reverseRecOn with
  | nil =>
      refine iff_of_false (Option.some_ne_none value).symm ?_
      rintro ⟨before, after, heq, -⟩
      exact absurd heq.symm (List.append_ne_nil_of_right_ne_nil _ (List.cons_ne_nil _ _))
  | append_singleton calls call ih =>
      rw [List.foldl_append, List.foldl_cons, List.foldl_nil, lastAdded_concat_iff, ← ih]
      by_cases hadd : ∃ other, call = add key other
      · obtain ⟨other, rfl⟩ := hadd
        simp [update]
      · by_cases hremove : call = remove key
        · subst hremove
          simp [update]
        · have hne : call ≠ remove key ∧ ∀ other, call ≠ add key other :=
            ⟨hremove, fun other heq => hadd ⟨other, heq⟩⟩
          rw [update_of_forall_ne hne]
          exact (or_iff_right (hne.2 value)).symm.trans (or_congr_right (and_iff_right hne).symm)

end HashCall

namespace HashList

variable {K V : Type} [DecidableEq K]

def call [Inhabited V] (table : HashList K V) :
    HashCall K V → Except Fault (HashList K V × HashResult V)
  | .add key value => .ok (table.add key value, .done true)
  | .remove key => do
      let (table, result) ← table.remove key
      .ok (table, .done result)
  | .getValue key => .ok (table, .value (table.getValue key))

def calls [Inhabited V] (table : HashList K V) :
    List (HashCall K V) → Except Fault (HashList K V × List (HashResult V))
  | [] => .ok (table, [])
  | call :: calls => do
      let (table, result) ← table.call call
      let (table, results) ← table.calls calls
      .ok (table, result :: results)

/-- The chain is as `remove` needs it: the key is first or second, or there is one item. -/
def Short (table : HashList K V) (key : K) : Prop :=
  table.Near key ∨ (table.chain key).length = 1

/-- Every `remove` of the sequence finds a short chain. -/
def AllShort : HashList K V → List (HashCall K V) → Prop
  | _, [] => True
  | table, .add key value :: calls => AllShort (table.add key value) calls
  | table, .remove key :: calls => table.Short key ∧ AllShort (table.erase key) calls
  | table, .getValue _ :: calls => AllShort table calls

theorem erase_of_lookup_eq_none {table : HashList K V} {key : K}
    (hnone : table.lookup key = none) : table.erase key = table := by
  have hkeep : (table.chain key).filter (fun item => !decide (item.1 = key)) = table.chain key :=
    List.filter_eq_self.mpr fun item hmem => by
      simpa using (table.lookup_eq_none_iff key).mp hnone item hmem
  rw [erase, hkeep, setChain, chain, Function.update_eq_self]

theorem lookup_isSome_of_near {table : HashList K V} {key : K} (hnear : table.Near key) :
    (table.lookup key).isSome := by
  obtain ⟨item, hmem, rfl⟩ := List.mem_map.mp hnear
  rw [Option.isSome_iff_ne_none]
  exact fun hnone => (table.lookup_eq_none_iff item.1).mp hnone item (List.mem_of_mem_take hmem) rfl

/-- A short chain is what `remove` needs, and nothing less. -/
theorem remove_of_short {table : HashList K V} (hwf : table.WF) {key : K} (hshort : table.Short key) :
    table.remove key = .ok (table.erase key, (table.lookup key).isSome) := by
  by_cases hnear : table.Near key
  · rw [lookup_isSome_of_near hnear]
    exact remove_of_near hwf hnear
  · obtain ⟨item, hchain⟩ := List.length_eq_one_iff.mp (hshort.resolve_left hnear)
    have hitem : item.1 ≠ key := by
      rintro rfl
      exact hnear (by simp [Near, hchain])
    have hnone : table.lookup key = none := by
      rw [lookup_eq_none_iff, hchain]
      simpa using hitem
    rw [erase_of_lookup_eq_none hnone, hnone, remove, hchain]
    exact if_neg hitem

theorem short_of_remove {table : HashList K V} {key : K} {table' : HashList K V} {result : Bool}
    (hrun : table.remove key = .ok (table', result)) : table.Short key := by
  unfold remove at hrun
  unfold Short Near
  cases hchain : table.chain key with
  | nil => simp [hchain] at hrun
  | cons head rest =>
      cases rest with
      | nil => exact Or.inr rfl
      | cons pos rest =>
          rw [hchain] at hrun
          apply Or.inl
          by_cases hhead : head.1 = key
          · simp [hhead]
          · by_cases hpos : pos.1 = key
            · simp [hpos]
            · -- the loop stays at the second item
              simp [hhead, hpos] at hrun

/-- The table holds what the map says. -/
structure Agrees (table : HashList K V) (map : K → Option V) : Prop where
  wf : table.WF
  lookup (key : K) : table.lookup key = map key

theorem Agrees.new {keyHash : K → Nat} {size : Nat} :
    (new keyHash size : HashList K V).Agrees fun _ => none :=
  ⟨wf_new keyHash size, fun _ => rfl⟩

theorem Agrees.add {table : HashList K V} {map : K → Option V} (h : table.Agrees map) {key : K}
    {value : V} (hfresh : map key = none) :
    (table.add key value).Agrees (Function.update map key (some value)) := by
  have hnone := (h.lookup key).trans hfresh
  refine ⟨wf_add h.wf key value hnone, fun key' => ?_⟩
  rw [lookup_add _ _ _ _ hnone, Function.update_apply, h.lookup]

theorem Agrees.erase {table : HashList K V} {map : K → Option V} (h : table.Agrees map) {key : K} :
    (table.erase key).Agrees (Function.update map key none) := by
  refine ⟨wf_erase h.wf key, fun key' => ?_⟩
  rw [lookup_erase, Function.update_apply, h.lookup]

section Calls

variable [Inhabited V] {table : HashList K V} {map : K → Option V}

/-- The first call returns, and the others follow. -/
theorem calls_cons_iff {call : HashCall K V} {calls : List (HashCall K V)} {next table' : HashList K V}
    {result : HashResult V} {results : List (HashResult V)}
    (hcall : table.call call = .ok (next, result)) :
    table.calls (call :: calls) = .ok (table', result :: results) ↔
      next.calls calls = .ok (table', results) := by
  rw [HashList.calls, hcall, ok_bind]
  constructor
  · intro hrun
    obtain ⟨⟨last, rest⟩, hrest, hresult⟩ := bind_eq_ok_iff.mp hrun
    obtain ⟨rfl, heq⟩ := Prod.mk.inj (Except.ok.inj hresult)
    rw [hrest, (List.cons.inj heq).2]
  · intro hrest
    dsimp only
    rw [hrest]
    rfl

theorem call_remove (h : table.Agrees map) {key : K} (hshort : table.Short key) :
    table.call (.remove key) = .ok (table.erase key, .done (map key).isSome) := by
  rw [HashList.call, remove_of_short h.wf hshort, h.lookup]
  rfl

theorem call_getValue (h : table.Agrees map) {key : K} :
    table.call (.getValue key) = .ok (table, .value ((map key).getD default)) := by
  rw [HashList.call, HashList.getValue, h.lookup]

/-- The table answers as the map does if `remove` finds short chains. -/
theorem calls_eq_answers {calls : List (HashCall K V)} (h : table.Agrees map)
    (hfresh : HashCall.Fresh map calls) (hshort : table.AllShort calls) :
    ∃ table', table.calls calls = .ok (table', HashCall.answers map calls) ∧
      table'.Agrees (calls.foldl HashCall.update map) := by
  induction calls generalizing table map with
  | nil => exact ⟨table, rfl, h⟩
  | cons call calls ih =>
      obtain ⟨hcall, hfresh⟩ := hfresh
      cases call with
      | add key value =>
          obtain ⟨table', hrun, hagrees⟩ := ih (h.add (hcall key value rfl)) hfresh hshort
          exact ⟨table', (calls_cons_iff rfl).mpr hrun, hagrees⟩
      | remove key =>
          obtain ⟨hremove, hshort⟩ := hshort
          obtain ⟨table', hrun, hagrees⟩ := ih h.erase hfresh hshort
          exact ⟨table', (calls_cons_iff (call_remove h hremove)).mpr hrun, hagrees⟩
      | getValue key =>
          obtain ⟨table', hrun, hagrees⟩ := ih h hfresh hshort
          exact ⟨table', (calls_cons_iff (call_getValue h)).mpr hrun, hagrees⟩

/-- A sequence of calls that returns has found short chains. -/
theorem allShort_of_calls {calls : List (HashCall K V)} (h : table.Agrees map)
    (hfresh : HashCall.Fresh map calls) {table' : HashList K V}
    (hrun : table.calls calls = .ok (table', HashCall.answers map calls)) : table.AllShort calls := by
  induction calls generalizing table map with
  | nil => trivial
  | cons call calls ih =>
      obtain ⟨hcall, hfresh⟩ := hfresh
      cases call with
      | add key value =>
          exact ih (h.add (hcall key value rfl)) hfresh ((calls_cons_iff rfl).mp hrun)
      | remove key =>
          -- that it came to an end is enough, whatever it returned
          obtain ⟨_, hfirst, -⟩ := bind_eq_ok_iff.mp hrun
          obtain ⟨_, hremove, -⟩ := bind_eq_ok_iff.mp hfirst
          have hshort := short_of_remove hremove
          exact ⟨hshort, ih h.erase hfresh ((calls_cons_iff (call_remove h hshort)).mp hrun)⟩
      | getValue key => exact ih h hfresh ((calls_cons_iff (call_getValue h)).mp hrun)

end Calls

/-- Whatever the hash, a sequence of calls on a new table returns what a finite map returns,
and leaves for each key the value that was added last, exactly if each of its `remove` finds
its key first or second in the chain, or a chain of one item. -/
theorem calls_iff_allShort [Inhabited V] {keyHash : K → Nat} {size : Nat} (_hsize : 1 ≤ size)
    {calls : List (HashCall K V)} (hfresh : HashCall.Fresh (fun _ => none) calls) :
    (∃ table, (new keyHash size : HashList K V).calls calls =
          .ok (table, HashCall.answers (fun _ => none) calls) ∧
        ∀ key value, table.lookup key = some value ↔ HashCall.LastAdded calls key value) ↔
      (new keyHash size : HashList K V).AllShort calls := by
  constructor
  · rintro ⟨table, hrun, -⟩
    exact allShort_of_calls Agrees.new hfresh hrun
  · intro hshort
    obtain ⟨table, hrun, hagrees⟩ := calls_eq_answers Agrees.new hfresh hshort
    refine ⟨table, hrun, fun key value => ?_⟩
    rw [hagrees.lookup]
    exact HashCall.foldl_update_eq_some_iff

/-- Two keys of one chain are found, and the second is removed. -/
theorem calls_iff_allShort_two :
    ∃ table, (new (fun _ => 7) 3 : HashList Nat Nat).calls [.add 1 10, .add 2 20, .remove 2, .getValue 1] =
        .ok (table, [.done true, .done true, .done true, .value 10]) ∧
      ∀ key value, table.lookup key = some value ↔
        HashCall.LastAdded [.add 1 10, .add 2 20, .remove 2, .getValue 1] key value := by
  have hfresh : HashCall.Fresh (fun _ => none : Nat → Option Nat)
      [.add 1 10, .add 2 20, .remove 2, .getValue 1] := by
    simp [HashCall.Fresh, HashCall.update]
  exact (calls_iff_allShort (by decide) hfresh).mpr ⟨Or.inl (by decide), trivial⟩

/-- An empty chain is read as if it had a first item. -/
theorem not_forall_calls :
    ¬ ∀ (keyHash : Nat → Nat) (size : Nat), 1 ≤ size → ∀ calls : List (HashCall Nat Nat),
      HashCall.Fresh (fun _ => none) calls →
        ∃ table, (new keyHash size : HashList Nat Nat).calls calls =
            .ok (table, HashCall.answers (fun _ => none) calls) ∧
          ∀ key value, table.lookup key = some value ↔ HashCall.LastAdded calls key value := by
  intro h
  obtain ⟨table, hrun, -⟩ := h (fun _ => 7) 3 (by decide) [.remove 1] (by simp [HashCall.Fresh])
  cases hrun

-- the third key of a chain: the loop never comes to it
example : (new (fun _ => 7) 3 : HashList Nat Nat).calls
    [.add 1 10, .add 2 20, .add 3 30, .remove 3] = .error .divergence := rfl

end HashList

end Doopey
