import Mathlib.Logic.Function.Basic
import Mathlib.Data.List.Nodup
import Doopey.Common.Base

/-!
# The chained hash table of the file tree

`HashList` keeps an array of chains of items. The hash function is a parameter:
nothing below depends on which keys collide. A chain is the list of its items,
in the order in which `next` visits them.
-/

namespace Doopey

/-- `class HashList`: `list i` is the chain that starts at `_list[i]`. -/
structure HashList (K V : Type) where
  keyHash : K → Nat
  listSize : Nat
  list : Nat → List (K × V)

namespace HashList

variable {K V : Type} [DecidableEq K]

/-- The default size of the constructor. -/
def defaultSize : Nat := 3000

/-- The constructor sets every chain to `NULL`. -/
def new (keyHash : K → Nat) (size : Nat) : HashList K V := ⟨keyHash, size, fun _ => []⟩

/-- `keyHash(key) % _listSize` -/
def index (table : HashList K V) (key : K) : Nat := table.keyHash key % table.listSize

/-- The chain that `key` belongs to. -/
def chain (table : HashList K V) (key : K) : List (K × V) := table.list (table.index key)

/-- Replace the chain that `key` belongs to. -/
def setChain (table : HashList K V) (key : K) (items : List (K × V)) : HashList K V :=
  { table with list := Function.update table.list (table.index key) items }

/-- `HashList::add` puts the item at the end of its chain, whether or not the
key occurs already. -/
def add (table : HashList K V) (key : K) (value : V) : HashList K V :=
  table.setChain key (table.chain key ++ [(key, value)])

/-- `HashList::remove`. The head of the chain is read without a check for an
empty chain, and the loop over the rest never advances `pos`: if the second item
is not the one looked for, the same comparison is repeated forever. -/
def remove (table : HashList K V) (key : K) : Except Fault (HashList K V × Bool) :=
  match table.chain key with
  | [] => .error .badPointer
  | head :: rest =>
      if head.1 = key then .ok (table.setChain key rest, true)
      else match rest with
        | [] => .ok (table, false)
        | pos :: rest =>
            if pos.1 = key then .ok (table.setChain key (head :: rest), true)
            -- `pos` stays where it is, and the loop goes on
            else .error .divergence

/-- The item a walk along the chain of `key` stops at. -/
def lookup (table : HashList K V) (key : K) : Option V :=
  ((table.chain key).find? (fun item => item.1 = key)).map Prod.snd

/-- `HashList::getValue`, with `VALUE()` for a key that is not found. -/
def getValue [Inhabited V] (table : HashList K V) (key : K) : V :=
  (table.lookup key).getD default

/-! ## The table as a finite map -/

/-- Items sit in the chain of their key, and no chain holds a key twice. -/
structure WF (table : HashList K V) : Prop where
  placed : ∀ i, ∀ item ∈ table.list i, table.index item.1 = i
  nodup : ∀ i, ((table.list i).map Prod.fst).Nodup

/-- Drop the item of `key`, if there is one. -/
def erase (table : HashList K V) (key : K) : HashList K V :=
  table.setChain key ((table.chain key).filter (fun item => !decide (item.1 = key)))

/-- The key is the first or the second of its chain. -/
def Near (table : HashList K V) (key : K) : Prop :=
  key ∈ ((table.chain key).take 2).map Prod.fst

instance (table : HashList K V) (key : K) : Decidable (table.Near key) :=
  inferInstanceAs (Decidable (_ ∈ _))

omit [DecidableEq K] in
@[simp] theorem index_setChain (table : HashList K V) (key key' : K) (items : List (K × V)) :
    (table.setChain key items).index key' = table.index key' := rfl

omit [DecidableEq K] in
theorem chain_setChain (table : HashList K V) (key key' : K) (items : List (K × V)) :
    (table.setChain key items).chain key' =
      if table.index key' = table.index key then items else table.chain key' :=
  Function.update_apply table.list (table.index key) items (table.index key')

theorem lookup_new (keyHash : K → Nat) (size : Nat) (key : K) :
    (new keyHash size : HashList K V).lookup key = none := rfl

omit [DecidableEq K] in
theorem wf_new (keyHash : K → Nat) (size : Nat) : (new keyHash size : HashList K V).WF :=
  ⟨fun _ _ hmem => absurd hmem List.not_mem_nil, fun _ => List.nodup_nil⟩

theorem lookup_eq_none_iff (table : HashList K V) (key : K) :
    table.lookup key = none ↔ ∀ item ∈ table.chain key, item.1 ≠ key := by
  simp [lookup, List.find?_eq_none]

theorem lookup_add (table : HashList K V) (key key' : K) (value : V)
    (hnew : table.lookup key = none) :
    (table.add key value).lookup key' =
      if key' = key then some value else table.lookup key' := by
  have hnone := (table.lookup_eq_none_iff key).mp hnew
  unfold lookup add
  rw [chain_setChain]
  by_cases hkey : key' = key
  · subst hkey
    rw [if_pos rfl, if_pos rfl, List.find?_append, List.find?_eq_none.mpr]
    · simp
    · intro item hmem
      simpa using hnone item hmem
  · rw [if_neg hkey]
    split
    next hindex =>
      rw [List.find?_append, List.find?_cons_of_neg (by simpa using Ne.symm hkey),
        List.find?_nil, Option.or_none]
      simp only [chain, hindex]
    next => rfl

theorem wf_add {table : HashList K V} (hwf : table.WF) (key : K) (value : V)
    (hnew : table.lookup key = none) : (table.add key value).WF := by
  have hnone := (table.lookup_eq_none_iff key).mp hnew
  refine ⟨?_, ?_⟩
  · intro i item hmem
    simp only [add, setChain, Function.update_apply] at hmem
    split at hmem
    next hi =>
      rcases List.mem_append.mp hmem with hmem | hmem
      · rw [hi]
        exact hwf.placed _ item hmem
      · rw [List.mem_singleton.mp hmem, hi]
        rfl
    next => exact hwf.placed i item hmem
  · intro i
    simp only [add, setChain, Function.update_apply]
    split
    next =>
      rw [List.map_append, List.nodup_append']
      refine ⟨hwf.nodup _, List.nodup_singleton _, ?_⟩
      intro key' hmem hmem'
      obtain ⟨item, hitem, rfl⟩ := List.mem_map.mp hmem
      exact hnone item hitem (by simpa using hmem')
    next => exact hwf.nodup i

omit [DecidableEq K] in
/-- What holds of every item stays so when such an item is added. -/
theorem forall_add {P : K × V → Prop} {table : HashList K V}
    (h : ∀ i, ∀ item ∈ table.list i, P item) {key : K} {value : V} (hnew : P (key, value)) :
    ∀ i, ∀ item ∈ (table.add key value).list i, P item := by
  intro i item hmem
  simp only [add, setChain, Function.update_apply] at hmem
  split at hmem
  next =>
    rcases List.mem_append.mp hmem with hmem | hmem
    · exact h _ item hmem
    · rwa [List.mem_singleton.mp hmem]
  next => exact h i item hmem

/-- What holds of every item stays so when one is removed. -/
theorem forall_remove {P : K × V → Prop} {table table' : HashList K V}
    (h : ∀ i, ∀ item ∈ table.list i, P item) {key : K} {result : Bool}
    (hrun : table.remove key = .ok (table', result)) : ∀ i, ∀ item ∈ table'.list i, P item := by
  have hset {items : List (K × V)} (hitems : ∀ item ∈ items, P item) :
      ∀ i, ∀ item ∈ (table.setChain key items).list i, P item := by
    intro i item hmem
    simp only [setChain, Function.update_apply] at hmem
    split at hmem
    next => exact hitems item hmem
    next => exact h i item hmem
  have hchain : ∀ item ∈ table.chain key, P item := h _
  unfold remove at hrun
  split at hrun
  next => exact absurd hrun (by simp)
  next head rest heq =>
    rw [heq] at hchain
    split at hrun
    next =>
      obtain ⟨rfl, -⟩ := Prod.mk.inj (Except.ok.inj hrun)
      exact hset fun item hmem => hchain item (List.mem_cons_of_mem _ hmem)
    next =>
      split at hrun
      next =>
        obtain ⟨rfl, -⟩ := Prod.mk.inj (Except.ok.inj hrun)
        exact h
      next pos rest =>
        split at hrun
        next =>
          obtain ⟨rfl, -⟩ := Prod.mk.inj (Except.ok.inj hrun)
          refine hset fun item hmem => hchain item ?_
          rcases List.mem_cons.mp hmem with rfl | hmem
          · exact List.mem_cons_self
          · exact List.mem_cons_of_mem _ (List.mem_cons_of_mem _ hmem)
        next => exact absurd hrun (by simp)

theorem lookup_erase (table : HashList K V) (key key' : K) :
    (table.erase key).lookup key' = if key' = key then none else table.lookup key' := by
  unfold lookup erase
  rw [chain_setChain]
  split
  next hindex =>
    rw [List.find?_filter]
    by_cases hkey : key' = key
    · subst hkey
      rw [if_pos rfl, List.find?_eq_none.mpr]
      · rfl
      · intro item _
        simp
    · rw [if_neg hkey]
      simp only [chain, hindex]
      congr 2
      funext item
      by_cases hitem : item.1 = key' <;> simp [hitem, hkey]
  next hindex =>
    have hkey : key' ≠ key := fun heq => hindex (heq ▸ rfl)
    rw [if_neg hkey]

theorem wf_erase {table : HashList K V} (hwf : table.WF) (key : K) : (table.erase key).WF := by
  refine ⟨?_, ?_⟩
  · intro i item hmem
    simp only [erase, setChain, Function.update_apply] at hmem
    split at hmem
    next hi =>
      rw [hi]
      exact hwf.placed _ item (List.mem_filter.mp hmem).1
    next => exact hwf.placed i item hmem
  · intro i
    simp only [erase, setChain, Function.update_apply]
    split
    next => exact (List.filter_sublist.map Prod.fst).nodup (hwf.nodup _)
    next => exact hwf.nodup i

/-- Removing a key that is first or second in its chain works. -/
theorem remove_of_near {table : HashList K V} (hwf : table.WF) {key : K} (hnear : table.Near key) :
    table.remove key = .ok (table.erase key, true) := by
  have hnodup : ((table.chain key).map Prod.fst).Nodup := hwf.nodup _
  have filter_eq (items : List (K × V)) (hnot : key ∉ items.map Prod.fst) :
      items.filter (fun item => !decide (item.1 = key)) = items := by
    refine List.filter_eq_self.mpr fun item hmem => ?_
    simpa using fun heq => hnot (List.mem_map.mpr ⟨item, hmem, heq⟩)
  unfold Near at hnear
  unfold remove erase
  cases hchain : table.chain key with
  | nil => simp [hchain] at hnear
  | cons head rest =>
      rw [hchain, List.map_cons, List.nodup_cons] at hnodup
      by_cases hhead : head.1 = key
      · subst hhead
        simp [filter_eq rest hnodup.1]
      · cases rest with
        | nil => simp [hchain, Ne.symm hhead] at hnear
        | cons pos rest =>
            have hpos : pos.1 = key := by
              simpa [hchain, Ne.symm hhead, eq_comm] using hnear
            subst hpos
            rw [List.map_cons, List.nodup_cons] at hnodup
            simp [hhead, filter_eq rest hnodup.2.1]

/-- A removal that returns has taken the key out, or reports that it was not there. -/
theorem remove_spec {table table' : HashList K V} (hwf : table.WF) {key : K} {result : Bool}
    (hrun : table.remove key = .ok (table', result)) :
    table' = if result then table.erase key else table := by
  by_cases hnear : table.Near key
  · rw [remove_of_near hwf hnear] at hrun
    obtain ⟨rfl, rfl⟩ := Prod.mk.inj (Except.ok.inj hrun)
    rfl
  · unfold Near at hnear
    unfold remove at hrun
    cases hchain : table.chain key with
    | nil => simp [hchain] at hrun
    | cons head rest =>
        cases rest with
        | nil =>
            have hhead : head.1 ≠ key := by simpa [hchain, eq_comm] using hnear
            rw [hchain] at hrun
            simp only [if_neg hhead] at hrun
            obtain ⟨rfl, rfl⟩ := Prod.mk.inj (Except.ok.inj hrun)
            rfl
        | cons pos rest =>
            have hne : head.1 ≠ key ∧ pos.1 ≠ key := by
              simpa [hchain, eq_comm, not_or] using hnear
            simp [hchain, hne.1, hne.2] at hrun

theorem wf_remove {table table' : HashList K V} (hwf : table.WF) {key : K} {result : Bool}
    (hrun : table.remove key = .ok (table', result)) : table'.WF := by
  rw [remove_spec hwf hrun]
  split
  next => exact wf_erase hwf key
  next => exact hwf

/-- Removing a key that sits further down its chain never returns. -/
theorem remove_of_not_near {table : HashList K V} {key : K} {value : V}
    (hlookup : table.lookup key = some value) (hfar : ¬ table.Near key) :
    table.remove key = .error .divergence := by
  unfold Near at hfar
  unfold lookup at hlookup
  unfold remove
  cases hchain : table.chain key with
  | nil => simp [hchain] at hlookup
  | cons head rest =>
      cases rest with
      | nil =>
          have hhead : head.1 = key := by
            by_contra hne
            simp [hchain, hne] at hlookup
          simp [hchain, hhead] at hfar
      | cons pos rest =>
          have hne : head.1 ≠ key ∧ pos.1 ≠ key := by
            simpa [hchain, eq_comm, not_or] using hfar
          simp [hne.1, hne.2]

end HashList

end Doopey
