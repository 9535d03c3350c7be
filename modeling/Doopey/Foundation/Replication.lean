import Mathlib.Data.Multiset.AddSub
import Mathlib.Logic.Function.Basic

/-!
# Replicated maps that only grow

Every replica binds keys to values and tells the others of each binding it makes.
If no key is ever bound to two values, the replicas are the same as soon as all
that was told has arrived, in whatever order.
-/

namespace Foundation

/-- The bindings of every replica, and the bindings it has yet to hear of. -/
structure Replicas (ι K V : Type*) where
  view : ι → K → Option V
  inFlight : ι → Multiset (K × V)

namespace Replicas

variable {ι K V : Type*}

/-- Every key has one value, and every binding is known to each replica or on its
way there. -/
structure Coherent (replicas : Replicas ι K V) : Prop where
  single {i j : ι} {key : K} {value value' : V} : replicas.view i key = some value →
    replicas.view j key = some value' → value = value'
  origin {j : ι} {key : K} {value : V} : (key, value) ∈ replicas.inFlight j →
    ∃ i, replicas.view i key = some value
  reaches {i : ι} {key : K} {value : V} : replicas.view i key = some value →
    ∀ j, replicas.view j key = some value ∨ (key, value) ∈ replicas.inFlight j

/-- Replicas that start out the same. -/
theorem coherent_initial (view : K → Option V) :
    Coherent (⟨fun _ => view, fun _ => 0⟩ : Replicas ι K V) where
  single hfirst hsecond := Option.some.inj (hfirst.symm.trans hsecond)
  origin hmem := absurd hmem (Multiset.notMem_zero _)
  reaches hview _ := Or.inl hview

section Steps

variable {replicas : Replicas ι K V} {i : ι} {key : K} {value : V}

/-- Nothing that is known contradicts what is on its way. -/
theorem Coherent.view_of_mem (h : replicas.Coherent) {j : ι}
    (hmem : (key, value) ∈ replicas.inFlight j) (k : ι) :
    replicas.view k key = none ∨ replicas.view k key = some value := by
  obtain ⟨i, horigin⟩ := h.origin hmem
  cases hview : replicas.view k key with
  | none => exact Or.inl rfl
  | some other =>
      right
      rw [h.single hview horigin]

/-- When nothing is on its way, all replicas are the same. -/
theorem Coherent.view_eq (h : replicas.Coherent) (hquiet : ∀ j, replicas.inFlight j = 0)
    (i j : ι) : replicas.view i = replicas.view j := by
  have hsubset {i j : ι} {key : K} {value : V} (hview : replicas.view i key = some value) :
      replicas.view j key = some value := by
    rcases h.reaches hview j with hknown | hmem
    · exact hknown
    · rw [hquiet j] at hmem
      exact absurd hmem (Multiset.notMem_zero _)
  funext key
  apply Option.ext
  intro value
  exact ⟨hsubset, hsubset⟩

variable [DecidableEq ι] [DecidableEq K]

/-- Bind a key in one of the replicas. -/
def bind (replicas : Replicas ι K V) (i : ι) (key : K) (value : V) : ι → K → Option V :=
  Function.update replicas.view i (Function.update (replicas.view i) key (some value))

/-- A replica makes a binding and tells the others. -/
def accept (replicas : Replicas ι K V) (i : ι) (key : K) (value : V) : Replicas ι K V where
  view := replicas.bind i key value
  inFlight j := if j = i then replicas.inFlight j else (key, value) ::ₘ replicas.inFlight j

/-- A replica takes in a binding; `rest` is what it has yet to hear of then. -/
def receive (replicas : Replicas ι K V) (i : ι) (key : K) (value : V)
    (rest : Multiset (K × V)) : Replicas ι K V where
  view := replicas.bind i key value
  inFlight := Function.update replicas.inFlight i rest

theorem bind_apply (replicas : Replicas ι K V) (i : ι) (key : K) (value : V) (j : ι) (key' : K) :
    replicas.bind i key value j key' =
      if j = i ∧ key' = key then some value else replicas.view j key' := by
  unfold bind
  by_cases hj : j = i
  · subst hj
    rw [Function.update_self, Function.update_apply]
    simp
  · rw [Function.update_of_ne hj, if_neg fun hboth => hj hboth.1]

/-- A binding is made where every replica may have it. -/
theorem eq_or_view_of_bind {j : ι} {key' : K} {value' : V}
    (hbind : replicas.bind i key value j key' = some value') :
    (key' = key ∧ value' = value) ∨ replicas.view j key' = some value' := by
  rw [bind_apply] at hbind
  split at hbind
  next hboth => exact Or.inl ⟨hboth.2, (Option.some.inj hbind).symm⟩
  next => exact Or.inr hbind

/-- Binding a key that no replica has bound otherwise keeps what is bound. -/
theorem bind_of_view (hothers : ∀ j, replicas.view j key = none ∨ replicas.view j key = some value)
    {j : ι} {key' : K} {value' : V} (hview : replicas.view j key' = some value') :
    replicas.bind i key value j key' = some value' := by
  rw [bind_apply]
  split
  next hboth =>
    obtain ⟨-, rfl⟩ := hboth
    rcases hothers j with hnone | hsome
    · exact absurd (hnone.symm.trans hview) (by simp)
    · exact hsome.symm.trans hview
  next => exact hview

theorem single_bind (h : replicas.Coherent)
    (hothers : ∀ j, replicas.view j key = none ∨ replicas.view j key = some value)
    {j k : ι} {key' : K} {value₁ value₂ : V}
    (hfirst : replicas.bind i key value j key' = some value₁)
    (hsecond : replicas.bind i key value k key' = some value₂) : value₁ = value₂ := by
  have hother {j : ι} {value' : V} (hview : replicas.view j key = some value') :
      value' = value := by
    rcases hothers j with hnone | hsome
    · exact absurd (hnone.symm.trans hview) (by simp)
    · exact Option.some.inj (hview.symm.trans hsome)
  rcases eq_or_view_of_bind hfirst with ⟨rfl, rfl⟩ | hview₁
  · rcases eq_or_view_of_bind hsecond with ⟨-, rfl⟩ | hview₂
    · rfl
    · exact (hother hview₂).symm
  · rcases eq_or_view_of_bind hsecond with ⟨rfl, rfl⟩ | hview₂
    · exact hother hview₁
    · exact h.single hview₁ hview₂

/-- A replica may bind a key that no replica has bound otherwise. -/
theorem Coherent.accept (h : replicas.Coherent)
    (hothers : ∀ j, replicas.view j key = none ∨ replicas.view j key = some value) :
    (replicas.accept i key value).Coherent where
  single hfirst hsecond := single_bind h hothers hfirst hsecond
  origin {j key' value'} hmem := by
    have hcases : (key' = key ∧ value' = value) ∨ (key', value') ∈ replicas.inFlight j := by
      unfold Replicas.accept at hmem
      dsimp only at hmem
      split at hmem
      next => exact Or.inr hmem
      next => simpa [Multiset.mem_cons] using hmem
    rcases hcases with ⟨rfl, rfl⟩ | hmem
    · exact ⟨i, by simp [Replicas.accept, bind_apply]⟩
    · obtain ⟨k, hview⟩ := h.origin hmem
      exact ⟨k, bind_of_view hothers hview⟩
  reaches {k key' value'} hview j := by
    have hnew : replicas.bind i key value j key = some value ∨
        (key, value) ∈ (replicas.accept i key value).inFlight j := by
      by_cases hj : j = i
      · exact Or.inl (by rw [bind_apply, if_pos ⟨hj, rfl⟩])
      · right
        simp [Replicas.accept, hj]
    rcases eq_or_view_of_bind hview with ⟨rfl, rfl⟩ | hview
    · exact hnew
    · rcases h.reaches hview j with hknown | hmem
      · exact Or.inl (bind_of_view hothers hknown)
      · right
        unfold Replicas.accept
        dsimp only
        split
        next => exact hmem
        next => exact Multiset.mem_cons_of_mem hmem

/-- Replicas stay coherent when one takes in what was on its way there. -/
theorem Coherent.receive (h : replicas.Coherent) {rest : Multiset (K × V)}
    (hflight : replicas.inFlight i = (key, value) ::ₘ rest) :
    (replicas.receive i key value rest).Coherent := by
  have hmem : (key, value) ∈ replicas.inFlight i := by
    rw [hflight]
    exact Multiset.mem_cons_self _ _
  have hothers := h.view_of_mem hmem
  have hrest {j : ι} {binding : K × V}
      (hbinding : binding ∈ (replicas.receive i key value rest).inFlight j) :
      binding ∈ replicas.inFlight j := by
    unfold Replicas.receive at hbinding
    dsimp only at hbinding
    rw [Function.update_apply] at hbinding
    split at hbinding
    next hj =>
      rw [hj, hflight]
      exact Multiset.mem_cons_of_mem hbinding
    next => exact hbinding
  refine ⟨fun hfirst hsecond => single_bind h hothers hfirst hsecond, ?_, ?_⟩
  · intro j key' value' hbinding
    obtain ⟨k, hview⟩ := h.origin (hrest hbinding)
    exact ⟨k, bind_of_view hothers hview⟩
  · intro k key' value' hview j
    -- what is new to the replica was known to another one before
    obtain ⟨k', hbefore⟩ : ∃ k', replicas.view k' key' = some value' := by
      rcases eq_or_view_of_bind hview with ⟨rfl, rfl⟩ | hview
      · exact h.origin hmem
      · exact ⟨k, hview⟩
    rcases h.reaches hbefore j with hknown | hflying
    · exact Or.inl (bind_of_view hothers hknown)
    · unfold Replicas.receive
      dsimp only
      rw [Function.update_apply, bind_apply]
      by_cases hj : j = i
      · subst hj
        rw [hflight, Multiset.mem_cons, Prod.mk.injEq] at hflying
        rcases hflying with ⟨rfl, rfl⟩ | hflying
        · exact Or.inl (by rw [if_pos ⟨rfl, rfl⟩])
        · exact Or.inr (by rwa [if_pos rfl])
      · exact Or.inr (by rwa [if_neg hj])

end Steps

end Replicas

end Foundation
