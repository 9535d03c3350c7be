import Mathlib.Data.List.Forall2

/-! # Running computations that may fail

Peeling a successful `Except` computation apart, and bounds on the number of
steps of a recursive one.
-/

namespace Foundation

universe u

variable {ε α β : Type u}

@[simp] theorem ok_bind (a : α) (f : α → Except ε β) : (Except.ok a >>= f) = f a := rfl

@[simp] theorem error_bind (e : ε) (f : α → Except ε β) :
    ((Except.error e : Except ε α) >>= f) = .error e := rfl

/-- A sequence succeeds exactly if both of its parts do. -/
theorem bind_eq_ok_iff {x : Except ε α} {f : α → Except ε β} {b : β} :
    (x >>= f) = .ok b ↔ ∃ a, x = .ok a ∧ f a = .ok b := by
  cases x with
  | error e =>
      constructor
      · intro hrun
        cases hrun
      · rintro ⟨a, ha, -⟩
        cases ha
  | ok a =>
      constructor
      · intro hrun
        exact ⟨a, rfl, hrun⟩
      · rintro ⟨a', ha, hrun⟩
        cases ha
        exact hrun

/-- A computation over a list succeeds exactly if it does at every element. -/
theorem mapM_eq_ok_iff {f : α → Except ε β} {xs : List α} {ys : List β} :
    xs.mapM f = .ok ys ↔ List.Forall₂ (fun x y => f x = .ok y) xs ys := by
  induction xs generalizing ys with
  | nil =>
      rw [List.mapM_nil, List.forall₂_nil_left_iff]
      exact ⟨fun hrun => (Except.ok.inj hrun).symm, fun heq => heq ▸ rfl⟩
  | cons x xs ih =>
      rw [List.mapM_cons, bind_eq_ok_iff, List.forall₂_cons_left_iff]
      constructor
      · rintro ⟨y, hy, hrest⟩
        obtain ⟨ys', hys', hpure⟩ := bind_eq_ok_iff.mp hrest
        exact ⟨y, ys', hy, ih.mp hys', (Except.ok.inj hpure).symm⟩
      · rintro ⟨y, ys', hy, hys', rfl⟩
        exact ⟨y, hy, bind_eq_ok_iff.mpr ⟨ys', ih.mpr hys', rfl⟩⟩

/-- Related lists: every element of the second has a counterpart. -/
theorem exists_of_mem_right {γ δ : Type*} {R : γ → δ → Prop} {xs : List γ} {ys : List δ}
    (hall : List.Forall₂ R xs ys) {y : δ} (hy : y ∈ ys) : ∃ x ∈ xs, R x y := by
  induction hall with
  | nil => simp at hy
  | cons hxy _ ih =>
      rcases List.mem_cons.mp hy with rfl | hy
      · exact ⟨_, List.mem_cons_self, hxy⟩
      · obtain ⟨x, hx, hxy⟩ := ih hy
        exact ⟨x, List.mem_cons_of_mem _ hx, hxy⟩

/-- Related lists: every element of the first has a counterpart. -/
theorem exists_of_mem_left {γ δ : Type*} {R : γ → δ → Prop} {xs : List γ} {ys : List δ}
    (hall : List.Forall₂ R xs ys) {x : γ} (hx : x ∈ xs) : ∃ y ∈ ys, R x y :=
  exists_of_mem_right hall.flip hx

/-- Related lists: the elements at one place are related. -/
theorem related_of_getElem? {γ δ : Type*} {R : γ → δ → Prop} {xs : List γ} {ys : List δ}
    (hall : List.Forall₂ R xs ys) {i : Nat} {x : γ} {y : δ} (hx : xs[i]? = some x)
    (hy : ys[i]? = some y) : R x y := by
  obtain ⟨hi, rfl⟩ := List.getElem?_eq_some_iff.mp hx
  obtain ⟨hi', rfl⟩ := List.getElem?_eq_some_iff.mp hy
  exact hall.get hi hi'

/-- Every result of a computation over a list stems from an element. -/
theorem exists_of_mem_mapM {f : α → Except ε β} {xs : List α} {ys : List β}
    (hrun : xs.mapM f = .ok ys) {y : β} (hy : y ∈ ys) : ∃ x ∈ xs, f x = .ok y :=
  exists_of_mem_right (mapM_eq_ok_iff.mp hrun) hy

/-- A successful computation over a list succeeds at every element. -/
theorem mapM_ok_of_mem {f : α → Except ε β} {xs : List α} {ys : List β}
    (hrun : xs.mapM f = .ok ys) {x : α} (hx : x ∈ xs) : ∃ y ∈ ys, f x = .ok y :=
  exists_of_mem_left (mapM_eq_ok_iff.mp hrun) hx

theorem mapM_of_forall {f : α → Except ε β} {g : α → β} {xs : List α}
    (hall : ∀ x ∈ xs, f x = .ok (g x)) : xs.mapM f = .ok (xs.map g) := by
  rw [mapM_eq_ok_iff, List.forall₂_map_right_iff, List.forall₂_same]
  exact hall

/-- A computation that goes on with what is computed at every element. -/
theorem mapM_bind {γ : Type u} {f : α → Except ε β} (g : β → Except ε γ) {xs : List α}
    {ys : List β} (hrun : xs.mapM f = .ok ys) : xs.mapM (fun x => f x >>= g) = ys.mapM g := by
  induction xs generalizing ys with
  | nil =>
      obtain rfl := Except.ok.inj hrun
      rfl
  | cons x xs ih =>
      rw [List.mapM_cons] at hrun
      obtain ⟨y, hy, hrest⟩ := bind_eq_ok_iff.mp hrun
      obtain ⟨ys', hys', hpure⟩ := bind_eq_ok_iff.mp hrest
      obtain rfl := Except.ok.inj hpure
      rw [List.mapM_cons, List.mapM_cons, hy, ok_bind, ih hys']

/-- A fold that computes something at every element is a fold over what is computed. -/
theorem foldlM_bind {σ : Type u} {f : α → Except ε β} (g : σ → β → Except ε σ) {xs : List α}
    {ys : List β} (hrun : xs.mapM f = .ok ys) (state : σ) :
    xs.foldlM (fun state x => f x >>= g state) state = ys.foldlM g state := by
  induction xs generalizing ys state with
  | nil =>
      obtain rfl := Except.ok.inj hrun
      rfl
  | cons x xs ih =>
      rw [List.mapM_cons] at hrun
      obtain ⟨y, hy, hrest⟩ := bind_eq_ok_iff.mp hrun
      obtain ⟨ys', hys', hpure⟩ := bind_eq_ok_iff.mp hrest
      obtain rfl := Except.ok.inj hpure
      rw [List.foldlM_cons, List.foldlM_cons, hy, ok_bind]
      exact congrArg _ (funext fun state' => ih hys' state')

theorem exists_mapM_of_foldlM {σ : Type u} {f : α → Except ε β} {g : σ → β → Except ε σ}
    {xs : List α} {state state' : σ}
    (hrun : xs.foldlM (fun state x => f x >>= g state) state = .ok state') :
    ∃ ys, xs.mapM f = .ok ys := by
  induction xs generalizing state with
  | nil => exact ⟨[], rfl⟩
  | cons x xs ih =>
      rw [List.foldlM_cons] at hrun
      obtain ⟨middle, hstep, hrest⟩ := bind_eq_ok_iff.mp hrun
      obtain ⟨y, hy, -⟩ := bind_eq_ok_iff.mp hstep
      obtain ⟨ys, hys⟩ := ih hrest
      exact ⟨y :: ys, by rw [List.mapM_cons, hy, ok_bind, hys]; rfl⟩

/-- What every step keeps holds at the end of a fold. -/
theorem foldlM_invariant {σ : Type u} {f : σ → α → Except ε σ} (inv : σ → Prop)
    (hstep : ∀ state x state', inv state → f state x = .ok state' → inv state') {xs : List α}
    {state state' : σ} (hinv : inv state) (hrun : xs.foldlM f state = .ok state') : inv state' := by
  induction xs generalizing state with
  | nil =>
      obtain rfl := Except.ok.inj hrun
      exact hinv
  | cons x xs ih =>
      rw [List.foldlM_cons] at hrun
      obtain ⟨middle, hfirst, hrest⟩ := bind_eq_ok_iff.mp hrun
      exact ih (hstep state x middle hinv hfirst) hrest

/-- `larger` succeeds with the same result wherever `smaller` succeeds. -/
def Extends (smaller larger : Except ε α) : Prop :=
  ∀ a, smaller = .ok a → larger = .ok a

namespace Extends

theorem refl (x : Except ε α) : Extends x x := fun _ h => h

theorem of_error (e : ε) (x : Except ε α) : Extends (.error e) x := nofun

theorem bind {x y : Except ε α} {f g : α → Except ε β} (hxy : Extends x y)
    (hfg : ∀ a, Extends (f a) (g a)) : Extends (x >>= f) (y >>= g) := by
  intro b hb
  obtain ⟨a, ha, hf⟩ := bind_eq_ok_iff.mp hb
  rw [hxy a ha]
  exact hfg a b hf

/-- A computation that ends within a bound ends in the same way within every larger one. -/
theorem of_le {run : Nat → Except ε α} (hsucc : ∀ fuel, Extends (run fuel) (run (fuel + 1)))
    {m n : Nat} (hle : m ≤ n) : Extends (run m) (run n) := by
  intro a ha
  induction hle with
  | refl => exact ha
  | step _ ih => exact hsucc _ a ih

/-- Two bounds under which a computation succeeds give one result. -/
theorem unique_of_succ {run : Nat → Except ε α} (hsucc : ∀ fuel, Extends (run fuel) (run (fuel + 1)))
    {m n : Nat} {a b : α} (ha : run m = .ok a) (hb : run n = .ok b) : a = b := by
  have hm := of_le hsucc (Nat.le_max_left m n) a ha
  rw [of_le hsucc (Nat.le_max_right m n) b hb] at hm
  exact (Except.ok.inj hm).symm

end Extends

end Foundation
