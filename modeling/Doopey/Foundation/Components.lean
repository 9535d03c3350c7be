import Mathlib.Data.List.Basic
import Doopey.Foundation.Runs

/-!
# Systems of components

A system whose steps each leave a family of components as it is, or are a step of one of
them, while the others stay as they are. What holds in all runs of a component holds of all
components in all runs of the system; and where a condition separates the runs of a
component that are good from those that are spoilt, it does so for the system.
-/

namespace Foundation

namespace System

variable {State Label Local Event ι : Type*}

/-- The steps of `sys` are, seen through `view`, steps of components; a step of `sys` meets
`guard` exactly if the step of the component meets `localGuard`. -/
structure Composed (sys : System State Label) (guard : State → Label → Prop)
    (comp : System Local Event) (localGuard : Local → Event → Prop)
    (view : State → ι → Local) where
  inv : State → Prop
  invariant : sys.Invariant inv
  init {state : State} : sys.init state → ∀ i, comp.init (view state i)
  step {before after : State} {label : Label} : inv before → sys.step before label after →
    view after = view before ∧ guard before label ∨
    ∃ i event, comp.step (view before i) event (view after i) ∧
      (∀ j, j ≠ i → view after j = view before j) ∧
      (guard before label ↔ localGuard (view before i) event)

variable {sys : System State Label} {guard : State → Label → Prop} {comp : System Local Event}
  {localGuard : Local → Event → Prop} {view : State → ι → Local}

/-- What a step does to one of the components. -/
theorem Composed.step_local (h : sys.Composed guard comp localGuard view) {before after : State}
    {label : Label} (hinv : h.inv before) (hstep : sys.step before label after) (j : ι) :
    view after j = view before j ∨ ∃ event, comp.step (view before j) event (view after j) ∧
      (guard before label ↔ localGuard (view before j) event) := by
  rcases h.step hinv hstep with ⟨hsame, -⟩ | ⟨i, event, hevent, hothers, hiff⟩
  · exact Or.inl (congrFun hsame j)
  · by_cases heq : j = i
    · subst heq
      exact Or.inr ⟨event, hevent, hiff⟩
    · exact Or.inl (hothers j heq)

/-- The runs that meet another condition are composed of runs of the components, too. -/
def Composed.restrict (h : sys.Composed guard comp localGuard view)
    (other : State → Label → Prop) : (sys.restrict other).Composed guard comp localGuard view where
  inv := h.inv
  invariant := h.invariant.restrict other
  init := h.init
  step hinv hstep := h.step hinv hstep.2

/-- An invariant of the component holds of all components. -/
theorem Composed.invariant_forall (h : sys.Composed guard comp localGuard view) {p : Local → Prop}
    (hp : comp.Invariant p) : sys.Invariant fun state => h.inv state ∧ ∀ i, p (view state i) where
  init hinit := ⟨h.invariant.init hinit, fun i => hp.init (h.init hinit i)⟩
  step hstate hstep := by
    refine ⟨h.invariant.step hstate.1 hstep, fun j => ?_⟩
    rcases h.step_local hstate.1 hstep j with hsame | ⟨event, hevent, -⟩
    · rw [hsame]
      exact hstate.2 j
    · exact hp.step (hstate.2 j) hevent

/-- An invariant of the runs of the component that meet the condition. -/
theorem Composed.invariant_restrict (h : sys.Composed guard comp localGuard view)
    {p : Local → Prop} (hp : (comp.restrict localGuard).Invariant p) :
    (sys.restrict guard).Invariant fun state => h.inv state ∧ ∀ i, p (view state i) where
  init hinit := ⟨h.invariant.init hinit, fun i => hp.init (h.init hinit i)⟩
  step hstate hstep := by
    refine ⟨h.invariant.step hstate.1 hstep.2, fun j => ?_⟩
    rcases h.step_local hstate.1 hstep.2 j with hsame | ⟨event, hevent, hiff⟩
    · rw [hsame]
      exact hstate.2 j
    · exact hp.step (hstate.2 j) ⟨hiff.mp hstep.1, hevent⟩

/-- A run of the system consists of steps that meet the condition, or a component is spoilt
at its end. -/
theorem Composed.restrict_or (h : sys.Composed guard comp localGuard view)
    (good bad : Local → Prop) (hgood : (comp.restrict localGuard).Invariant good)
    (hspoils : ∀ before event after, good before → ¬ localGuard before event →
      comp.step before event after → bad after)
    (hstays : ∀ before event after, bad before → comp.step before event after → bad after)
    {before after : State} {labels : List Label} (hsteps : sys.Steps before labels after)
    (hinit : sys.init before) :
    (sys.restrict guard).Steps before labels after ∨ ∃ i, bad (view after i) := by
  have hinv := h.invariant_restrict hgood
  have hor := hsteps.restrict_or guard (fun state => h.inv state ∧ ∀ i, good (view state i))
    (fun state => h.inv state ∧ ∃ i, bad (view state i))
    (fun _ _ _ hstate hguard hstep => hinv.step hstate ⟨hguard, hstep⟩) ?_ ?_ (hinv.init hinit)
  · exact hor.imp And.left And.right
  · intro before label after hstate hguard hstep
    refine ⟨h.invariant.step hstate.1 hstep, ?_⟩
    rcases h.step hstate.1 hstep with ⟨-, hmet⟩ | ⟨i, event, hevent, -, hiff⟩
    · exact absurd hmet hguard
    · exact ⟨i, hspoils _ _ _ (hstate.2 i) (fun hmet => hguard (hiff.mpr hmet)) hevent⟩
  · intro before label after ⟨hinv, i, hbad⟩ hstep
    refine ⟨h.invariant.step hinv hstep, i, ?_⟩
    rcases h.step_local hinv hstep i with hsame | ⟨event, hevent, -⟩
    · rw [hsame]
      exact hbad
    · exact hstays _ _ _ hbad hevent

end System

end Foundation
