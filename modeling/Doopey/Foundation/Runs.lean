import Mathlib.Data.List.Basic

/-!
# Runs of transition systems

A labelled transition system, its finite runs, and the rule that what holds
initially and is preserved by every step holds in every state a run ends in.
Restricting the steps to those that meet a condition on the state before them
gives the runs about which conditional results speak.
-/

namespace Foundation

/-- A labelled transition system. -/
structure System (State Label : Type*) where
  init : State → Prop
  step : State → Label → State → Prop

namespace System

variable {State Label : Type*}

/-- Taking the steps `labels` one after the other can lead from one state to
the other. -/
inductive Steps (sys : System State Label) : State → List Label → State → Prop
  | nil (state : State) : Steps sys state [] state
  | cons {before middle after : State} {label : Label} {labels : List Label}
      (hstep : sys.step before label middle) (hrest : Steps sys middle labels after) :
      Steps sys before (label :: labels) after

/-- A run from an initial state. -/
def Run (sys : System State Label) (labels : List Label) (state : State) : Prop :=
  ∃ start, sys.init start ∧ sys.Steps start labels state

/-- One state can come before another one. -/
def Leads (sys : System State Label) (before after : State) : Prop :=
  ∃ labels, sys.Steps before labels after

/-- The system in which only the steps that meet `guard` are taken. -/
def restrict (sys : System State Label) (guard : State → Label → Prop) : System State Label where
  init := sys.init
  step before label after := guard before label ∧ sys.step before label after

/-- `inv` holds initially and is preserved by every step. -/
structure Invariant (sys : System State Label) (inv : State → Prop) : Prop where
  init {state : State} : sys.init state → inv state
  step {before after : State} {label : Label} :
    inv before → sys.step before label after → inv after

variable {sys : System State Label}

/-- Runs are put together. -/
theorem Steps.append {before middle after : State} {labels rest : List Label}
    (hsteps : sys.Steps before labels middle) (hrest : sys.Steps middle rest after) :
    sys.Steps before (labels ++ rest) after := by
  induction hsteps with
  | nil => exact hrest
  | cons hstep _ ih => exact .cons hstep (ih hrest)

/-- A run is taken apart. -/
theorem Steps.exists_of_append {before after : State} {labels rest : List Label}
    (hsteps : sys.Steps before (labels ++ rest) after) :
    ∃ middle, sys.Steps before labels middle ∧ sys.Steps middle rest after := by
  induction labels generalizing before with
  | nil => exact ⟨before, .nil before, hsteps⟩
  | cons label labels ih =>
      rw [List.cons_append] at hsteps
      cases hsteps with
      | cons hstep hrest =>
          obtain ⟨middle, hlabels, hrest⟩ := ih hrest
          exact ⟨middle, .cons hstep hlabels, hrest⟩

/-- The steps that meet a condition are steps. -/
theorem Steps.of_restrict {guard : State → Label → Prop} {before after : State}
    {labels : List Label} (hsteps : (sys.restrict guard).Steps before labels after) :
    sys.Steps before labels after := by
  induction hsteps with
  | nil state => exact .nil state
  | cons hstep _ ih => exact .cons hstep.2 ih

/-- Steps with labels that always meet a condition are steps that meet it. -/
theorem Steps.restrict {guard : State → Label → Prop} {before after : State} {labels : List Label}
    (hsteps : sys.Steps before labels after) (hguard : ∀ label ∈ labels, ∀ state, guard state label) :
    (sys.restrict guard).Steps before labels after := by
  induction hsteps with
  | nil state => exact .nil state
  | @cons before middle after label labels hstep _ ih =>
      exact .cons ⟨hguard label List.mem_cons_self before, hstep⟩
        (ih fun other hother => hguard other (List.mem_cons_of_mem _ hother))

/-- What every step keeps holds at the end of a run. -/
theorem Steps.keeps {p : State → Prop}
    (hkeeps : ∀ before label after, p before → sys.step before label after → p after)
    {before after : State} {labels : List Label} (hsteps : sys.Steps before labels after)
    (h : p before) : p after := by
  induction hsteps with
  | nil => exact h
  | cons hstep _ ih => exact ih (hkeeps _ _ _ h hstep)

/-- If every step keeps an invariant and leads to a related state, so does a run. -/
theorem Steps.relates {inv : State → Prop} {rel : State → State → Prop}
    (hrefl : ∀ state, rel state state)
    (htrans : ∀ {first second third}, rel first second → rel second third → rel first third)
    (hstep : ∀ {before label after}, inv before → sys.step before label after →
      inv after ∧ rel before after)
    {before after : State} {labels : List Label} (hsteps : sys.Steps before labels after)
    (h : inv before) : inv after ∧ rel before after := by
  induction hsteps with
  | nil state => exact ⟨h, hrefl state⟩
  | cons hfirst _ ih =>
      obtain ⟨hmiddle, hrel⟩ := hstep h hfirst
      obtain ⟨hafter, hrel'⟩ := ih hmiddle
      exact ⟨hafter, htrans hrel hrel'⟩

/-- Where a step that meets the condition keeps what is good, and any other step spoils it for
good, a run either consists of steps that meet the condition or ends in what is spoilt. -/
theorem Steps.restrict_or (guard : State → Label → Prop) (good bad : State → Prop)
    (hkeeps : ∀ before label after, good before → guard before label →
      sys.step before label after → good after)
    (hspoils : ∀ before label after, good before → ¬ guard before label →
      sys.step before label after → bad after)
    (hstays : ∀ before label after, bad before → sys.step before label after → bad after)
    {before after : State} {labels : List Label} (hsteps : sys.Steps before labels after)
    (hgood : good before) :
    (sys.restrict guard).Steps before labels after ∧ good after ∨ bad after := by
  induction hsteps with
  | nil state => exact Or.inl ⟨.nil state, hgood⟩
  | @cons before middle after label labels hstep hrest ih =>
      by_cases hguard : guard before label
      · rcases ih (hkeeps _ _ _ hgood hguard hstep) with ⟨hrest, hgood⟩ | hspoilt
        · exact Or.inl ⟨.cons ⟨hguard, hstep⟩ hrest, hgood⟩
        · exact Or.inr hspoilt
      · exact Or.inr (hrest.keeps hstays (hspoils _ _ _ hgood hguard hstep))

/-- A run in which the next state is computed from the label, where the steps are
those of the system so long as the states before them meet a condition. -/
theorem steps_of_foldlM_of_inv (inv : State → Prop) {next : State → Label → Option State}
    {labels : List Label} {before after : State}
    (hnext : ∀ label ∈ labels, ∀ before after, inv before → next before label = some after →
      sys.step before label after ∧ inv after)
    (hinv : inv before) (hfold : labels.foldlM next before = some after) :
    sys.Steps before labels after ∧ inv after := by
  induction labels generalizing before with
  | nil =>
      obtain rfl := Option.some.inj hfold
      exact ⟨.nil before, hinv⟩
  | cons label labels ih =>
      rw [List.foldlM_cons] at hfold
      obtain ⟨middle, hstep, hrest⟩ := Option.bind_eq_some_iff.mp hfold
      obtain ⟨hstep, hinv⟩ := hnext label List.mem_cons_self _ _ hinv hstep
      obtain ⟨hrest, hafter⟩ :=
        ih (fun other hother => hnext other (List.mem_cons_of_mem _ hother)) hinv hrest
      exact ⟨.cons hstep hrest, hafter⟩

theorem steps_of_foldlM {next : State → Label → Option State} {labels : List Label}
    {before after : State}
    (hnext : ∀ label ∈ labels, ∀ before after, next before label = some after →
      sys.step before label after)
    (hfold : labels.foldlM next before = some after) : sys.Steps before labels after := by
  refine (steps_of_foldlM_of_inv (fun _ => True) ?_ trivial hfold).1
  intro label hlabel before after _ hstep
  exact ⟨hnext label hlabel before after hstep, trivial⟩

/-- An invariant holds at the end of every run. -/
theorem Invariant.run {inv : State → Prop} (hinv : sys.Invariant inv) {labels : List Label}
    {state : State} (hrun : sys.Run labels state) : inv state := by
  obtain ⟨start, hinit, hsteps⟩ := hrun
  have hstart := hinv.init hinit
  clear hinit
  induction hsteps with
  | nil => exact hstart
  | cons hstep _ ih => exact ih (hinv.step hstart hstep)

/-- What holds in all runs holds in those that meet a condition. -/
theorem Invariant.restrict {inv : State → Prop} (hinv : sys.Invariant inv)
    (guard : State → Label → Prop) : (sys.restrict guard).Invariant inv where
  init := hinv.init
  step h hstep := hinv.step h hstep.2

end System

end Foundation
