import Mathlib.Data.List.Nodup

/-!
# Doubly linked chains in a heap

A heap is a partial map from addresses to cells. A chain is described by the
list of its addresses, in order, together with the backward link its first cell
must carry. Cells of any type are allowed: the two link fields are read through
projections, so that updates of every other field leave a chain unchanged.
-/

namespace Foundation.DoublyLinked

variable {Cell : Type*} (next last : Cell → Option Nat)

/-- The cells at `addresses` form a chain entered at `first`, whose first cell
points back to `before` and whose last cell has no successor. -/
def Chain (heap : Nat → Option Cell) : Option Nat → Option Nat → List Nat → Prop
  | _, first, [] => first = none
  | before, first, address :: rest =>
      first = some address ∧ ∃ cell, heap address = some cell ∧ last cell = before ∧
        Chain heap (some address) (next cell) rest

variable {next last} {heap : Nat → Option Cell}

@[simp] theorem chain_nil {before first : Option Nat} :
    Chain next last heap before first [] ↔ first = none := Iff.rfl

theorem chain_cons {before first : Option Nat} {address : Nat} {rest : List Nat} :
    Chain next last heap before first (address :: rest) ↔
      first = some address ∧ ∃ cell, heap address = some cell ∧ last cell = before ∧
        Chain next last heap (some address) (next cell) rest := Iff.rfl

namespace Chain

/-- A chain only depends on the links of its own cells. -/
theorem congr {heap' : Nat → Option Cell} {before first : Option Nat} {addresses : List Nat}
    (hchain : Chain next last heap before first addresses)
    (hlinks : ∀ address ∈ addresses, ∀ cell, heap address = some cell →
      ∃ cell', heap' address = some cell' ∧ next cell' = next cell ∧ last cell' = last cell) :
    Chain next last heap' before first addresses := by
  induction addresses generalizing before first with
  | nil => exact hchain
  | cons head rest ih =>
      obtain ⟨hfirst, cell, hcell, hlast, hrest⟩ := hchain
      obtain ⟨cell', hcell', hnext, hlast'⟩ := hlinks head List.mem_cons_self cell hcell
      refine ⟨hfirst, cell', hcell', hlast'.trans hlast, ?_⟩
      rw [hnext]
      exact ih hrest (fun address hmem => hlinks address (List.mem_cons_of_mem _ hmem))

/-- The forward links of a chain stay in it. -/
theorem next_mem {before first : Option Nat} {addresses : List Nat}
    (hchain : Chain next last heap before first addresses) {address after : Nat}
    (hmem : address ∈ addresses) {cell : Cell} (hcell : heap address = some cell)
    (hnext : next cell = some after) : after ∈ addresses := by
  induction addresses generalizing before first with
  | nil => simp at hmem
  | cons head rest ih =>
      obtain ⟨_, cell', hcell', _, hrest⟩ := hchain
      rcases List.mem_cons.mp hmem with rfl | hmem
      · obtain rfl := Option.some.inj (hcell'.symm.trans hcell)
        cases rest with
        | nil => rw [chain_nil, hnext] at hrest; exact absurd hrest (by simp)
        | cons second rest =>
            obtain rfl := Option.some.inj (hnext.symm.trans hrest.1)
            exact List.mem_cons_of_mem _ List.mem_cons_self
      · exact List.mem_cons_of_mem _ (ih hrest hmem)

/-- A successor points back. -/
theorem last_of_next {before first : Option Nat} {addresses : List Nat}
    (hchain : Chain next last heap before first addresses) {address after : Nat}
    (hmem : address ∈ addresses) {cell : Cell} (hcell : heap address = some cell)
    (hnext : next cell = some after) :
    ∃ cell', heap after = some cell' ∧ last cell' = some address := by
  induction addresses generalizing before first with
  | nil => simp at hmem
  | cons head rest ih =>
      obtain ⟨_, cell', hcell', _, hrest⟩ := hchain
      rcases List.mem_cons.mp hmem with rfl | hmem
      · obtain rfl := Option.some.inj (hcell'.symm.trans hcell)
        cases rest with
        | nil => rw [chain_nil, hnext] at hrest; exact absurd hrest (by simp)
        | cons second rest =>
            obtain ⟨hsecond, found, hfound, hlast, -⟩ := hrest
            obtain rfl := Option.some.inj (hnext.symm.trans hsecond)
            exact ⟨found, hfound, hlast⟩
      · exact ih hrest hmem

/-- A predecessor points forward, unless it is the one in front of the chain. -/
theorem next_of_last {before first : Option Nat} {addresses : List Nat}
    (hchain : Chain next last heap before first addresses) {address prior : Nat}
    (hmem : address ∈ addresses) {cell : Cell} (hcell : heap address = some cell)
    (hlast : last cell = some prior) :
    (before = some prior ∧ first = some address) ∨
      ∃ cell', heap prior = some cell' ∧ next cell' = some address := by
  induction addresses generalizing before first with
  | nil => simp at hmem
  | cons head rest ih =>
      obtain ⟨hfirst, cell', hcell', hbefore, hrest⟩ := hchain
      rcases List.mem_cons.mp hmem with rfl | hmem
      · obtain rfl := Option.some.inj (hcell'.symm.trans hcell)
        exact Or.inl ⟨hbefore.symm.trans hlast, hfirst⟩
      · rcases ih hrest hmem with ⟨hprior, hnext⟩ | hprior
        · obtain rfl := Option.some.inj hprior
          exact Or.inr ⟨cell', hcell', hnext⟩
        · exact Or.inr hprior

/-- What holds of the first cell and passes on along forward links holds of
every cell of a chain. -/
theorem forall_of_next {before first : Option Nat} {addresses : List Nat}
    (hchain : Chain next last heap before first addresses) (property : Nat → Prop)
    (hfirst : ∀ address, first = some address → property address)
    (hstep : ∀ address cell after, property address → heap address = some cell →
      next cell = some after → property after) :
    ∀ address ∈ addresses, property address := by
  induction addresses generalizing before first with
  | nil => simp
  | cons head rest ih =>
      obtain ⟨hhead, cell, hcell, _, hrest⟩ := hchain
      have hproperty : property head := hfirst head hhead
      intro address hmem
      rcases List.mem_cons.mp hmem with rfl | hmem
      · exact hproperty
      · exact ih hrest (fun after hafter => hstep head cell after hproperty hcell hafter) address hmem

/-- Hanging a fresh cell behind the end of a chain: only the forward link of the
old end changes, and the fresh cell points back to it. -/
theorem append {heap' : Nat → Option Cell} {before first : Option Nat}
    {addresses : List Nat} {fresh : Nat}
    (hchain : Chain next last heap before first addresses)
    (hne : addresses ≠ []) (hnodup : addresses.Nodup)
    (hkeep : ∀ address ∈ addresses, address ≠ addresses.getLast hne →
      ∀ cell, heap address = some cell →
        ∃ cell', heap' address = some cell' ∧ next cell' = next cell ∧ last cell' = last cell)
    (hend : ∀ cell, heap (addresses.getLast hne) = some cell →
      ∃ cell', heap' (addresses.getLast hne) = some cell' ∧
        next cell' = some fresh ∧ last cell' = last cell)
    (hfresh : ∃ cell, heap' fresh = some cell ∧
      last cell = some (addresses.getLast hne) ∧ next cell = none) :
    Chain next last heap' before first (addresses ++ [fresh]) := by
  induction addresses generalizing before first with
  | nil => exact absurd rfl hne
  | cons head rest ih =>
      obtain ⟨hfirst, cell, hcell, hlast, hrest⟩ := hchain
      cases rest with
      | nil =>
          obtain ⟨cell', hcell', hnext, hlast'⟩ := hend cell hcell
          obtain ⟨new, hnew, hback, hstop⟩ := hfresh
          refine ⟨hfirst, cell', hcell', hlast'.trans hlast, ?_⟩
          exact ⟨hnext, new, hnew, hback, hstop⟩
      | cons second rest =>
          obtain ⟨hnot, hnodup⟩ := List.nodup_cons.mp hnodup
          have hhead : head ≠ (head :: second :: rest).getLast hne := by
            intro heq
            apply hnot
            rw [heq, List.getLast_cons (List.cons_ne_nil second rest)]
            exact List.getLast_mem _
          obtain ⟨cell', hcell', hnext, hlast'⟩ :=
            hkeep head List.mem_cons_self hhead cell hcell
          refine ⟨hfirst, cell', hcell', hlast'.trans hlast, ?_⟩
          rw [hnext]
          refine ih hrest (List.cons_ne_nil _ _) hnodup ?_ ?_ ?_
          · intro address hmem hneLast
            refine hkeep address (List.mem_cons_of_mem _ hmem) ?_
            rwa [List.getLast_cons (List.cons_ne_nil second rest)]
          · rwa [List.getLast_cons (List.cons_ne_nil second rest)] at hend
          · rwa [List.getLast_cons (List.cons_ne_nil second rest)] at hfresh

/-- Unhooking the first cell of a chain: its successor, if there is one, takes
over the backward link, and no other cell of the rest changes. -/
theorem tail {heap' : Nat → Option Cell} {before first : Option Nat}
    {head : Nat} {rest : List Nat} {cell : Cell}
    (hchain : Chain next last heap before first (head :: rest))
    (hcell : heap head = some cell)
    (hsecond : ∀ second, rest.head? = some second → ∀ old, heap second = some old →
      ∃ new, heap' second = some new ∧ next new = next old ∧ last new = before)
    (hkeep : ∀ address ∈ rest.tail, ∀ old, heap address = some old →
      ∃ new, heap' address = some new ∧ next new = next old ∧ last new = last old) :
    Chain next last heap' before (next cell) rest := by
  obtain ⟨_, cell', hcell', _, hrest⟩ := hchain
  obtain rfl : cell' = cell := Option.some.inj (hcell'.symm.trans hcell)
  cases rest with
  | nil => exact hrest
  | cons second rest =>
      obtain ⟨hfirst, old, hold, _, hrest⟩ := hrest
      obtain ⟨new, hnew, hnext, hlast⟩ := hsecond second rfl old hold
      refine ⟨hfirst, new, hnew, hlast, ?_⟩
      rw [hnext]
      exact hrest.congr hkeep

end Chain

end Foundation.DoublyLinked
