import Mathlib.Data.List.Basic
import Mathlib.Order.Lattice

/-!
# The first of the largest offers

A loop that goes through places in order, some of which offer a value, and remembers
the place of a value that is larger than all before. It ends with the first place of the
largest offer, or where it started if no offer is large enough.
-/

namespace Foundation

variable {α : Type*} [LinearOrder α]

/-- The largest value so far and its place, after one more place. -/
def raise (offer : Nat → Option α) (best : α × Nat) (i : Nat) : α × Nat :=
  match offer i with
  | some value => if best.1 < value then (value, i) else best
  | none => best

/-- The place that the loop over `n` places ends with. -/
def firstMax (offer : Nat → Option α) (start : α) (n : Nat) : α × Nat :=
  (List.range n).foldl (raise offer) (start, 0)

/-- Some place offers more than the start. -/
def Offered (offer : Nat → Option α) (start : α) (n : Nat) : Prop :=
  ∃ i < n, ∃ value, offer i = some value ∧ start < value

/-- The place is the first one of those with the largest offer. -/
structure IsFirstMax (offer : Nat → Option α) (n place : Nat) (value : α) : Prop where
  lt : place < n
  offered : offer place = some value
  max {i : Nat} {other : α} : i < n → offer i = some other → other ≤ value
  first {i : Nat} {other : α} : i < place → offer i = some other → other < value

variable {offer : Nat → Option α} {start : α}

theorem not_offered_iff {n : Nat} :
    ¬ Offered offer start n ↔ ∀ i < n, ∀ value, offer i = some value → value ≤ start := by
  constructor
  · intro hnone i hi value hoffer
    exact not_lt.mp fun hlt => hnone ⟨i, hi, value, hoffer, hlt⟩
  · rintro hle ⟨i, hi, value, hoffer, hlt⟩
    exact absurd hlt (not_lt.mpr (hle i hi value hoffer))

/-- A larger offer behind all others is the first of the largest. -/
theorem isFirstMax_last {n : Nat} {value bound : α}
    (hbound : ∀ i < n, ∀ other, offer i = some other → other ≤ bound) (hlt : bound < value)
    (hoffer : offer n = some value) : IsFirstMax offer (n + 1) n value where
  lt := Nat.lt_succ_self n
  offered := hoffer
  max {i other} hi hother := by
    rcases Nat.lt_succ_iff_lt_or_eq.mp hi with hi | rfl
    · exact le_trans (hbound i hi other hother) (le_of_lt hlt)
    · exact le_of_eq (Option.some.inj (hother.symm.trans hoffer))
  first {i other} hi hother := lt_of_le_of_lt (hbound i hi other hother) hlt

/-- An offer that is not larger changes nothing. -/
theorem IsFirstMax.succ {n place : Nat} {value : α} (h : IsFirstMax offer n place value)
    (hoffer : ∀ other, offer n = some other → other ≤ value) :
    IsFirstMax offer (n + 1) place value where
  lt := Nat.lt_succ_of_lt h.lt
  offered := h.offered
  max {i other} hi hother := by
    rcases Nat.lt_succ_iff_lt_or_eq.mp hi with hi | rfl
    · exact h.max hi hother
    · exact hoffer other hother
  first := h.first

/-- What the loop knows after `n` places. -/
theorem firstMax_spec (n : Nat) :
    (¬ Offered offer start n ∧ firstMax offer start n = (start, 0)) ∨
      ∃ value place, start < value ∧ firstMax offer start n = (value, place) ∧
        IsFirstMax offer n place value := by
  induction n with
  | zero =>
      refine Or.inl ⟨?_, rfl⟩
      rintro ⟨i, hi, -⟩
      exact absurd hi (Nat.not_lt_zero i)
  | succ n ih =>
      have hround : firstMax offer start (n + 1) = raise offer (firstMax offer start n) n := by
        rw [firstMax, List.range_succ, List.foldl_concat, firstMax]
      rw [hround]
      rcases ih with ⟨hnone, hstate⟩ | ⟨value, place, hstart, hstate, hmax⟩
      · rw [not_offered_iff] at hnone
        rw [hstate, raise]
        split
        next value hoffer =>
          by_cases hlt : start < value
          · exact Or.inr ⟨value, n, hlt, if_pos hlt, isFirstMax_last hnone hlt hoffer⟩
          · refine Or.inl ⟨not_offered_iff.mpr fun i hi other hother => ?_, if_neg hlt⟩
            rcases Nat.lt_succ_iff_lt_or_eq.mp hi with hi | rfl
            · exact hnone i hi other hother
            · rw [← Option.some.inj (hoffer.symm.trans hother)]
              exact not_lt.mp hlt
        next hoffer =>
          refine Or.inl ⟨not_offered_iff.mpr fun i hi other hother => ?_, rfl⟩
          rcases Nat.lt_succ_iff_lt_or_eq.mp hi with hi | rfl
          · exact hnone i hi other hother
          · exact absurd (hoffer.symm.trans hother) (by simp)
      · rw [hstate, raise]
        split
        next other hoffer =>
          by_cases hlt : value < other
          · exact Or.inr ⟨other, n, lt_trans hstart hlt, if_pos hlt,
              isFirstMax_last (fun i hi _ hother => hmax.max hi hother) hlt hoffer⟩
          · refine Or.inr ⟨value, place, hstart, if_neg hlt, hmax.succ fun other' hother' => ?_⟩
            rw [← Option.some.inj (hoffer.symm.trans hother')]
            exact not_lt.mp hlt
        next hoffer =>
          refine Or.inr ⟨value, place, hstart, rfl, hmax.succ fun other hother => ?_⟩
          exact absurd (hoffer.symm.trans hother) (by simp)

/-- The loop ends with the first place of the largest offer, or with the first place of all. -/
theorem firstMax_eq (n : Nat) :
    (Offered offer start n → ∃ value, start < value ∧
      IsFirstMax offer n (firstMax offer start n).2 value) ∧
    (¬ Offered offer start n → (firstMax offer start n).2 = 0) := by
  rcases @firstMax_spec _ _ offer start n with ⟨hnone, hstate⟩ | ⟨value, place, hstart, hstate, hmax⟩
  · exact ⟨fun h => absurd h hnone, fun _ => by rw [hstate]⟩
  · refine ⟨fun _ => ⟨value, hstart, by rwa [hstate]⟩, fun hnone => ?_⟩
    exact absurd ⟨place, hmax.lt, value, hmax.offered, hstart⟩ hnone

end Foundation
