import Mathlib.Data.List.Induction

/-!
# Erasing while counting down

A loop that goes through a list from its last place to its first one and erases the
elements that fail a test: the places in front of it do not move, so every element is
tested at the place it had, and what is left are the elements that pass.
-/

namespace Foundation

variable {α : Type*}

/-- The elements whose places pass a test. -/
def keptAt (keep : Nat → Bool) (xs : List α) : List α :=
  (xs.zipIdx.filter fun entry => keep entry.2).map Prod.fst

/-- Erase what fails the test, from the place in front of `n` down to the first one. -/
def eraseDown (keep : Nat → Bool) : Nat → List α → List α
  | 0, xs => xs
  | n + 1, xs => eraseDown keep n (if keep n then xs else xs.eraseIdx n)

variable {keep : Nat → Bool}

theorem keptAt_concat (xs : List α) (x : α) :
    keptAt keep (xs ++ [x]) = keptAt keep xs ++ if keep xs.length then [x] else [] := by
  rw [keptAt, List.zipIdx_append, List.filter_append, List.map_append, keptAt]
  congr 1
  rw [List.zipIdx_singleton, Nat.zero_add, List.filter_cons, List.filter_nil]
  cases keep xs.length <;> rfl

theorem eraseDown_append (front back : List α) :
    eraseDown keep front.length (front ++ back) = keptAt keep front ++ back := by
  induction front using List.reverseRecOn generalizing back with
  | nil => rfl
  | append_singleton front x ih =>
      rw [List.length_append, List.length_singleton, eraseDown, keptAt_concat]
      cases hkeep : keep front.length with
      | true =>
          rw [if_pos rfl, if_pos rfl, List.append_assoc, List.append_assoc]
          exact ih _
      | false =>
          have herase : (front ++ [x] ++ back).eraseIdx front.length = front ++ back := by
            rw [List.append_assoc, List.eraseIdx_append_of_length_le (Nat.le_refl _), Nat.sub_self]
            rfl
          rw [if_neg (by simp), if_neg (by simp), herase, List.append_nil]
          exact ih back

/-- The whole list is left with the elements that pass. -/
theorem eraseDown_length (xs : List α) : eraseDown keep xs.length xs = keptAt keep xs := by
  have herase := @eraseDown_append _ keep xs []
  rwa [List.append_nil, List.append_nil] at herase

theorem mem_keptAt_iff {xs : List α} {x : α} :
    x ∈ keptAt keep xs ↔ ∃ i, xs[i]? = some x ∧ keep i = true := by
  rw [keptAt, List.mem_map]
  constructor
  · rintro ⟨⟨y, i⟩, hmem, rfl⟩
    rw [List.mem_filter, List.mk_mem_zipIdx_iff_getElem?] at hmem
    exact ⟨i, hmem⟩
  · rintro ⟨i, hget, hkeep⟩
    exact ⟨(x, i), List.mem_filter.mpr ⟨List.mk_mem_zipIdx_iff_getElem?.mpr hget, hkeep⟩, rfl⟩

theorem keptAt_sublist (xs : List α) : (keptAt keep xs).Sublist xs := by
  have hsublist := (List.filter_sublist (p := fun entry : α × Nat => keep entry.2)
    (l := xs.zipIdx)).map Prod.fst
  rwa [List.zipIdx_map_fst] at hsublist

/-- A test of the elements themselves. -/
theorem keptAt_eq_filter {xs : List α} {p : α → Bool}
    (hkeep : ∀ i x, xs[i]? = some x → keep i = p x) : keptAt keep xs = xs.filter p := by
  induction xs using List.reverseRecOn with
  | nil => rfl
  | append_singleton xs x ih =>
      have hlast : keep xs.length = p x := hkeep _ _ List.getElem?_concat_length
      rw [keptAt_concat, List.filter_append, hlast, List.filter_cons, List.filter_nil]
      congr 1
      apply ih
      intro i y hget
      apply hkeep
      rwa [List.getElem?_append_left (List.getElem?_eq_some_iff.mp hget).1]

end Foundation
