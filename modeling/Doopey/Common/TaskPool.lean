import Mathlib.Algebra.BigOperators.Group.Finset.Basic
import Mathlib.Algebra.BigOperators.Group.Finset.Piecewise
import Mathlib.Algebra.Order.BigOperators.Group.Finset
import Mathlib.Data.Multiset.AddSub
import Doopey.Common.TaskRuns

/-!
# Several worker threads

The dispatcher and a download each have a few `TaskThread`s, and give each task to one that
is free. What the workers have accepted and started is counted over all of them.
-/

namespace Doopey

namespace TaskThread

variable {φ α ι : Type*} [Fintype ι]

/-- The calls that all workers have accepted, when one of them has accepted more. -/
theorem sum_accepted_update [DecidableEq ι] (threadPool : ι → TaskThread φ α) (i : ι)
    (thread : TaskThread φ α) {calls : List (Call φ α)}
    (h : thread.accepted = (threadPool i).accepted ++ calls) :
    ∑ j, ((Function.update threadPool i thread j).accepted : Multiset (Call φ α)) =
      ∑ j, ((threadPool j).accepted : Multiset (Call φ α)) + calls := by
  have hrest : ∑ j ∈ Finset.univ.erase i,
        ((Function.update threadPool i thread j).accepted : Multiset (Call φ α)) =
      ∑ j ∈ Finset.univ.erase i, ((threadPool j).accepted : Multiset (Call φ α)) := by
    refine Finset.sum_congr rfl fun j hj => ?_
    rw [Function.update_of_ne (Finset.ne_of_mem_erase hj)]
  rw [← Finset.add_sum_erase _ _ (Finset.mem_univ i), hrest, Function.update_self, h,
    ← Finset.add_sum_erase _ (fun j => ((threadPool j).accepted : Multiset (Call φ α)))
      (Finset.mem_univ i), ← Multiset.coe_add, add_right_comm]

theorem sum_accepted_update_of_eq [DecidableEq ι] (threadPool : ι → TaskThread φ α) (i : ι)
    (thread : TaskThread φ α) (h : thread.accepted = (threadPool i).accepted) :
    ∑ j, ((Function.update threadPool i thread j).accepted : Multiset (Call φ α)) =
      ∑ j, ((threadPool j).accepted : Multiset (Call φ α)) := by
  rw [← List.append_nil (threadPool i).accepted] at h
  rw [sum_accepted_update threadPool i thread h, Multiset.coe_nil, add_zero]

theorem mem_sum_accepted {threadPool : ι → TaskThread φ α} {i : ι} {call : Call φ α}
    (h : call ∈ (threadPool i).accepted) :
    call ∈ ∑ j, ((threadPool j).accepted : Multiset (Call φ α)) :=
  Multiset.mem_sum.mpr ⟨i, Finset.mem_univ i, Multiset.mem_coe.mpr h⟩

/-- No more calls are made than are accepted. -/
theorem card_started_le {threadPool : ι → TaskThread φ α} (hown : ∀ i, (threadPool i).Own) :
    (∑ i, ((threadPool i).started : Multiset (Call φ α))).card ≤
      (∑ i, ((threadPool i).accepted : Multiset (Call φ α))).card := by
  simp only [Multiset.card_sum, Multiset.coe_card]
  exact Finset.sum_le_sum fun j _ => (hown j).toSound.started

/-- Every worker has made the calls that it has accepted, when they are the same of all workers
taken together, and an argument is either `NULL` in all of them or in none. -/
theorem started_eq_of_sum {threadPool : ι → TaskThread φ α} (hown : ∀ i, (threadPool i).Own)
    (hsum : ∑ i, ((threadPool i).started : Multiset (Call φ α)) =
      ∑ i, ((threadPool i).accepted : Multiset (Call φ α)))
    (hnull : ∀ call ∈ ∑ i, ((threadPool i).accepted : Multiset (Call φ α)),
      ∀ other ∈ ∑ i, ((threadPool i).accepted : Multiset (Call φ α)), ∀ arg,
        call.args arg = none → other.args arg = none) (i : ι) :
    (threadPool i).started = (threadPool i).accepted := by
  have hlength : (threadPool i).started.length = (threadPool i).accepted.length := by
    have hcard := congrArg Multiset.card hsum
    simp only [Multiset.card_sum, Multiset.coe_card] at hcard
    exact (Finset.sum_eq_sum_iff_of_le fun j _ => (hown j).toSound.started).mp hcard i
      (Finset.mem_univ i)
  refine List.ext_getElem? fun k => ?_
  cases hmade : (threadPool i).started[k]? with
  | none =>
      rw [List.getElem?_eq_none_iff, hlength] at hmade
      exact (List.getElem?_eq_none hmade).symm
  | some made =>
      obtain ⟨call, haccepted, htask, hargs⟩ := (hown i).started_keeps hmade
      have hmem : made ∈ ∑ j, ((threadPool j).accepted : Multiset (Call φ α)) := by
        rw [← hsum]
        exact Multiset.mem_sum.mpr ⟨i, Finset.mem_univ i,
          Multiset.mem_coe.mpr (List.mem_of_getElem? hmade)⟩
      have hcall := mem_sum_accepted (List.mem_of_getElem? haccepted)
      have hsame : made.args = call.args := by
        funext arg
        rcases hargs arg with hsame | hnone
        · exact hsame
        · rw [hnone, hnull made hmem call hcall arg hnone]
      rw [haccepted]
      cases made
      cases call
      obtain rfl := htask
      obtain rfl := hsame
      rfl

end TaskThread

end Doopey
