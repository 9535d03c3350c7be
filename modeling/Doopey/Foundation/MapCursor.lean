import Mathlib.Data.List.Basic
import Std.Data.TreeMap

/-!
# Walking through an ordered map

A position in an ordered map is one of its keys, or the end. The position behind a
key is that of the next larger key; a key that is no longer in the map has none.
-/

namespace Foundation

variable {α β : Type*} {cmp : α → α → Ordering} (map : Std.TreeMap α β cmp)

/-- The first position. -/
def firstKey : Option α := map.keys.head?

/-- The key `other` stands behind `key`. -/
def isBehind (cmp : α → α → Ordering) (key other : α) : Bool := cmp key other == .lt

/-- The position behind a key of the map. -/
def advance (key : α) : Option (Option α) :=
  if map.contains key then some (map.keys.find? (isBehind cmp key)) else none

variable [Std.TransCmp cmp]

/-- Once the key is erased, there is no way on. -/
theorem advance_erase (key : α) : advance (map.erase key) key = none := by
  have heq : cmp key key = .eq := Std.ReflCmp.compare_self
  have hgone : ¬ (map.erase key).contains key = true := by
    simp [heq]
  exact if_neg hgone

variable {map}

/-- In the middle of the keys, the next one is the first of those behind. -/
theorem advance_eq {key : α} {before behind : List α} (hkeys : map.keys = before ++ key :: behind) :
    advance map key = some behind.head? := by
  have hmem : map.contains key = true := by
    apply Std.TreeMap.mem_iff_contains.mp
    apply Std.TreeMap.mem_of_mem_keys
    rw [hkeys]
    exact List.mem_append_right _ List.mem_cons_self
  obtain ⟨-, hbehind, hbefore⟩ := List.pairwise_append.mp (hkeys ▸ Std.TreeMap.ordered_keys (t := map))
  have hpassed : before.find? (isBehind cmp key) = none := by
    apply List.find?_eq_none.mpr
    intro other hother
    have hlt := hbefore other hother key List.mem_cons_self
    rw [isBehind, Std.OrientedCmp.gt_of_lt hlt]
    decide
  have hself : ¬ isBehind cmp key key = true := by
    have heq : cmp key key = .eq := Std.ReflCmp.compare_self
    rw [isBehind, heq]
    decide
  have hnext : behind.find? (isBehind cmp key) = behind.head? := by
    cases behind with
    | nil => rfl
    | cons next rest =>
        have hlt := (List.pairwise_cons.mp hbehind).1 next List.mem_cons_self
        exact List.find?_cons_of_pos (beq_iff_eq.mpr hlt)
  rw [advance, if_pos hmem, hkeys, List.find?_append, hpassed, Option.none_or,
    List.find?_cons_of_neg hself, hnext]

end Foundation
