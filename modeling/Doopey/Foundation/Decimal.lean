import Mathlib.Data.List.TakeWhile
import Mathlib.Data.Nat.Notation

/-!
# Decimal numerals

Numbers written as sequences of ASCII digits, and the number a sequence of bytes
starts with.
-/

namespace Foundation

/-- The decimal digits of a number, most significant first. -/
def decimal (n : Nat) : List UInt8 := (Nat.toDigits 10 n).map Char.toUInt8

/-- An ASCII digit. -/
def isDigit (b : UInt8) : Bool := 48 ≤ b && b ≤ 57

/-- The value of a sequence of digits. -/
def ofDecimal (digits : List UInt8) : Nat :=
  digits.foldl (fun value b => 10 * value + (b.toNat - 48)) 0

theorem isDigit_toUInt8 {c : Char} (hdigit : c.isDigit) :
    isDigit c.toUInt8 ∧ c.toUInt8.toNat = c.toNat := by
  simp only [Char.isDigit, Bool.and_eq_true, decide_eq_true_eq] at hdigit
  obtain ⟨hlow, hhigh⟩ := hdigit
  have hlow' : 48 ≤ c.toNat := hlow
  have hhigh' : c.toNat ≤ 57 := hhigh
  have htoNat : c.toUInt8.toNat = c.toNat := by
    have : c.toUInt8.toNat = c.toNat % 256 := rfl
    omega
  refine ⟨?_, htoNat⟩
  simp only [isDigit, Bool.and_eq_true, decide_eq_true_eq, UInt8.le_iff_toNat_le, htoNat]
  exact ⟨hlow', hhigh'⟩

/-- Only digits are written. -/
theorem isDigit_of_mem_decimal {n : Nat} {b : UInt8} (hmem : b ∈ decimal n) : isDigit b := by
  obtain ⟨c, hc, rfl⟩ := List.mem_map.mp hmem
  exact (isDigit_toUInt8 (Nat.isDigit_of_mem_toDigits (by decide) (by decide) hc)).1

theorem decimal_ne_nil (n : Nat) : decimal n ≠ [] := by
  simp [decimal, Nat.toDigits_ne_nil]

/-- Reading a numeral gives the number back. -/
@[simp] theorem ofDecimal_decimal (n : Nat) : ofDecimal (decimal n) = n := by
  have hfold : ∀ (digits : List Char) (init : Nat), (∀ c ∈ digits, c.isDigit) →
      (digits.map Char.toUInt8).foldl (fun value b => 10 * value + (b.toNat - 48)) init =
        Nat.ofDigitChars 10 digits init := by
    intro digits
    induction digits with
    | nil => simp
    | cons c digits ih =>
        intro init hdigits
        rw [List.map_cons, List.foldl_cons, Nat.ofDigitChars_cons,
          (isDigit_toUInt8 (hdigits c List.mem_cons_self)).2]
        exact ih _ fun c' hmem => hdigits c' (List.mem_cons_of_mem _ hmem)
  rw [ofDecimal, decimal, hfold _ _ fun c hc =>
    Nat.isDigit_of_mem_toDigits (by decide) (by decide) hc]
  exact Nat.ofDigitChars_ten_toDigits

/-- The digits in front of anything else are the numeral. -/
theorem takeWhile_decimal (n : Nat) (rest : List UInt8) (hrest : ∀ b ∈ rest.head?, ¬ isDigit b) :
    (decimal n ++ rest).takeWhile isDigit = decimal n := by
  rw [List.takeWhile_append_of_pos fun b hb => isDigit_of_mem_decimal hb]
  cases rest with
  | nil => simp
  | cons b rest => simp [hrest b rfl]

end Foundation
