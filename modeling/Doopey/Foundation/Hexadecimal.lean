import Mathlib.Algebra.Order.Ring.Nat
import Mathlib.Data.List.Basic
import Mathlib.Data.Nat.Notation

/-!
# Hexadecimal numerals

Numbers written with a fixed number of upper-case hexadecimal digits, and the
number a sequence of digits of either case stands for.
-/

namespace Foundation

/-- The upper-case digit of a value below 16. -/
def hexDigit (value : Nat) : UInt8 :=
  if value < 10 then 48 + .ofNat value else 55 + .ofNat value

/-- The lowest `width` digits of a number, most significant first. -/
def hexadecimal : Nat → Nat → List UInt8
  | 0, _ => []
  | width + 1, n => hexadecimal width (n / 16) ++ [hexDigit (n % 16)]

/-- The value of a digit. -/
def hexValue (b : UInt8) : Option Nat :=
  if 48 ≤ b ∧ b ≤ 57 then some (b.toNat - 48)
  else if 65 ≤ b ∧ b ≤ 70 then some (b.toNat - 55)
  else if 97 ≤ b ∧ b ≤ 102 then some (b.toNat - 87)
  else none

/-- A hexadecimal digit. -/
def isHexDigit (b : UInt8) : Bool := (hexValue b).isSome

/-- The value of a sequence of digits. -/
def ofHexadecimal (digits : List UInt8) : Nat :=
  digits.foldl (fun value b => 16 * value + (hexValue b).getD 0) 0

theorem hexValue_hexDigit : ∀ value < 16, hexValue (hexDigit value) = some value := by decide

@[simp] theorem length_hexadecimal (width n : Nat) : (hexadecimal width n).length = width := by
  induction width generalizing n with
  | zero => rfl
  | succ width ih => rw [hexadecimal, List.length_append, ih, List.length_singleton]

/-- Only upper-case digits are written. -/
theorem exists_of_mem_hexadecimal {width n : Nat} {b : UInt8} (hmem : b ∈ hexadecimal width n) :
    ∃ value < 16, b = hexDigit value := by
  induction width generalizing n with
  | zero => exact absurd hmem List.not_mem_nil
  | succ width ih =>
      rcases List.mem_append.mp hmem with hhigh | hlow
      · exact ih hhigh
      · exact ⟨n % 16, Nat.mod_lt _ (by decide), List.mem_singleton.mp hlow⟩

/-- Reading a numeral that is wide enough gives the number back. -/
theorem ofHexadecimal_hexadecimal {width n : Nat} (hn : n < 16 ^ width) :
    ofHexadecimal (hexadecimal width n) = n := by
  induction width generalizing n with
  | zero =>
      rw [Nat.pow_zero, Nat.lt_one_iff] at hn
      rw [hn]
      rfl
  | succ width ih =>
      have hhigh : n / 16 < 16 ^ width := by
        apply Nat.div_lt_of_lt_mul
        rwa [Nat.pow_succ, Nat.mul_comm] at hn
      have hlow : hexValue (hexDigit (n % 16)) = some (n % 16) :=
        hexValue_hexDigit _ (Nat.mod_lt _ (by decide))
      rw [hexadecimal, ofHexadecimal, List.foldl_append, ← ofHexadecimal, ih hhigh,
        List.foldl_cons, List.foldl_nil, hlow]
      exact Nat.div_add_mod n 16

theorem hexadecimal_injective {width m n : Nat} (hm : m < 16 ^ width) (hn : n < 16 ^ width)
    (heq : hexadecimal width m = hexadecimal width n) : m = n := by
  rw [← ofHexadecimal_hexadecimal hm, heq, ofHexadecimal_hexadecimal hn]

end Foundation
