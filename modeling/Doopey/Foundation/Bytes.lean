import Mathlib.Algebra.Group.Nat.Defs
import Mathlib.Data.List.Basic

/-!
# Little-endian integers

Numbers stored in a fixed number of bytes, least significant byte first, the way
`memcpy` sees the integers of the machine.
-/

namespace Foundation

/-- The lowest `width` bytes of a number. -/
def le : Nat → Nat → List UInt8
  | 0, _ => []
  | width + 1, n => UInt8.ofNat n :: le width (n / 256)

/-- The number stored in a sequence of bytes. -/
def ofLE : List UInt8 → Nat
  | [] => 0
  | b :: bytes => b.toNat + 256 * ofLE bytes

@[simp] theorem length_le (width n : Nat) : (le width n).length = width := by
  induction width generalizing n with
  | zero => rfl
  | succ width ih => simp [le, ih]

/-- Reading what was stored gives the number back, cut down to the width. -/
theorem ofLE_le (width n : Nat) : ofLE (le width n) = n % 256 ^ width := by
  induction width generalizing n with
  | zero => simp [le, ofLE, Nat.mod_one]
  | succ width ih =>
      have hbyte : (UInt8.ofNat n).toNat = n % 256 := UInt8.toNat_ofNat'
      rw [le, ofLE, ih, hbyte, Nat.pow_succ', Nat.mod_mul]

theorem ofLE_le_of_lt {width n : Nat} (hlt : n < 256 ^ width) : ofLE (le width n) = n := by
  rw [ofLE_le, Nat.mod_eq_of_lt hlt]

theorem ofLE_lt (bytes : List UInt8) : ofLE bytes < 256 ^ bytes.length := by
  induction bytes with
  | nil => exact Nat.one_pos
  | cons b bytes ih =>
      have hbyte : b.toNat < 256 := b.toNat_lt
      rw [ofLE, List.length_cons, Nat.pow_succ']
      omega

/-- Storing what was read gives the bytes back. -/
theorem le_ofLE (bytes : List UInt8) : le bytes.length (ofLE bytes) = bytes := by
  induction bytes with
  | nil => rfl
  | cons b bytes ih =>
      have hbyte : b.toNat < 256 := b.toNat_lt
      have hdiv : (b.toNat + 256 * ofLE bytes) / 256 = ofLE bytes := by omega
      have hmod : UInt8.ofNat (b.toNat + 256 * ofLE bytes) = b := by
        apply UInt8.toNat_inj.mp
        rw [UInt8.toNat_ofNat']
        omega
      rw [ofLE, List.length_cons, le, hmod, hdiv, ih]

/-- A number of `width` bytes in front of other bytes. -/
theorem ofLE_take_append {width n : Nat} (hlt : n < 256 ^ width) (rest : List UInt8) :
    ofLE ((le width n ++ rest).take width) = n := by
  rw [List.take_left' (length_le width n), ofLE_le_of_lt hlt]

end Foundation
