import Mathlib.Algebra.Group.Nat.Defs
import Doopey.Foundation.Decimal
import Doopey.Foundation.Fields
import Doopey.Common.Base

/-!
# The snapshot file

`ServerSnapshot` keeps the machine ID and the dump of the file tree in a text
file. The dump is written as it is and read back word by word.
-/

namespace Doopey

open Foundation

/-- `std::isspace` in the `"C"` locale, the separators of formatted input. -/
def isSpace (b : UInt8) : Bool := b = 32 || (9 ≤ b && b ≤ 13)

/-- `class ServerSnapshot` -/
structure ServerSnapshot where
  machineID : MachineID
  dumpFileTree : Bytes

namespace ServerSnapshot

/-- The content `ServerSnapshot::save` gives the file. -/
def save (snapshot : ServerSnapshot) : Bytes :=
  decimal snapshot.machineID.toNat ++ newline :: snapshot.dumpFileTree

/-- `operator>>` into a `MachineID`, behind the separators: the number, and what is left of the
text unless the stream fails. -/
def readMachineID (text : Bytes) : MachineID × Option Bytes :=
  let number (sign : MachineID) (text : Bytes) : MachineID × Option Bytes :=
    let digits := text.takeWhile isDigit
    if digits = [] then (0, none)
    else if 2 ^ 32 ≤ ofDecimal digits then (0xFFFFFFFF, none)
    else (sign * .ofNat (ofDecimal digits), some (text.dropWhile isDigit))
  match text with
  | [] => (0, none)
  | b :: rest =>
      -- a number with a minus wraps around
      if b = 45 then number (-1) rest
      else if b = 43 then number 1 rest
      else number 1 (b :: rest)

/-- `ServerSnapshot::load` on the content of the file, into an object with the ID `machineID`,
which stays if the file has no word. A stream that fails yields no more words. -/
def load (machineID : MachineID) (content : Bytes) : ServerSnapshot :=
  let text := content.dropWhile isSpace
  if text = [] then ⟨machineID, []⟩
  else match readMachineID text with
    | (machineID, none) => ⟨machineID, []⟩
    | (machineID, some rest) =>
        ⟨machineID, (words isSpace [] rest).flatMap (· ++ [newline])⟩

theorem not_isSpace_of_isDigit {b : UInt8} (hdigit : isDigit b) : ¬ isSpace b := by
  simp only [isDigit, isSpace, Bool.and_eq_true, Bool.or_eq_true, decide_eq_true_eq,
    UInt8.le_iff_toNat_le, ← UInt8.toNat_inj] at hdigit ⊢
  simp at hdigit ⊢
  omega

/-- The number in front of a text is read back. -/
theorem readMachineID_decimal (machineID : MachineID) {rest : Bytes}
    (hrest : ∀ b ∈ rest.head?, ¬ isDigit b) :
    readMachineID (decimal machineID.toNat ++ rest) = (machineID, some rest) := by
  have hdigits : (decimal machineID.toNat ++ rest).takeWhile isDigit = decimal machineID.toNat :=
    takeWhile_decimal _ _ hrest
  have hdrop : (decimal machineID.toNat ++ rest).dropWhile isDigit = rest := by
    have happend := List.takeWhile_append_dropWhile (p := isDigit)
      (l := decimal machineID.toNat ++ rest)
    rw [hdigits] at happend
    exact List.append_cancel_left happend
  have hlt : ¬ 2 ^ 32 ≤ machineID.toNat := Nat.not_le_of_lt machineID.toNat_lt
  cases htext : decimal machineID.toNat with
  | nil => exact absurd htext (decimal_ne_nil _)
  | cons b digits =>
      have hdigit : isDigit b := by
        refine isDigit_of_mem_decimal (n := machineID.toNat) ?_
        rw [htext]
        exact List.mem_cons_self
      have hsign : b ≠ 45 ∧ b ≠ 43 := by
        constructor <;> rintro rfl <;> exact absurd hdigit (by decide)
      rw [htext, List.cons_append] at hdigits hdrop
      simp only [readMachineID, List.cons_append, hsign.1, hsign.2, ↓reduceIte, hdigits, hdrop]
      rw [← htext, if_neg (decimal_ne_nil _), ofDecimal_decimal, if_neg hlt, UInt32.ofNat_toNat,
        UInt32.one_mul]

/-- A saved snapshot begins with a digit. -/
theorem exists_save_eq_cons (snapshot : ServerSnapshot) :
    ∃ b rest, snapshot.save = b :: rest ∧ ¬ isSpace b := by
  unfold save
  cases hdecimal : decimal snapshot.machineID.toNat with
  | nil => exact absurd hdecimal (decimal_ne_nil _)
  | cons b rest =>
      refine ⟨b, _, List.cons_append, not_isSpace_of_isDigit ?_⟩
      refine isDigit_of_mem_decimal (n := snapshot.machineID.toNat) ?_
      rw [hdecimal]
      exact List.mem_cons_self

/-- Loading a saved snapshot gives the machine ID back, and the words of the dump
on lines of their own. -/
theorem load_save (machineID : MachineID) (snapshot : ServerSnapshot) :
    load machineID snapshot.save = ⟨snapshot.machineID,
      (words isSpace [] snapshot.dumpFileTree).flatMap (· ++ [newline])⟩ := by
  obtain ⟨b, rest, hsave, hb⟩ := snapshot.exists_save_eq_cons
  have hskip : snapshot.save.dropWhile isSpace = snapshot.save := by
    rw [hsave, List.dropWhile_cons_of_neg hb]
  have hne : snapshot.save ≠ [] := by simp [hsave]
  have hread : readMachineID snapshot.save =
      (snapshot.machineID, some (newline :: snapshot.dumpFileTree)) :=
    readMachineID_decimal _ (by simp [isDigit, newline])
  have hwords : words isSpace [] (newline :: snapshot.dumpFileTree) =
      words isSpace [] snapshot.dumpFileTree := by
    rw [words, if_pos (by decide)]
    rfl
  simp only [load, hskip, hne, hread, hwords, ↓reduceIte]

end ServerSnapshot

end Doopey
