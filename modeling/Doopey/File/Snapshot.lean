import Mathlib.Algebra.Group.Int.Defs
import Mathlib.Data.List.TakeWhile
import Doopey.File.FileTree
import Doopey.Machine.ServerSnapshot

/-!
# Loading a dump

`FileManager::loadSnapshot` cuts a dump into lines, each line at its first colon,
and adds what it finds to the file tree.
-/

namespace Doopey

open Foundation

/-- `std::stol` in base ten. What follows the digits is ignored. -/
def stol (text : Bytes) : Except Fault Int :=
  let number (sign : Int) (text : Bytes) : Except Fault Int :=
    let digits := text.takeWhile isDigit
    let value := sign * ofDecimal digits
    if digits = [] then .error .invalidArgument
    else if value < -2 ^ 63 ∨ 2 ^ 63 ≤ value then .error .outOfRange
    else .ok value
  match text.dropWhile isSpace with
  | [] => .error .invalidArgument
  | b :: text =>
      if b = 45 then number (-1) text
      else if b = 43 then number 1 text
      else number 1 (b :: text)

namespace FileManager

/-- The part of a line in front of its first colon. -/
def recordName (record : Bytes) : Bytes := record.takeWhile (· ≠ colon)

/-- The part of a line behind its first colon; `npos + 1` wraps around to `0`. -/
def recordID (record : Bytes) : Bytes :=
  if colon ∈ record then (record.dropWhile (· ≠ colon)).drop 1 else record

/-- What `loadSnapshot` reads from a line; nothing for the root. -/
def readRecord (record : Bytes) : Except Fault (Option (Bytes × BlockID)) :=
  if recordName record = rootPath then .ok none
  else do
    let id ← stol (recordID record)
    .ok (some (recordName record, .ofInt id))

/-- Everything `loadSnapshot` reads from a dump. -/
def readDump (dump : Bytes) : Except Fault (List (Bytes × BlockID)) := do
  let records ← (lines newline [] dump).mapM readRecord
  .ok (records.filterMap id)

/-- The addition that `loadSnapshot` makes for a line. -/
def addRecord (tree : FileTree) (record : Bytes × BlockID) : Except Fault FileTree := do
  let (tree, _) ← if record.2 = 0 then tree.addDir record.1 else tree.addFile record.1 record.2
  .ok tree

/-- `FileManager::loadSnapshot` -/
def loadSnapshot (tree : FileTree) (dump : Bytes) : Except Fault FileTree :=
  (lines newline [] dump).foldlM (fun tree record => do
    match ← readRecord record with
    | none => .ok tree
    | some record => addRecord tree record) tree

/-- If every line can be read, loading a dump adds the records one by one. -/
theorem loadSnapshot_of_readDump {dump : Bytes} {records : List (Bytes × BlockID)}
    (hread : readDump dump = .ok records) (tree : FileTree) :
    loadSnapshot tree dump = records.foldlM addRecord tree := by
  obtain ⟨results, hresults, hrecords⟩ := bind_eq_ok_iff.mp hread
  obtain rfl := Except.ok.inj hrecords
  unfold loadSnapshot
  have hall := mapM_eq_ok_iff.mp hresults
  clear hread hresults hrecords
  generalize lines newline [] dump = text at hall ⊢
  induction hall generalizing tree with
  | nil => rfl
  | @cons line result _ _ hline _ ih =>
      rw [List.foldlM_cons, hline, ok_bind]
      cases result with
      | none => exact ih tree
      | some record =>
          rw [List.filterMap_cons_some (f := id) (b := record) rfl, List.foldlM_cons]
          exact congrArg _ (funext ih)

/-- A numeral below `2 ^ 63` is read back. -/
theorem stol_decimal (n : Nat) :
    stol (decimal n) = if n < 2 ^ 63 then .ok (n : Int) else .error .outOfRange := by
  have hdigits : (decimal n).takeWhile isDigit = decimal n := by
    simpa using takeWhile_decimal n [] (by simp)
  have hskip : (decimal n).dropWhile isSpace = decimal n := by
    cases hdecimal : decimal n with
    | nil => rfl
    | cons b rest =>
        have hdigit : isDigit b := isDigit_of_mem_decimal (n := n) (hdecimal ▸ List.mem_cons_self)
        simp [ServerSnapshot.not_isSpace_of_isDigit hdigit]
  unfold stol
  rw [hskip]
  cases hdecimal : decimal n with
  | nil => exact absurd hdecimal (decimal_ne_nil n)
  | cons b rest =>
      have hdigit : isDigit b := isDigit_of_mem_decimal (n := n) (hdecimal ▸ List.mem_cons_self)
      have hsign : b ≠ 45 ∧ b ≠ 43 := by
        constructor <;> rintro rfl <;> exact absurd hdigit (by decide)
      simp only [hsign.1, hsign.2, ↓reduceIte]
      rw [← hdecimal, hdigits, if_neg (decimal_ne_nil n), ofDecimal_decimal, Int.one_mul]
      by_cases hlt : n < 2 ^ 63
      · rw [if_pos hlt, if_neg (by omega)]
      · rw [if_neg hlt, if_pos (by omega)]

section Line

variable {name : Bytes} (hname : colon ∉ name) (id : BlockID)

include hname

theorem recordName_line : recordName (name ++ colon :: decimal id.toNat) = name := by
  have hpos : ∀ b ∈ name, (decide (b ≠ colon)) = true := by
    intro b hb
    rw [decide_eq_true_eq]
    rintro rfl
    exact hname hb
  rw [recordName, List.takeWhile_append_of_pos hpos]
  simp

theorem recordID_line : recordID (name ++ colon :: decimal id.toNat) = decimal id.toNat := by
  have hpos : ∀ b ∈ name, (decide (b ≠ colon)) = true := by
    intro b hb
    rw [decide_eq_true_eq]
    rintro rfl
    exact hname hb
  rw [recordID, if_pos (by simp), List.dropWhile_append_of_pos hpos]
  simp

/-- The line of a name without colon is read back if the ID fits into a `long`. -/
theorem readRecord_line : readRecord (name ++ colon :: decimal id.toNat) =
    if name = rootPath then .ok none
    else if id.toNat < 2 ^ 63 then .ok (some (name, id)) else .error .outOfRange := by
  rw [readRecord, recordName_line hname, recordID_line hname, stol_decimal]
  by_cases hroot : name = rootPath
  · rw [if_pos hroot, if_pos hroot]
  · rw [if_neg hroot, if_neg hroot]
    by_cases hlt : id.toNat < 2 ^ 63
    · rw [if_pos hlt, if_pos hlt, ok_bind]
      have hid : UInt64.ofInt id.toNat = id := by
        have hnat : (id.toNat : Int) % 2 ^ 64 = id.toNat :=
          Int.emod_eq_of_lt (by omega) (by have := id.toNat_lt; omega)
        rw [UInt64.ofInt, hnat, Int.toNat_natCast, UInt64.ofNat_toNat]
      rw [hid]
    · rw [if_neg hlt, if_neg hlt, error_bind]

end Line

/-- The name of a record is made of bytes of its line, none of them a colon. -/
theorem mem_of_readRecord {line name : Bytes} {id : BlockID}
    (hread : readRecord line = .ok (some (name, id))) {b : UInt8} (hb : b ∈ name) :
    b ∈ line ∧ b ≠ colon := by
  unfold readRecord at hread
  split at hread
  next => exact absurd hread (by simp)
  next =>
    obtain ⟨_, _, hpair⟩ := bind_eq_ok_iff.mp hread
    obtain ⟨rfl, -⟩ := Prod.mk.inj (Option.some.inj (Except.ok.inj hpair))
    refine ⟨(List.takeWhile_sublist _).subset hb, ?_⟩
    simpa using List.mem_takeWhile_imp hb

end FileManager

end Doopey
