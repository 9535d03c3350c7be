import Mathlib.Data.UInt
import Doopey.Foundation.Hexadecimal
import Doopey.Foundation.Runs
import Doopey.Block.BlockManager
import Doopey.Machine.ServerSnapshot

/-!
# The block directory of a machine

The files of the blocks are named by their IDs. A machine that starts looks
through the directory, lists the blocks it finds and takes up its counter behind
the last ID of its own; while it runs, the list follows the files.

A listing of the directory has the names in any order. The directory may have
been filled by anyone.
-/

namespace Doopey

open Foundation

/-- The name of the file in the path of `BlockManager::convertBlockIDToPath`. -/
def convertBlockIDToPath (id : BlockID) : Bytes := hexadecimal 16 id.toNat

/-- `strtoull` with the base 16. -/
def strtoull (text : Bytes) : UInt64 :=
  let text := text.dropWhile isSpace
  let negative := text.head? = some 45
  let text := if text.head? = some 45 ∨ text.head? = some 43 then text.tail else text
  -- a prefix "0x"
  let text := if text.head? = some 48 ∧ (text.tail.head? = some 120 ∨ text.tail.head? = some 88)
    then text.drop 2 else text
  let value := ofHexadecimal (text.takeWhile isHexDigit)
  if 2 ^ 64 ≤ value then .ofNat (2 ^ 64 - 1)
  else if negative then 0 - .ofNat value else .ofNat value

/-- The part of `class BlockResolver` that is about the blocks of the machine,
with the directory that they are in. -/
structure BlockResolver where
  machineID : MachineID
  localIDs : BlockID → Option (List MachineID)
  localMax : LocalBlockID
  files : Bytes → Option Bytes
  machineID_ne : machineID ≠ 0

/-- The names that `readdir` returns, in any order. -/
def Lists (names : List Bytes) (files : Bytes → Option Bytes) : Prop :=
  ∀ name, name ∈ names ↔ files name ≠ none ∨ name = ascii "." ∨ name = ascii ".."

namespace BlockResolver

/-- `BlockResolver::forceAddLocalID` -/
def forceAddLocalID (resolver : BlockResolver) (id : BlockID) : BlockResolver :=
  { resolver with localIDs := Function.update resolver.localIDs id (some [resolver.machineID]) }

/-- `BlockResolver::addLocalID` -/
def addLocalID (resolver : BlockResolver) (id : BlockID) : BlockResolver :=
  if resolver.files (convertBlockIDToPath id) = none then resolver else resolver.forceAddLocalID id

/-- `BlockResolver::removeLocalID` -/
def removeLocalID (resolver : BlockResolver) (id : BlockID) : BlockResolver :=
  { resolver with
    localIDs := Function.update resolver.localIDs id none
    files := Function.update resolver.files (convertBlockIDToPath id) none }

/-- `BlockResolver::newLocalID` -/
def newLocalID (resolver : BlockResolver) : BlockID × BlockResolver :=
  (buildBlockID resolver.machineID (resolver.localMax + 1),
    { resolver with localMax := resolver.localMax + 1 })

/-- `BlockSaver::saveBlock` -/
def saveBlock (resolver : BlockResolver) (opens : Bool) (data : Bytes) (id : BlockID) :
    BlockID × BlockResolver :=
  let (newID, resolver) := if id = 0 then resolver.newLocalID else (id, resolver)
  if opens then
    (newID, { resolver with
      files := Function.update resolver.files (convertBlockIDToPath newID) (some data)
      }.addLocalID newID)
  else (0, resolver)

/-- The ID that `loadLocalIDs` takes a name for, unless it skips the name. -/
def idOfName (name : Bytes) : Option BlockID :=
  if name = ascii "." ∨ name = ascii ".." then none
  else if name.length ≠ 16 then none
  else if strtoull name = 0 then none
  else some (strtoull name)

/-- One round of the loop of `loadLocalIDs`. -/
def loadName (resolver : BlockResolver) (name : Bytes) : BlockResolver :=
  match idOfName name with
  | none => resolver
  | some id =>
      let resolver := resolver.forceAddLocalID id
      if getMachineIDFromBlockID id = resolver.machineID ∧
          resolver.localMax < getLocalIDFromBlockID id then
        { resolver with localMax := getLocalIDFromBlockID id }
      else resolver

/-- `BlockResolver::loadLocalIDs` -/
def loadLocalIDs (resolver : BlockResolver) (names : List Bytes) : BlockResolver :=
  names.foldl loadName { resolver with localIDs := fun _ => none }

/-- A new process on a directory. -/
def start (machineID : MachineID) (hmachineID : machineID ≠ 0) (files : Bytes → Option Bytes)
    (names : List Bytes) : BlockResolver :=
  loadLocalIDs ⟨machineID, fun _ => none, 0, files, hmachineID⟩ names

/-- The block is listed. -/
def Has (resolver : BlockResolver) (id : BlockID) : Prop := resolver.localIDs id ≠ none

/-- The block is listed, and its ID was built by this machine. -/
def HasOwn (resolver : BlockResolver) (id : BlockID) : Prop :=
  resolver.Has id ∧ getMachineIDFromBlockID id = resolver.machineID

end BlockResolver

/-- What happens to the blocks of a machine. -/
inductive ResolverOp
  /-- A new block is saved. -/
  | save (data : Bytes) (opens : Bool)
  /-- A block that has an ID is saved, as `handleCopyBlockFromRemote` does. -/
  | saveAs (id : BlockID) (data : Bytes) (opens : Bool)
  | remove (id : BlockID)
  /-- The process ends, and a new one finds these names. -/
  | restart (names : List Bytes)

/-- The steps of a machine. -/
inductive ResolverStep (resolver : BlockResolver) : ResolverOp → BlockResolver → Prop
  | save (data : Bytes) (opens : Bool) :
      ResolverStep resolver (.save data opens) (resolver.saveBlock opens data 0).2
  | saveAs (id : BlockID) (data : Bytes) (opens : Bool) (hid : id ≠ 0) :
      ResolverStep resolver (.saveAs id data opens) (resolver.saveBlock opens data id).2
  | remove (id : BlockID) : ResolverStep resolver (.remove id) (resolver.removeLocalID id)
  | restart (names : List Bytes) (hnames : Lists names resolver.files) :
      ResolverStep resolver (.restart names)
        (.start resolver.machineID resolver.machineID_ne resolver.files names)

/-- A machine that starts on one of the directories in `initial`. -/
def resolverSystem (initial : (Bytes → Option Bytes) → Prop) :
    System BlockResolver ResolverOp where
  init resolver := ∃ machineID hmachineID files names, initial files ∧ Lists names files ∧
    resolver = .start machineID hmachineID files names
  step := ResolverStep

/-! ## Names and IDs -/

theorem lt_of_toNat (id : BlockID) : id.toNat < 16 ^ 16 := id.toNat_lt

theorem convertBlockIDToPath_injective {id id' : BlockID}
    (heq : convertBlockIDToPath id = convertBlockIDToPath id') : id = id' :=
  UInt64.toNat_inj.mp (hexadecimal_injective (lt_of_toNat id) (lt_of_toNat id') heq)

/-- The name of a block gives its ID back. -/
theorem strtoull_convertBlockIDToPath (id : BlockID) : strtoull (convertBlockIDToPath id) = id := by
  have hplain : ∀ value < 16, ¬ isSpace (hexDigit value) ∧ isHexDigit (hexDigit value) ∧
      hexDigit value ≠ 45 ∧ hexDigit value ≠ 43 ∧ hexDigit value ≠ 120 ∧ hexDigit value ≠ 88 := by
    decide
  have hdigits {b : UInt8} (hmem : b ∈ convertBlockIDToPath id) : ∃ value < 16, b = hexDigit value :=
    exists_of_mem_hexadecimal hmem
  have hhead (b : UInt8) (hb : ∀ value < 16, hexDigit value ≠ b) :
      (convertBlockIDToPath id).head? ≠ some b ∧ (convertBlockIDToPath id).tail.head? ≠ some b := by
    refine ⟨fun heq => ?_, fun heq => ?_⟩
    · obtain ⟨value, hvalue, rfl⟩ := hdigits (List.mem_of_head? heq)
      exact hb value hvalue rfl
    · obtain ⟨value, hvalue, rfl⟩ := hdigits (List.mem_of_mem_tail (List.mem_of_head? heq))
      exact hb value hvalue rfl
  have hskip : (convertBlockIDToPath id).dropWhile isSpace = convertBlockIDToPath id := by
    rw [List.dropWhile_eq_self_iff]
    intro hlength
    obtain ⟨value, hvalue, heq⟩ := hdigits (List.getElem_mem hlength)
    rw [heq]
    exact (hplain value hvalue).1
  have htake : (convertBlockIDToPath id).takeWhile isHexDigit = convertBlockIDToPath id := by
    rw [List.takeWhile_eq_self_iff]
    intro b hmem
    obtain ⟨value, hvalue, rfl⟩ := hdigits hmem
    exact (hplain value hvalue).2.1
  have hminus := (hhead 45 fun value hvalue => (hplain value hvalue).2.2.1).1
  have hplus := (hhead 43 fun value hvalue => (hplain value hvalue).2.2.2.1).1
  have hlower := (hhead 120 fun value hvalue => (hplain value hvalue).2.2.2.2.1).2
  have hupper := (hhead 88 fun value hvalue => (hplain value hvalue).2.2.2.2.2).2
  have hvalue : ofHexadecimal (convertBlockIDToPath id) = id.toNat :=
    ofHexadecimal_hexadecimal (lt_of_toNat id)
  have hunmarked : ¬ ((convertBlockIDToPath id).head? = some 48 ∧
      ((convertBlockIDToPath id).tail.head? = some 120 ∨
        (convertBlockIDToPath id).tail.head? = some 88)) :=
    fun hmarked => hmarked.2.elim hlower hupper
  unfold strtoull
  dsimp only
  rw [hskip, if_neg (not_or.mpr ⟨hminus, hplus⟩), if_neg hunmarked, htake, hvalue,
    if_neg (Nat.not_le.mpr id.toNat_lt), if_neg hminus, UInt64.ofNat_toNat]

end Doopey
