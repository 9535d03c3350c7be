/-! # Types shared by every part of the program

Machine and block identifiers are the fixed-width integers of the source, and
strings are sequences of bytes. Code that would run into undefined behaviour or
never return is modelled by a computation that ends in a `Fault`.
-/

namespace Doopey

/-- The contents of a `std::string` or of a `vector<unsigned char>`. -/
abbrev Bytes := List UInt8

abbrev BlockID := UInt64
abbrev LocalBlockID := UInt32
abbrev MachineID := UInt32

/-- Ways in which a call of the program fails to come back with a result. -/
inductive Fault where
  /-- A null or dangling pointer is followed. -/
  | badPointer
  /-- A pointer that was never assigned is followed, or a number is used. -/
  | indeterminate
  /-- Memory outside an object is read or written. -/
  | outOfBounds
  /-- A loop repeats forever. -/
  | divergence
  /-- `std::invalid_argument` is thrown and not caught. -/
  | invalidArgument
  /-- `std::out_of_range` is thrown and not caught. -/
  | outOfRange
  deriving DecidableEq, Repr

/-- The bytes of an ASCII literal of the source. -/
def ascii (text : String) : Bytes := text.toList.map Char.toUInt8

/-- The byte `'/'`. -/
abbrev slash : UInt8 := 47

/-- The byte `'\n'`. -/
abbrev newline : UInt8 := 10

/-- The byte `':'`. -/
abbrev colon : UInt8 := 58

/-- `getMachineIDFromBlockID` -/
def getMachineIDFromBlockID (block : BlockID) : MachineID := (block >>> 32).toUInt32

/-- `getLocalIDFromBlockID` -/
def getLocalIDFromBlockID (block : BlockID) : LocalBlockID := block.toUInt32

/-- `buildBlockID` -/
def buildBlockID (machine : MachineID) (local_ : LocalBlockID) : BlockID :=
  (machine.toUInt64 <<< 32) + local_.toUInt64

end Doopey
