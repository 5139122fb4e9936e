import Htap.Basis.ByteWalk
import Htap.SSTable.Format

/-!
The reading helpers that the cursors over row blocks and over column blocks share, with the
position, the length checks and the loads of the source. Each file throws an exception of its
own at the end of a block.
-/

namespace Htap.Cursor.CheckedReads

open Storage SSTable ByteFormat ByteWalk Words

variable (blockEnd : Exception)

def readBytes (size : Nat) : Walk Exception Bytes := do
  Walk.require blockEnd size
  let raw ← Walk.load size
  Walk.advance size
  return raw

/-- A check and a `memcpy` into an integer. -/
def readWord (width : Nat) : Walk Exception Nat := do
  let raw ← readBytes blockEnd width
  return leValue raw

def readString : Walk Exception Bytes := do
  let size ← readWord blockEnd 4
  readBytes blockEnd size

def readInt64 : Walk Exception Int64 := do
  let raw ← readWord blockEnd 8
  return int64OfBits raw

def readDouble : Walk Exception Binary64 := do
  let raw ← readWord blockEnd 8
  return ⟨UInt64.ofNat raw⟩

def readValue : ValueType → Walk Exception Value
  | .int64 => do
    let v ← readInt64 blockEnd
    return .int64 v
  | .double => do
    let v ← readDouble blockEnd
    return .double v
  | .string => do
    let v ← readString blockEnd
    return .string v

theorem follows_readBytes (size : Nat) :
    Follows (readBytes blockEnd size) (Parser.bytes blockEnd size) := Follows.bytes blockEnd size

theorem follows_readWord (width : Nat) :
    Follows (readWord blockEnd width) (Parser.word blockEnd width) :=
  (follows_readBytes blockEnd width).map leValue

theorem follows_readInt64 : Follows (readInt64 blockEnd) (readI64 blockEnd) :=
  (follows_readWord blockEnd 8).map int64OfBits

theorem follows_readString : Follows (readString blockEnd) (Htap.SSTable.readString blockEnd) :=
  (follows_readWord blockEnd 4).bind (follows_readBytes blockEnd)

theorem follows_readValue (type : ValueType) :
    Follows (readValue blockEnd type) (Htap.SSTable.readValue blockEnd type) := by
  cases type with
  | int64 => exact (follows_readInt64 blockEnd).map Value.int64
  | double =>
    have hword := (follows_readWord blockEnd 8).map fun raw => Binary64.mk (UInt64.ofNat raw)
    exact hword.map Value.double
  | string => exact (follows_readString blockEnd).map Value.string

end Htap.Cursor.CheckedReads
