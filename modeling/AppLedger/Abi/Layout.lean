import AppLedger.Abi.Error
import AppLedger.Abi.Ty
import AppLedger.Bytes

/-! The bytes of a tuple. A head holds the items of fixed size in order, with
consecutive booleans packed eight to a byte, and for each other item the two-byte offset of
its bytes, which follow the head in the same order. -/

namespace AppLedger.Abi

/-- An encoded item, ready to be placed. -/
inductive Cell
  | bit (value : Bool)
  | fixed (bytes : Bytes)
  | tail (bytes : Bytes)
  deriving DecidableEq

def boolBytes (b : Bool) : Bytes :=
  [if b then 0x80 else 0]

namespace Cell

def shape : Cell → Shape
  | .bit _ => .bit
  | .fixed bytes => .fixed bytes.length
  | .tail _ => .dynamic

/-- The encoding of the item by itself. -/
def bytes : Cell → Bytes
  | .bit value => boolBytes value
  | .fixed bytes | .tail bytes => bytes

end Cell

/-- What a head holds: bytes, or the offset of the bytes of an item. -/
inductive Slot
  | filled (bytes : Bytes)
  | offset (tail : Bytes)

def bitsValue (place : Nat) : List Bool → Nat
  | [] => 0
  | b :: bits => (if b then place else 0) + bitsValue (place / 2) bits

/-- A byte of at most eight bits, the first in the highest place. -/
def packBits (bits : List Bool) : UInt8 :=
  UInt8.ofNat (bitsValue 128 bits)

def unpackBits (byte : UInt8) : List Bool :=
  [7, 6, 5, 4, 3, 2, 1, 0].map byte.toNat.testBit

namespace Slot

def headSize : Slot → Nat
  | .filled bytes => bytes.length
  | .offset _ => 2

def headsSize : List Slot → Nat
  | [] => 0
  | slot :: slots => slot.headSize + headsSize slots

def tail : Slot → Bytes
  | .filled _ => []
  | .offset tail => tail

/-- The byte of the bits that are still to be written, if there are any. -/
def ofBits (bits : List Bool) : List Slot :=
  if bits.isEmpty then [] else [.filled [packBits bits]]

/-- The head of the cells that follow `bits`, fewer than eight, which are still to be written. -/
def ofCells (bits : List Bool) : List Cell → List Slot
  | [] => ofBits bits
  | .bit b :: cells =>
    if bits.length = 7 then .filled [packBits (bits ++ [b])] :: ofCells [] cells
    else ofCells (bits ++ [b]) cells
  | .fixed bytes :: cells => ofBits bits ++ .filled bytes :: ofCells [] cells
  | .tail bytes :: cells => ofBits bits ++ .offset bytes :: ofCells [] cells

/-- The bytes of a head whose first tail starts at `position`. -/
def heads (position : Nat) : List Slot → Except Error Bytes
  | [] => .ok []
  | .filled bytes :: slots => do
    let rest ← heads position slots
    return bytes ++ rest
  | .offset tail :: slots => do
    if position < UInt16.size then
      let rest ← heads (position + tail.length) slots
      return Bytes.ofNat 2 position ++ rest
    else throw (.unencodable (.offset position))

end Slot

def layOut (cells : List Cell) : Except Error Bytes := do
  let slots := Slot.ofCells [] cells
  let heads ← Slot.heads (Slot.headsSize slots) slots
  return heads ++ slots.flatMap Slot.tail

/-- What a head says about an item: its encoding, or where that starts. -/
inductive Part
  | here (bytes : Bytes)
  | at (start : Nat)

/-- The first `count` bytes and the rest, of bytes that start at `position` of `total`. -/
def takeBytes (count position total : Nat) (b : Bytes) : Except Error (Bytes × Bytes) :=
  if count ≤ b.length then .ok (b.take count, b.drop count)
  else .error (.undecodable (.outOfBounds position (position + count) total))

/-- Reads a head, of which `bits` are left of the last packed byte and `b`, the bytes from
`position` of `total`, follow. Also yields the bytes after the head. -/
def readHead (total : Nat) : (bits : List Bool) → (position : Nat) → List Shape → (b : Bytes) →
    Except Error (List Part × Bytes)
  | _, _, [], b => .ok ([], b)
  | bit :: bits, position, .bit :: shapes, b => do
    let (parts, rest) ← readHead total bits position shapes b
    return (.here (boolBytes bit) :: parts, rest)
  | [], position, .bit :: shapes, b => do
    let (packed, b) ← takeBytes 1 position total b
    let bits := unpackBits (packed.headD 0)
    let (parts, rest) ← readHead total bits.tail (position + 1) shapes b
    return (.here (boolBytes (bits.headD false)) :: parts, rest)
  | _, position, .fixed size :: shapes, b => do
    let (bytes, b) ← takeBytes size position total b
    let (parts, rest) ← readHead total [] (position + size) shapes b
    return (.here bytes :: parts, rest)
  | _, position, .dynamic :: shapes, b => do
    let (offset, b) ← takeBytes 2 position total b
    let (parts, rest) ← readHead total [] (position + 2) shapes b
    return (.at (Bytes.toNat offset) :: parts, rest)

/-- The start of the first item outside the head. -/
def Part.firstStart? : List Part → Option Nat
  | [] => none
  | .here _ :: parts => firstStart? parts
  | .at start :: _ => some start

/-- The encodings of the items. One outside the head ends where the next such item starts. -/
def Part.encodings (all : Bytes) : List Part → Except Error (List Bytes)
  | [] => .ok []
  | .here bytes :: parts => do
    let rest ← encodings all parts
    return bytes :: rest
  | .at start :: parts => do
    let stop := (firstStart? parts).getD all.length
    if stop < start then throw (.undecodable .segmentOrder)
    else if all.length < stop then throw (.undecodable (.outOfBounds start stop all.length))
    else
      let rest ← encodings all parts
      return (all.drop start).take (stop - start) :: rest

/-- The encodings of the items of a tuple. Unless an item lies outside the head, the head takes
all the bytes. -/
def splitItems (shapes : List Shape) (b : Bytes) : Except Error (List Bytes) := do
  let (parts, rest) ← readHead b.length [] 0 shapes b
  if (Part.firstStart? parts).isNone ∧ rest ≠ [] then throw (.undecodable .notConsumed)
  Part.encodings b parts

end AppLedger.Abi
