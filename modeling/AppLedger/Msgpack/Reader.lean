import AppLedger.Msgpack.Value

/-! Reading a MessagePack value off the front of a byte string. -/

namespace AppLedger.Msgpack

/-- Reads something and yields it with the bytes after it. -/
abbrev Reader (α : Type) := Bytes → Option (α × Bytes)

namespace Reader

def take (count : Nat) : Reader Bytes := fun b =>
  if count ≤ b.length then some (b.take count, b.drop count) else none

/-- A number of `width` bytes. -/
def number (width : Nat) : Reader Nat := fun b => do
  let (bytes, b) ← take width b
  return (Bytes.toNat bytes, b)

/-- A number of `width` bytes in two's complement. -/
def signed (width : Nat) : Reader Int := fun b => do
  let (n, b) ← number width b
  return ((n : Int).bmod (1 <<< (8 * width)), b)

def repeated {α : Type} (one : Reader α) : Nat → Reader (List α)
  | 0, b => some ([], b)
  | count + 1, b => do
    let (item, b) ← one b
    let (items, b) ← repeated one count b
    return (item :: items, b)

def pair {α β : Type} (first : Reader α) (second : Reader β) : Reader (α × β) := fun b => do
  let (x, b) ← first b
  let (y, b) ← second b
  return ((x, y), b)

end Reader

open Reader

def readUint (width : Width) : Reader Value := fun b => do
  let (n, b) ← number width.bytes b
  return (.uint width n, b)

def readSint (width : Nat) : Reader Value := fun b => do
  let (n, b) ← signed width b
  return (.sint n, b)

def readFloat (width : Nat) : Reader Value := fun b => do
  let (bytes, b) ← take width b
  return (.float bytes, b)

/-- Bytes marked as a text but not well-formed are kept as bytes. -/
def readText (size : Nat) : Reader Value := fun b => do
  let (bytes, b) ← take size b
  match Bytes.toText? bytes with
  | some s => return (.text s, b)
  | none => return (.bytes bytes, b)

def readBytes (size : Nat) : Reader Value := fun b => do
  let (bytes, b) ← take size b
  return (.bytes bytes, b)

def readArray (item : Reader Value) (size : Nat) : Reader Value := fun b => do
  let (items, b) ← repeated item size b
  return (.array items, b)

def readMap (item : Reader Value) (size : Nat) : Reader Value := fun b => do
  let (entries, b) ← repeated (pair item item) size b
  return (.map entries, b)

def readExt (size : Nat) : Reader Value := fun b => do
  let (tag, b) ← take 1 b
  let (data, b) ← take size b
  return (.ext (tag.headD 0) data, b)

/-- Reads the size of `width` bytes first. -/
def sizedBy (width : Nat) (read : Nat → Reader Value) : Reader Value := fun b => do
  let (size, b) ← number width b
  read size b

/-- Reads a value. Those inside it are read by `inner`, without which it has no inside. -/
def readWith (inner : Option (Reader Value)) : Reader Value
  | [] => none
  | marker :: b =>
    let m := marker.toNat
    if m < 0x80 then some (.uint .w8 m, b)
    else if m < 0x90 then inner.bind fun item => readMap item (m - 0x80) b
    else if m < 0xa0 then inner.bind fun item => readArray item (m - 0x90) b
    else if m < 0xc0 then readText (m - 0xa0) b
    else if 0xe0 ≤ m then some (.sint ((m : Int) - 256), b)
    else match m with
      | 0xc0 => some (.nil, b)
      | 0xc2 => some (.bool false, b)
      | 0xc3 => some (.bool true, b)
      | 0xc4 => sizedBy 1 readBytes b
      | 0xc5 => sizedBy 2 readBytes b
      | 0xc6 => sizedBy 4 readBytes b
      | 0xc7 => inner.bind fun _ => sizedBy 1 readExt b
      | 0xc8 => inner.bind fun _ => sizedBy 2 readExt b
      | 0xc9 => inner.bind fun _ => sizedBy 4 readExt b
      | 0xca => readFloat 4 b
      | 0xcb => readFloat 8 b
      | 0xcc => readUint .w8 b
      | 0xcd => readUint .w16 b
      | 0xce => readUint .w32 b
      | 0xcf => readUint .w64 b
      | 0xd0 => readSint 1 b
      | 0xd1 => readSint 2 b
      | 0xd2 => readSint 4 b
      | 0xd3 => readSint 8 b
      | 0xd4 => inner.bind fun _ => readExt 1 b
      | 0xd5 => inner.bind fun _ => readExt 2 b
      | 0xd6 => inner.bind fun _ => readExt 4 b
      | 0xd7 => inner.bind fun _ => readExt 8 b
      | 0xd8 => inner.bind fun _ => readExt 16 b
      | 0xd9 => sizedBy 1 readText b
      | 0xda => sizedBy 2 readText b
      | 0xdb => sizedBy 4 readText b
      | 0xdc => inner.bind fun item => sizedBy 2 (readArray item) b
      | 0xdd => inner.bind fun item => sizedBy 4 (readArray item) b
      | 0xde => inner.bind fun item => sizedBy 2 (readMap item) b
      | 0xdf => inner.bind fun item => sizedBy 4 (readMap item) b
      | _ => none

/-- Reads a value with at most `depth` arrays, maps and extensions around one another. -/
def readWithin : (depth : Nat) → Reader Value
  | 0 => readWith none
  | depth + 1 => readWith (some (readWithin depth))

def maxDepth : Nat := 1023

/-- The first value of the bytes. Bytes after it are ignored. -/
def decode? (b : Bytes) : Option Value :=
  (readWithin maxDepth b).map Prod.fst

end AppLedger.Msgpack
