import AppLedger.Bytes

/-! MessagePack values and their shortest encodings. -/

namespace AppLedger.Msgpack

/-- The number of bits that an encoding gives to an unsigned integer. -/
inductive Width
  | w8
  | w16
  | w32
  | w64
  deriving DecidableEq

namespace Width

def bytes : Width → Nat
  | .w8 => 1
  | .w16 => 2
  | .w32 => 4
  | .w64 => 8

/-- The least number that needs more bits. -/
def bound : Width → Nat
  | .w8 => UInt8.size
  | .w16 => UInt16.size
  | .w32 => UInt32.size
  | .w64 => UInt64.size

/-- The least width that holds a number below 2^64. -/
def least (n : Nat) : Width :=
  if n < bound .w8 then .w8
  else if n < bound .w16 then .w16
  else if n < bound .w32 then .w32
  else .w64

end Width

/-- A value keeps the width of an unsigned integer, not that of a signed one. A float is kept as
its bytes. -/
inductive Value
  | nil
  | bool (value : Bool)
  | uint (width : Width) (value : Nat)
  | sint (value : Int)
  | float (bytes : Bytes)
  | text (value : String)
  | bytes (value : Bytes)
  | array (items : List Value)
  | map (entries : List (Value × Value))
  | ext (tag : UInt8) (data : Bytes)
  deriving Inhabited

/-- A marker and the size after it, at the first of the widths that holds the size. -/
def sized (markers : List (Width × UInt8)) (size : Nat) : Bytes :=
  match markers with
  | [] => []
  | (width, marker) :: markers =>
    if size < width.bound then marker :: Bytes.ofNat width.bytes size else sized markers size

def uintBytes (n : Nat) : Bytes :=
  if n < 128 then [UInt8.ofNat n]
  else sized [(.w8, 0xcc), (.w16, 0xcd), (.w32, 0xce), (.w64, 0xcf)] n

/-- The bytes of a negative number in two's complement, at the least width that holds it. -/
def negativeBytes (n : Int) : Bytes :=
  if -32 ≤ n then [UInt8.ofNat (n + UInt8.size).toNat]
  else if -128 ≤ n then 0xd0 :: Bytes.ofNat 1 (n + UInt8.size).toNat
  else if -0x8000 ≤ n then 0xd1 :: Bytes.ofNat 2 (n + UInt16.size).toNat
  else if -0x80000000 ≤ n then 0xd2 :: Bytes.ofNat 4 (n + UInt32.size).toNat
  else 0xd3 :: Bytes.ofNat 8 (n + UInt64.size).toNat

def sintBytes (n : Int) : Bytes :=
  if n < 0 then negativeBytes n else uintBytes n.toNat

def textHeader (size : Nat) : Bytes :=
  if size < 32 then [UInt8.ofNat (0xa0 + size)]
  else sized [(.w8, 0xd9), (.w16, 0xda), (.w32, 0xdb)] size

def bytesHeader (size : Nat) : Bytes :=
  sized [(.w8, 0xc4), (.w16, 0xc5), (.w32, 0xc6)] size

def arrayHeader (size : Nat) : Bytes :=
  if size < 16 then [UInt8.ofNat (0x90 + size)]
  else sized [(.w16, 0xdc), (.w32, 0xdd)] size

def mapHeader (size : Nat) : Bytes :=
  if size < 16 then [UInt8.ofNat (0x80 + size)]
  else sized [(.w16, 0xde), (.w32, 0xdf)] size

def extHeader (size : Nat) : Bytes :=
  match size with
  | 1 => [0xd4]
  | 2 => [0xd5]
  | 4 => [0xd6]
  | 8 => [0xd7]
  | 16 => [0xd8]
  | size => sized [(.w8, 0xc7), (.w16, 0xc8), (.w32, 0xc9)] size

namespace Value

def ofNat (n : Nat) : Value :=
  .uint (Width.least n) n

mutual

def encode : Value → Bytes
  | .nil => [0xc0]
  | .bool b => [if b then 0xc3 else 0xc2]
  | .uint _ n => uintBytes n
  | .sint n => sintBytes n
  | .float b => (if b.length = 4 then 0xca else 0xcb) :: b
  | .text s => textHeader s.utf8ByteSize ++ Bytes.ofText s
  | .bytes b => bytesHeader b.length ++ b
  | .array items => arrayHeader items.length ++ encodeItems items
  | .map entries => mapHeader entries.length ++ encodeEntries entries
  | .ext tag data => extHeader data.length ++ tag :: data

def encodeItems : List Value → Bytes
  | [] => []
  | item :: items => item.encode ++ encodeItems items

def encodeEntries : List (Value × Value) → Bytes
  | [] => []
  | (key, value) :: entries => key.encode ++ value.encode ++ encodeEntries entries

end

/-- Puts an entry where its key belongs in the order of the keys. A later entry takes the place
of an earlier one with the same key. -/
def insertEntry (key : String) (value : Value) :
    List (String × Value) → List (String × Value)
  | [] => [(key, value)]
  | (k, v) :: entries =>
    if key < k then (key, value) :: (k, v) :: entries
    else if key = k then (key, value) :: entries
    else (k, v) :: insertEntry key value entries

def ofFields (fields : List (String × Value)) : Value :=
  .map (fields.map fun (key, value) => (.text key, value))

mutual

/-- The value with the entries of each map, at every depth, in the order of their keys. Entries
whose keys are not texts are left out. -/
def sorted : Value → Value
  | .array items => .array (sortedItems items)
  | .map entries => ofFields (sortedEntries [] entries)
  | v => v

def sortedItems : List Value → List Value
  | [] => []
  | item :: items => item.sorted :: sortedItems items

/-- Adds the entries to `done`, whose keys are in order. -/
def sortedEntries (done : List (String × Value)) :
    List (Value × Value) → List (String × Value)
  | [] => done
  | (.text key, value) :: entries => sortedEntries (insertEntry key value.sorted done) entries
  | _ :: entries => sortedEntries done entries

end

end Value

end AppLedger.Msgpack
