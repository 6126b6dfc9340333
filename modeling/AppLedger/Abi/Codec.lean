import AppLedger.Abi.AddressText
import AppLedger.Abi.Layout
import AppLedger.Abi.Value

/-! Encoding values at a type and decoding them again. -/

namespace AppLedger.Abi.Ty

def encodeUint (size : BitSize) : Value → Except Error Bytes
  | .uint n =>
    if n < 1 <<< size.bits then .ok (Bytes.ofNat size.width n)
    else .error (.unencodable (.uintTooBig n size.bits))
  | _ => .error (.unencodable .notUint)

def encodeAddress : Value → Except Error Bytes
  | .address text => (addressKey text).mapError .invalid
  | _ => .error (.unencodable .notAddress)

def encodeString : Value → Except Error Bytes
  | .string s =>
    if s.utf8ByteSize < UInt16.size then .ok (Bytes.ofNat 2 s.utf8ByteSize ++ Bytes.ofText s)
    else .error (.unencodable (.stringTooLong s.utf8ByteSize))
  | _ => .error (.unencodable .notString)

def encodeByte : Value → Except Error Bytes
  | .byte b => .ok [b]
  | _ => .error (.unencodable .notByte)

def encodeBool : Value → Except Error Bytes
  | .bool b => .ok (boolBytes b)
  | _ => .error (.unencodable .notBool)

/-- An item of a tuple or an array, from its encoding by itself. -/
def cell (ty : Ty) (v : Value) (encoding : Except Error Bytes) : Except Error Cell :=
  match ty.shape with
  | .bit =>
    match v with
    | .bool b => .ok (.bit b)
    | _ => .error (.unencodable .notBoolInRun)
  | .fixed _ => encoding.map .fixed
  | .dynamic => encoding.map .tail

mutual

def encode : Ty → Value → Except Error Bytes
  | .uint size, v => encodeUint size v
  | .address, v => encodeAddress v
  | .string, v => encodeString v
  | .byte, v => encodeByte v
  | .bool, v => encodeBool v
  | .tuple items, .array vs => do
    if items.length ≠ vs.length then throw (.unencodable .arity)
    layOut (← encodeCells items vs)
  | .static item length, .array vs => do
    if vs.length ≠ length.toNat then throw (.unencodable .arity)
    layOut (← vs.mapM fun v => item.cell v (item.encode v))
  | .dynamic item, .array vs => do
    if UInt16.size ≤ vs.length then throw (.unencodable (.arrayTooLong vs.length))
    let bytes ← layOut (← vs.mapM fun v => item.cell v (item.encode v))
    return Bytes.ofNat 2 vs.length ++ bytes
  | .tuple _, _ | .static _ _, _ | .dynamic _, _ => .error (.unencodable .notArray)

def encodeCells : List Ty → List Value → Except Error (List Cell)
  | item :: items, v :: vs => do
    let cell ← item.cell v (item.encode v)
    let cells ← encodeCells items vs
    return cell :: cells
  | _, _ => .ok []

end

def decodeUint (size : BitSize) (b : Bytes) : Except Error Value :=
  if b.length = size.width then .ok (.uint (Bytes.toNat b))
  else .error (.undecodable (.uintLength size.width b.length))

def decodeAddress (b : Bytes) : Except Error Value :=
  if b.length = 32 then .ok (.address (addressText b)) else .error (.undecodable .addressLength)

def decodeString : Bytes → Except Error Value
  | hi :: lo :: content =>
    let length := Bytes.toNat [hi, lo]
    if content.length ≠ length then .error (.undecodable (.stringLength length content.length))
    else
      match Bytes.toText? content with
      | some s => .ok (.string s)
      | none => .error (.undecodable .utf8)
  | _ => .error (.undecodable .stringShort)

def decodeByte : Bytes → Except Error Value
  | [b] => .ok (.byte b)
  | _ => .error (.undecodable .byteLength)

def decodeBool : Bytes → Except Error Value
  | [b] =>
    if b = 0x80 then .ok (.bool true)
    else if b = 0 then .ok (.bool false)
    else .error (.undecodable .boolByte)
  | _ => .error (.undecodable .boolLength)

mutual

def decode : Ty → Bytes → Except Error Value
  | .uint size, b => decodeUint size b
  | .address, b => decodeAddress b
  | .string, b => decodeString b
  | .byte, b => decodeByte b
  | .bool, b => decodeBool b
  | .tuple items, b => do
    let parts ← Abi.splitItems (shapes items) b
    return .array (← decodeItems items parts)
  | .static item length, b => do
    let parts ← Abi.splitItems (List.replicate length.toNat item.shape) b
    return .array (← parts.mapM fun part => item.decode part)
  | .dynamic item, hi :: lo :: b => do
    let parts ← Abi.splitItems (List.replicate (Bytes.toNat [hi, lo]) item.shape) b
    return .array (← parts.mapM fun part => item.decode part)
  | .dynamic _, _ => .error (.undecodable .arrayShort)

def decodeItems : List Ty → List Bytes → Except Error (List Value)
  | item :: items, part :: parts => do
    let v ← item.decode part
    let vs ← decodeItems items parts
    return v :: vs
  | _, _ => .ok []

end

end AppLedger.Abi.Ty
