/-! What can go wrong when a type or a signature is read, a value is encoded, or
bytes are decoded. -/

namespace AppLedger.Abi

/-- A text that is not a type, a method or an address. -/
inductive Invalid
  | bitSize (bits : Nat)
  | staticArray (text : String)
  | arrayLength (text : String)
  | uintText (text : String)
  | uintSize (text : String)
  | unknownType (text : String)
  | tupleEdgeComma
  | tupleDoubleComma
  | tupleParens
  | transactionKind (text : String)
  | referenceKind (text : String)
  | emptyMethodName
  | generatedBlank
  | signatureBlank
  | signatureNotOpened
  | signatureNotClosed
  | addressLength
  | addressEncoding
  | addressChecksum (text : String)
  deriving DecidableEq

/-- A value that does not fit the type it is encoded at. -/
inductive Unencodable
  | notUint
  | notAddress
  | notString
  | notByte
  | notBool
  | notArray
  | notBoolInRun
  | uintTooBig (value bits : Nat)
  | stringTooLong (size : Nat)
  | arrayTooLong (length : Nat)
  | arity
  | offset (size : Nat)
  | methodArity (expected got : Nat)
  deriving DecidableEq

/-- Bytes that no value of the type is encoded as. -/
inductive Undecodable
  | uintLength (expected got : Nat)
  | boolByte
  | boolLength
  | byteLength
  | stringShort
  | stringLength (expected got : Nat)
  | utf8
  | addressLength
  | arrayShort
  | outOfBounds (start stop length : Nat)
  | notConsumed
  | segmentOrder
  | noReturn (method : String)
  | notReturn (method : String)
  deriving DecidableEq

inductive Error
  | invalid (why : Invalid)
  | unencodable (why : Unencodable)
  | undecodable (why : Undecodable)
  deriving DecidableEq

def Invalid.message : Invalid → String
  | .bitSize bits => s!"Bit size must be between 8 and 512 and divisible by 8, got {bits}"
  | .staticArray text => s!"Malformed static array string: {text}"
  | .arrayLength text => s!"Invalid array length: {text}"
  | .uintText text => s!"Malformed uint string: {text}"
  | .uintSize text => s!"Invalid uint size: {text}"
  | .unknownType text => s!"Cannot convert string '{text}' to an ABI type"
  | .tupleEdgeComma => "Tuple string should not start or end with a comma"
  | .tupleDoubleComma => "Tuple string should not have consecutive commas"
  | .tupleParens => "Tuple string has mismatched parentheses"
  | .transactionKind text => s!"Invalid transaction type: {text}"
  | .referenceKind text => s!"Invalid reference type: {text}"
  | .emptyMethodName => "Method name cannot be empty"
  | .generatedBlank => "Generated signature contains whitespace"
  | .signatureBlank => "Method signature cannot contain whitespace"
  | .signatureNotOpened => "Method signature must contain opening parenthesis"
  | .signatureNotClosed => "Mismatched parentheses in method signature"
  | .addressLength => "Algorand address must be exactly 58 characters"
  | .addressEncoding => "Invalid base32 encoding for Algorand address"
  | .addressChecksum text => s!"Checksum is invalid for address {text}"

def Unencodable.message : Unencodable → String
  | .notUint => "ABI value mismatch, expected uint"
  | .notAddress => "ABI value mismatch, expected address string"
  | .notString => "ABI value mismatch, expected string"
  | .notByte => "ABI value mismatch, expected byte"
  | .notBool => "ABI value mismatch, expected boolean"
  | .notArray => "ABI value mismatch, expected an array of values"
  | .notBoolInRun => "Expected all values to be ABIValue::Bool"
  | .uintTooBig value bits => s!"{value} is too big to fit in uint{bits}"
  | .stringTooLong size => s!"String of {size} bytes is too long to encode"
  | .arrayTooLong length => s!"Array of {length} elements is too long to encode"
  | .arity => "Mismatch lengths between the values and types"
  | .offset size => s!"Value {size} cannot fit in u16"
  | .methodArity expected got => s!"Expected {expected} method argument values, got {got}"

def Undecodable.message : Undecodable → String
  | .uintLength expected got => s!"Invalid byte array length, expected {expected} bytes, got {got}"
  | .boolByte => "Boolean could not be decoded from the byte string"
  | .boolLength => "Bool string must be 1 byte long"
  | .byteLength => "Byte array must be 1 byte long"
  | .stringShort => "Byte array is too short for string"
  | .stringLength expected got =>
    s!"Invalid byte array length for string, expected {expected} value, got {got}"
  | .utf8 => "Invalid UTF-8 encoding"
  | .addressLength => "Address byte string must be 32 bytes long"
  | .arrayShort => "Byte array is too short to be decoded as dynamic array"
  | .outOfBounds start stop length =>
    s!"Index out of bounds: trying to access bytes[{start}..{stop}] but slice has length {length}"
  | .notConsumed => "Input bytes not fully consumed"
  | .segmentOrder => "Dynamic segment should display a [l, r] space with l <= r"
  | .noReturn method => s!"App call transaction did not log a return value for {method}"
  | .notReturn method => s!"App call transaction did not log a valid return value for {method}"

def Error.message : Error → String
  | .invalid why => "ABI validation failed: " ++ why.message
  | .unencodable why => "ABI encoding failed: " ++ why.message
  | .undecodable why => "ABI decoding failed: " ++ why.message

end AppLedger.Abi
