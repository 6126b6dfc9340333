import AppLedger.Abi.Error
import AppLedger.Bytes
import AppLedger.Hash.Sha512
import AppLedger.Text.Base32

/-! The text of an address in a value: its 32 bytes and a checksum, in base32. -/

namespace AppLedger.Abi

/-- The last four bytes of the hash. -/
def keyChecksum (key : Bytes) : Bytes :=
  (Hash.sha512_256 key).drop 28

def addressText (key : Bytes) : String :=
  Text.Base32.encode (key ++ keyChecksum key)

def addressKey (text : String) : Except Invalid Bytes :=
  if text.utf8ByteSize ≠ 58 then .error .addressLength
  else
    match Text.Base32.decode? text with
    | none => .error .addressEncoding
    | some b =>
      if b.drop 32 = keyChecksum (b.take 32) then .ok (b.take 32)
      else .error (.addressChecksum text)

end AppLedger.Abi
