/-! Decoding the bytes of a file. Bytes that are valid UTF-8 are read as such; any other bytes are
    read as Latin-1, where each byte is the character with its number, so decoding never fails. -/

namespace SpriteFacts.Text

/-- How the bytes of a file were read. -/
inductive Encoding where
  | utf8
  | latin1
  deriving DecidableEq, Repr

/-- One character for each byte, with the byte's number. -/
def decodeLatin1 (bytes : ByteArray) : List Char := bytes.data.toList.map fun b => Char.ofNat b.toNat

/-- The text of the bytes and the encoding that it was read in. -/
def decode (bytes : ByteArray) : List Char × Encoding :=
  match String.fromUTF8? bytes with
  | some s => (s.toList, .utf8)
  | none => (decodeLatin1 bytes, .latin1)

end SpriteFacts.Text
