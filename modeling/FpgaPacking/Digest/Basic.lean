/-
Content digests.

A digest is the 128-bit XXH3 hash of a byte string, kept as sixteen bytes with
the least significant first.  Two netlists are compared by the digests of their
canonical texts.
-/
import FpgaPacking.Digest.Xxh3

namespace FpgaPacking

/-- Sixteen bytes that stand for a content. -/
structure Digest where
  /-- The bytes, least significant first. -/
  bytes : Vector UInt8 16
deriving DecidableEq

namespace Digest

/-- The eight bytes of a word, least significant first. -/
def wordBytes (w : UInt64) : Vector UInt8 8 :=
  Vector.ofFn fun i => (w >>> UInt64.ofNat (8 * i.val)).toUInt8

/-- The digest of a byte string. -/
def ofBytes (data : ByteArray) : Digest :=
  let (low, high) := Xxh3.hash data
  ⟨wordBytes low ++ wordBytes high⟩

/-- The digest of the UTF-8 encoding of a text. -/
def ofText (text : String) : Digest := ofBytes text.toUTF8

/-- A byte as two hexadecimal digits. -/
def hexByte (b : UInt8) : String :=
  String.ofList [Nat.digitChar (b.toNat / 16), Nat.digitChar (b.toNat % 16)]

/-- The bytes as hexadecimal digits. -/
def hex (d : Digest) : String := String.join (d.bytes.toList.map hexByte)

/-- The first four bytes under the name of the type. -/
def summary (d : Digest) : String :=
  "ContentHash(" ++ String.join ((d.bytes.toList.take 4).map hexByte) ++ "..)"

end Digest

end FpgaPacking
