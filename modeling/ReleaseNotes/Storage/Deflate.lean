/-!
# Deflating

The compressed form of bytes, with nothing saved.

The stream of RFC 1950 is made of two bytes about the form, blocks, and a
checksum. A block may hold its bytes as they are, behind one byte that says so
and whether it is the last one, its length, and its length with all bits
turned over. So every sequence of bytes has a compressed form that is easy to
write.

## Main definitions

* `deflate`: A stream that stands for bytes.
-/

namespace ReleaseNotes

namespace Storage

/-- The number of bytes that a block has room for. -/
def maxBlock : Nat := 65535

/-- A number in two bytes, the low one first. -/
def twoBytes (n : Nat) : List UInt8 := [UInt8.ofNat n, UInt8.ofNat (n / 256)]

/-- A block of bytes as they are. -/
def plainBlockOf (isLast : Bool) (bytes : List UInt8) : List UInt8 :=
  (if isLast then 1 else 0) :: twoBytes bytes.length ++ twoBytes (maxBlock - bytes.length) ++ bytes

/-- Bytes in at most so many blocks. -/
def plainBlocks : Nat → List UInt8 → List UInt8
  | 0, bytes => plainBlockOf true bytes
  | bound + 1, bytes =>
    if bytes.length ≤ maxBlock then plainBlockOf true bytes
    else plainBlockOf false (bytes.take maxBlock) ++ plainBlocks bound (bytes.drop maxBlock)

/-- The checksum of bytes: their sum, and the sum of the sums on the way. -/
def checksum (bytes : List UInt8) : List UInt8 :=
  let (low, high) := bytes.foldl
    (fun (low, high) byte =>
      let low := (low + byte.toNat) % 65521
      (low, (high + low) % 65521))
    (1, 0)
  (twoBytes high).reverse ++ (twoBytes low).reverse

/-- A stream that stands for bytes. -/
def deflate (bytes : List UInt8) : List UInt8 :=
  [0x78, 0x01] ++ plainBlocks (bytes.length / maxBlock) bytes ++ checksum bytes

end Storage

end ReleaseNotes
