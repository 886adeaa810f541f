import ReleaseNotes.History.Repository
import ReleaseNotes.Storage.CommitText
import ReleaseNotes.Storage.Deflate
import ReleaseNotes.Storage.Inflate

/-!
# Stored Objects

Objects as they lie on a disk: each in a file of its own, or many of them in a
pack.

A file of its own holds, compressed, the kind and the size of an object in
front of its bytes. A pack holds compressed objects one behind the other, and
an index beside it says where each hash starts. To save room a pack may hold
an object as its difference to another one, named by its distance in the pack
or by its hash. A difference is a list of instructions: copy a stretch of the
other object, or insert bytes.

An object is at most as many differences away from one that is whole as there
are objects in the pack, which bounds the search for it. It has the kind of
that one, so the kinds of the objects of a pack are known before any of them
is put together.

## Main definitions

* `StoredObject`: The kind of an object and its bytes.
* `StoredObject.ofFile?`, `StoredObject.toFile`: The file of an object.
* `Pack`: A pack with its index.
* `Pack.objects`: The objects of a pack.
-/

namespace ReleaseNotes

namespace Storage

/-- The kind of an object and its bytes, which are not read before they are
    asked for. -/
structure StoredObject where
  kind : ObjectKind
  content : Thunk (List UInt8)

/-- The object of a file of its own. -/
def StoredObject.ofFile? (bytes : ByteArray) : Option StoredObject := do
  let whole := (← inflate bytes 0).toList
  let kind ← ObjectKind.ofName? (asciiOf (whole.takeWhile (· != ' '.toUInt8)))
  return { kind, content := (whole.dropWhile (· != 0)).drop 1 }

/-- The bytes of a file for an object. -/
def StoredObject.toFile (object : StoredObject) : List UInt8 :=
  let content := object.content.get
  deflate (bytesOf (object.kind.name ++ " " ++ toString content.length) ++ 0 :: content)

/-- A number of so many bytes, the high ones first. -/
def bigEndian (source : ByteArray) (start : Nat) : Nat → Nat
  | 0 => 0
  | count + 1 =>
    bigEndian source start count * 256 + (source[start + count]?.getD 0).toNat

/-- A number in groups of seven bits, the low ones first, and the place behind
    it. A byte of 128 or more says that another one follows. -/
def sevenBits (source : ByteArray) : (bound start : Nat) → Option (Nat × Nat)
  | 0, _ => none
  | bound + 1, start => do
    let byte ← source[start]?
    if byte.toNat < 128 then return (byte.toNat, start + 1)
    let (high, stop) ← sevenBits source bound (start + 1)
    return (byte.toNat - 128 + 128 * high, stop)

/-- The numbers that a mask of so many bits says are there, with zeros for the
    others, as one number with the low byte first, and the place behind it. -/
def maskedBytes (source : ByteArray) (mask start : Nat) : Nat → Option (Nat × Nat)
  | 0 => some (0, start)
  | count + 1 => do
    if mask % 2 == 1 then
      let byte ← source[start]?
      let (high, stop) ← maskedBytes source (mask / 2) (start + 1) count
      return (byte.toNat + 256 * high, stop)
    else
      let (high, stop) ← maskedBytes source (mask / 2) start count
      return (256 * high, stop)

/-- The bytes that instructions make of others, following at most so many
    instructions from a place on. -/
def instructed (base delta : ByteArray) : (bound start : Nat) → ByteArray → Option ByteArray
  | 0, _, _ => none
  | bound + 1, start, out =>
    match delta[start]? with
    | none => some out
    | some byte =>
      let code := byte.toNat
      if code < 128 then
        instructed base delta bound (start + 1 + code)
          (out ++ delta.extract (start + 1) (start + 1 + code))
      else do
        let (offset, start) ← maskedBytes delta (code % 16) (start + 1) 4
        let (size, start) ← maskedBytes delta (code / 16 % 8) start 3
        let size := if size == 0 then 0x10000 else size
        instructed base delta bound start (out ++ base.extract offset (offset + size))

/-- The bytes that a difference makes of others. -/
def applyDelta (base delta : ByteArray) : Option ByteArray := do
  let (_, start) ← sevenBits delta 10 0
  let (_, start) ← sevenBits delta 10 start
  instructed base delta (delta.size + 1) start ByteArray.empty

/-- A pack with its index. -/
structure Pack where
  index : ByteArray
  content : ByteArray

namespace Pack

/-- The number of objects. -/
def size (pack : Pack) : Nat := bigEndian pack.index (8 + 255 * 4) 4

/-- The place in the index where the hashes start. -/
def hashes : Nat := 8 + 256 * 4

/-- The position of a hash in the index, between two bounds, halving their
    distance at most so many times. -/
def searchHash (pack : Pack) (hash : Nat) : (bound low high : Nat) → Option Nat
  | 0, _, _ => none
  | bound + 1, low, high =>
    if high ≤ low then none
    else
      let middle := (low + high) / 2
      let found := bigEndian pack.index (hashes + 20 * middle) 20
      if found = hash then some middle
      else if found < hash then searchHash pack hash bound (middle + 1) high
      else searchHash pack hash bound low middle

/-- The place in the pack where the object at a position of the index
    starts. -/
def offsetAt (pack : Pack) (position : Nat) : Nat :=
  let offsets := hashes + 24 * pack.size
  let short := bigEndian pack.index (offsets + 4 * position) 4
  if short < 0x80000000 then short
  else bigEndian pack.index (offsets + 4 * pack.size + 8 * (short - 0x80000000)) 8

/-- The place in the pack where the object of a hash starts. -/
def offset? (pack : Pack) (hash : Nat) : Option Nat :=
  (pack.searchHash hash 64 0 pack.size).map pack.offsetAt

/-- The distance to the other object of a difference, and the place behind it.
    Each further group counts one more than its bits say. -/
def distance (source : ByteArray) : (bound start read : Nat) → Option (Nat × Nat)
  | 0, _, _ => none
  | bound + 1, start, before => do
    let byte ← source[start]?
    if byte.toNat < 128 then return (128 * before + byte.toNat, start + 1)
    distance source bound (start + 1) (128 * before + (byte.toNat - 128) + 1)

/-- The kind and the bytes of the object that starts at a place, at most so
    many differences away from a whole one. -/
def objectAt (pack : Pack) : (bound start : Nat) → Option (ObjectKind × Thunk ByteArray)
  | 0, _ => none
  | bound + 1, start => do
    let first ← pack.content[start]?
    let behind ←
      if first.toNat < 128 then some (start + 1)
      else (sevenBits pack.content 10 (start + 1)).map (·.2)
    let inflated (place : Nat) : ByteArray := (inflate pack.content place).getD .empty
    let whole (kind : ObjectKind) : Option (ObjectKind × Thunk ByteArray) :=
      some (kind, Thunk.mk fun _ => inflated behind)
    let differing (base stop : Nat) : Option (ObjectKind × Thunk ByteArray) := do
      let (kind, other) ← objectAt pack bound base
      return (kind, Thunk.mk fun _ => (applyDelta other.get (inflated stop)).getD .empty)
    match first.toNat / 16 % 8 with
    | 1 => whole .commit
    | 2 => whole .tree
    | 3 => whole .blob
    | 4 => whole .tag
    | 6 =>
      let (back, stop) ← distance pack.content 10 behind 0
      differing (start - back) stop
    | 7 => differing (← pack.offset? (bigEndian pack.content behind 20)) (behind + 20)
    | _ => none

/-- The hash at a position of the index. -/
def hashAt (pack : Pack) (position : Nat) : String :=
  let start := hashes + 20 * position
  String.ofList ((pack.index.extract start (start + 20)).toList.flatMap fun byte =>
    [Nat.digitChar (byte.toNat / 16), Nat.digitChar (byte.toNat % 16)])

/-- The objects of a pack with their hashes. -/
def objects (pack : Pack) : List (String × StoredObject) :=
  (List.range pack.size).filterMap fun position => do
    let (kind, content) ← pack.objectAt (pack.size + 1) (pack.offsetAt position)
    return (pack.hashAt position, { kind, content := Thunk.mk fun _ => content.get.toList })

end Pack

end Storage

end ReleaseNotes
