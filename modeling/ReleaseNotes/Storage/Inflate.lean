/-!
# Inflating

Objects are stored compressed. This module reads the compressed form back,
that of RFC 1950 around that of RFC 1951.

The stream is a sequence of bits, the low ones of a byte first. A block holds
either plain bytes or symbols of two codes: one for bytes and for lengths of
repetitions, one for the distances they reach back. A code is given by the
lengths of its words alone. Words of one length are consecutive numbers, and
longer words continue where the shorter ones stop, so a word is recognised by
reading bit after bit and comparing with the range of words of that length.

Every symbol takes at least one bit, so the bits of the stream bound the
number of symbols.

## Main definitions

* `Bits`: A reader of bits.
* `Code`: A code, by the lengths of its words.
* `inflate`: The bytes that a compressed stream stands for.
-/

namespace ReleaseNotes

namespace Storage

/-- A reader of the bits of a stream. The state is the number of bits that
    have been read. -/
abbrev Bits := ReaderT ByteArray (StateT Nat Option)

/-- One bit. -/
def bit : Bits Nat := do
  let place ← get
  match (← read)[place / 8]? with
  | none => failure
  | some byte =>
    set (place + 1)
    return (byte.toNat >>> (place % 8)) % 2

/-- A number of this many bits, the low ones first. -/
def bits : Nat → Bits Nat
  | 0 => return 0
  | count + 1 => do
    let low ← bit
    return low + 2 * (← bits count)

/-- A code: how many words of each length it has, from one on, and the symbols
    in the order of their words. -/
structure Code where
  counts : List Nat
  symbols : Array Nat

/-- The length of the longest words. -/
def maxWord : Nat := 15

/-- The code whose word for each symbol has the given length. A symbol of
    length zero has no word. -/
def Code.ofLengths (lengths : List Nat) : Code :=
  let words := (List.range maxWord).map (· + 1)
  { counts := words.map fun length => lengths.count length
    symbols := (words.flatMap fun length =>
      (lengths.zipIdx.filter (·.1 == length)).map (·.2)).toArray }

/-- The symbol of the next word. `value` has been read of it, `first` is the
    first word of the next length, and `index` symbols have shorter words. -/
def symbolAmong (symbols : Array Nat) : List Nat → (value first index : Nat) → Bits Nat
  | [], _, _, _ => failure
  | count :: counts, value, first, index => do
    let value := 2 * value + (← bit)
    if value < first + count then
      match symbols[index + (value - first)]? with
      | some symbol => return symbol
      | none => failure
    else symbolAmong symbols counts value (2 * (first + count)) (index + count)

/-- The symbol of the next word of a code. -/
def Code.symbol (code : Code) : Bits Nat :=
  symbolAmong code.symbols code.counts 0 0 0

/-- The lengths of repetitions, each with the number of bits that are added to
    it. -/
def lengthBases : Array (Nat × Nat) := #[
  (3, 0), (4, 0), (5, 0), (6, 0), (7, 0), (8, 0), (9, 0), (10, 0), (11, 1), (13, 1), (15, 1),
  (17, 1), (19, 2), (23, 2), (27, 2), (31, 2), (35, 3), (43, 3), (51, 3), (59, 3), (67, 4),
  (83, 4), (99, 4), (115, 4), (131, 5), (163, 5), (195, 5), (227, 5), (258, 0)]

/-- The distances of repetitions, each with the number of bits that are added
    to it. -/
def distanceBases : Array (Nat × Nat) := #[
  (1, 0), (2, 0), (3, 0), (4, 0), (5, 1), (7, 1), (9, 2), (13, 2), (17, 3), (25, 3), (33, 4),
  (49, 4), (65, 5), (97, 5), (129, 6), (193, 6), (257, 7), (385, 7), (513, 8), (769, 8),
  (1025, 9), (1537, 9), (2049, 10), (3073, 10), (4097, 11), (6145, 11), (8193, 12), (12289, 12),
  (16385, 13), (24577, 13)]

/-- A number given by a symbol and the bits that are added to it. -/
def extended (bases : Array (Nat × Nat)) (symbol : Nat) : Bits Nat := do
  match bases[symbol]? with
  | some (base, extra) => return base + (← bits extra)
  | none => failure

/-- Bytes with as many more, each a repetition of the one this far back. -/
def repeated (distance : Nat) : Nat → ByteArray → ByteArray
  | 0, out => out
  | count + 1, out => repeated distance count (out.push ((out[out.size - distance]?).getD 0))

/-- The symbols of a block, up to its end and at most this many. -/
def symbolsUpTo (literals distances : Code) : Nat → ByteArray → Bits ByteArray
  | 0, _ => failure
  | bound + 1, out => do
    let symbol ← literals.symbol
    if symbol < 256 then symbolsUpTo literals distances bound (out.push (UInt8.ofNat symbol))
    else if symbol == 256 then return out
    else
      let length ← extended lengthBases (symbol - 257)
      let distance ← extended distanceBases (← distances.symbol)
      guard (distance ≤ out.size)
      symbolsUpTo literals distances bound (repeated distance length out)

/-- The codes that need not be written down. -/
def fixedCodes : Code × Code :=
  (.ofLengths (List.replicate 144 8 ++ List.replicate 112 9 ++ List.replicate 24 7 ++
    List.replicate 8 8), .ofLengths (List.replicate 30 5))

/-- The lengths of the words of a code, written with another code, until there
    are this many. -/
def lengthsUpTo (code : Code) (wanted : Nat) : Nat → Array Nat → Bits (Array Nat)
  | 0, found => do
    guard (found.size == wanted)
    return found
  | bound + 1, found => do
    if wanted ≤ found.size then
      guard (found.size == wanted)
      return found
    let symbol ← code.symbol
    if symbol < 16 then lengthsUpTo code wanted bound (found.push symbol)
    else
      let (length, count) ←
        if symbol == 16 then do
          let some last := found.back? | failure
          pure (last, 3 + (← bits 2))
        else if symbol == 17 then do pure (0, 3 + (← bits 3))
        else do pure (0, 11 + (← bits 7))
      lengthsUpTo code wanted bound (found ++ Array.replicate count length)

/-- The order in which the lengths of the first code are written. -/
def lengthOrder : List Nat := [16, 17, 18, 0, 8, 7, 9, 6, 10, 5, 11, 4, 12, 3, 13, 2, 14, 1, 15]

/-- As many small numbers of three bits. -/
def triples : Nat → Bits (List Nat)
  | 0 => return []
  | count + 1 => do
    let first ← bits 3
    return first :: (← triples count)

/-- The codes that are written in front of a block. -/
def writtenCodes : Bits (Code × Code) := do
  let literalCount := 257 + (← bits 5)
  let distanceCount := 1 + (← bits 5)
  let given := lengthOrder.zip (← triples (4 + (← bits 4)))
  let first := Code.ofLengths ((List.range 19).map fun symbol => (given.lookup symbol).getD 0)
  let wanted := literalCount + distanceCount
  let lengths := (← lengthsUpTo first wanted wanted #[]).toList
  return (.ofLengths (lengths.take literalCount), .ofLengths (lengths.drop literalCount))

/-- The bytes of a block that is not compressed. -/
def plainBlock (out : ByteArray) : Bits ByteArray := do
  let start := ((← get) + 7) / 8
  set (8 * start)
  let length ← bits 16
  discard (bits 16)
  let source ← read
  guard (start + 4 + length ≤ source.size)
  set (8 * (start + 4 + length))
  return out ++ source.extract (start + 4) (start + 4 + length)

/-- The blocks of a stream, at most this many. -/
def blocksUpTo : Nat → ByteArray → Bits ByteArray
  | 0, _ => failure
  | bound + 1, out => do
    let last ← bit
    let kind ← bits 2
    let limit := 8 * (← read).size + 1
    let out ←
      if kind == 0 then plainBlock out
      else if kind == 1 then symbolsUpTo fixedCodes.1 fixedCodes.2 limit out
      else if kind == 2 then do
        let (literals, distances) ← writtenCodes
        symbolsUpTo literals distances limit out
      else failure
    if last == 1 then return out else blocksUpTo bound out

/-- The bytes that the compressed stream starting at a place stands for. -/
def inflate (source : ByteArray) (start : Nat) : Option ByteArray := do
  let head := (source[start]?.getD 0).toNat
  guard (head % 16 == 8)
  let (out, _) ← (blocksUpTo (8 * source.size + 1) ByteArray.empty).run source (8 * (start + 2))
  return out

end Storage

end ReleaseNotes
