import Mathlib.Tactic.Ring
import ReleaseNotes.Storage.Deflate
import ReleaseNotes.Storage.Inflate

/-!
# What Is Compressed Comes Back

The stream that is written for some bytes is one that is read as them.

The stream is written with plain blocks only, so of all that a reader of streams can
do no more is needed than to read such blocks. But they are read by bits, as everything
is, and a block starts where the bits of the last one end. The lemmas below therefore
count in bits: a place in the stream is eight times a number of bytes, and three bits
more behind the first three of a block. Bits of one byte are a part of its number
(`bits_eq`), and the numbers of two stretches of bits are put together
(`bits_add`), which is how the length of a block is read from two bytes.

Every block ends at a whole byte, so blocks compose: what one of them adds to the output
is there when the next one starts. The induction over the blocks keeps the stream as it
is and moves the border between what has been read and what has not.

## Theorems

* `toList_toByteArray`, `extract_toByteArray`: A list of bytes as an array.
* `bits_eq`, `bits_add`, `bits_twoBytes`: What is read from bytes.
* `blocksUpTo_plainBlockOf`: What a plain block adds to the output.
* `blocksUpTo_plainBlocks`: What plain blocks add to it.
* `inflate_deflate`: What is compressed comes back.
-/

namespace ReleaseNotes

namespace Storage

section bytes

theorem toList_loop_eq (bytes : ByteArray) (place : Nat) (found : List UInt8) :
    ByteArray.toList.loop bytes place found = found.reverse ++ bytes.data.toList.drop place := by
  induction place, found using ByteArray.toList.loop.induct bytes with
  | case1 place found hlt ih =>
      have hplace : place < bytes.data.toList.length := by
        rw [Array.length_toList]
        exact hlt
      have hget : bytes.get! place = bytes.data.toList[place] := by
        rw [Array.getElem_toList]
        exact getElem!_pos bytes.data place hlt
      rw [ByteArray.toList.loop, if_pos hlt, ih, List.drop_eq_getElem_cons hplace, hget,
        List.reverse_cons, List.append_assoc, List.singleton_append]
  | case2 place found hge =>
      have hnone : bytes.data.toList.drop place = [] := by
        rw [List.drop_eq_nil_iff, Array.length_toList]
        exact Nat.le_of_not_lt hge
      rw [ByteArray.toList.loop, if_neg hge, hnone, List.append_nil]

@[simp] theorem toList_toByteArray (bytes : List UInt8) : bytes.toByteArray.toList = bytes := by
  rw [ByteArray.toList, toList_loop_eq, List.toList_data_toByteArray]
  rfl

theorem getElem?_toByteArray (bytes : List UInt8) (place : Nat) :
    bytes.toByteArray[place]? = bytes[place]? := by
  by_cases hplace : place < bytes.length
  · rw [List.getElem?_eq_getElem hplace,
      getElem?_pos bytes.toByteArray place (by rwa [List.size_toByteArray]),
      List.getElem_toByteArray]
  · rw [List.getElem?_eq_none (by omega),
      getElem?_neg bytes.toByteArray place (by rwa [List.size_toByteArray])]

theorem extract_toByteArray (front bytes back : List UInt8) :
    (front ++ bytes ++ back).toByteArray.extract front.length (front.length + bytes.length) =
      bytes.toByteArray := by
  refine ByteArray.ext (Array.ext' ?_)
  rw [ByteArray.data_extract, Array.toList_extract, List.toList_data_toByteArray,
    List.toList_data_toByteArray, List.extract_eq_take_drop, List.append_assoc, List.drop_left,
    Nat.add_sub_cancel_left, List.take_left]

end bytes

section bits

variable {α β : Type} {source : ByteArray} {place next : Nat} {byte : UInt8}

theorem run_bind (reader : Bits α) (rest : α → Bits β) :
    (reader >>= rest) source place =
      (reader source place).bind fun found => rest found.1 source found.2 := rfl

/-- A reader that has found something is followed by the rest, from where it
    stopped. -/
theorem run_bind_of_eq {reader : Bits α} {rest : α → Bits β} {found : α}
    (h : reader source place = some (found, next)) :
    (reader >>= rest) source place = rest found source next := by
  rw [run_bind, h, Option.bind_some]

theorem bit_eq (h : source[place / 8]? = some byte) :
    bit source place = some (byte.toNat >>> (place % 8) % 2, place + 1) := by
  have hget : (get : Bits Nat) source place = some (place, place) := rfl
  have hread : (read : Bits ByteArray) source place = some (source, place) := rfl
  rw [bit, run_bind_of_eq hget, run_bind_of_eq hread, h]
  rfl

/-- Bits of one byte are a part of its number. -/
theorem bits_eq (h : source[place]? = some byte) (count offset : Nat) (hle : offset + count ≤ 8) :
    bits count source (8 * place + offset) =
      some (byte.toNat / 2 ^ offset % 2 ^ count, 8 * place + offset + count) := by
  induction count generalizing offset with
  | zero =>
      rw [Nat.pow_zero, Nat.mod_one]
      rfl
  | succ count ih =>
      have hplace : (8 * place + offset) / 8 = place := by omega
      have hoffset : (8 * place + offset) % 8 = offset := by omega
      rw [bits, run_bind_of_eq (bit_eq (by rwa [hplace])), hoffset, Nat.add_assoc (8 * place),
        run_bind_of_eq (ih (offset + 1) (by omega)), Nat.shiftRight_eq_div_pow]
      show some (_, _) = some (_, _)
      -- The lowest bit and the others are the rest by two and the quotient.
      rw [Nat.pow_succ, ← Nat.div_div_eq_div_mul, Nat.pow_succ, Nat.mul_comm (2 ^ count) 2,
        Nat.mod_mul, Nat.add_assoc (8 * place), Nat.add_assoc (8 * place), Nat.add_assoc offset,
        Nat.add_comm 1 count]

/-- The numbers of two stretches of bits are put together. -/
theorem bits_add {low high first second stop : Nat}
    (hlow : bits low source place = some (first, next))
    (hhigh : bits high source next = some (second, stop)) :
    bits (low + high) source place = some (first + 2 ^ low * second, stop) := by
  induction low generalizing place first with
  | zero =>
      obtain ⟨rfl, rfl⟩ := Prod.mk.inj (Option.some.inj hlow)
      rw [Nat.zero_add, hhigh, Nat.zero_add, Nat.pow_zero, Nat.one_mul]
  | succ low ih =>
      rw [bits, run_bind] at hlow
      obtain ⟨lowest, hbit, hlow⟩ := Option.bind_eq_some_iff.1 hlow
      rw [run_bind] at hlow
      obtain ⟨rest, hrest, hlow⟩ := Option.bind_eq_some_iff.1 hlow
      obtain ⟨rfl, rfl⟩ := Prod.mk.inj (Option.some.inj hlow)
      rw [Nat.add_right_comm, bits, run_bind_of_eq hbit, run_bind_of_eq (ih hrest)]
      show some (_, _) = some (_, _)
      congr 2
      ring

theorem bits_byte (h : source[place]? = some byte) :
    bits 8 source (8 * place) = some (byte.toNat, 8 * (place + 1)) := by
  have hbits := bits_eq h 8 0 (Nat.le_refl 8)
  rwa [Nat.pow_zero, Nat.div_one, Nat.mod_eq_of_lt byte.toNat_lt] at hbits

/-- A number that was written in two bytes is read from sixteen bits. -/
theorem bits_twoBytes {n : Nat} (hn : n ≤ maxBlock)
    (hlow : source[place]? = some (UInt8.ofNat n))
    (hhigh : source[place + 1]? = some (UInt8.ofNat (n / 256))) :
    bits 16 source (8 * place) = some (n, 8 * (place + 2)) := by
  have hsum : (UInt8.ofNat n).toNat + 2 ^ 8 * (UInt8.ofNat (n / 256)).toNat = n := by
    rw [maxBlock] at hn
    rw [UInt8.toNat_ofNat', UInt8.toNat_ofNat']
    omega
  have hbits := bits_add (bits_byte hlow) (bits_byte hhigh)
  rwa [hsum] at hbits

end bits

section blocks

variable {source out : ByteArray} {place next limit : Nat} {front back bytes : List UInt8}

/-- A plain block behind its first three bits, given what its lengths are read
    as. -/
theorem plainBlock_eq (out : ByteArray) {length : Nat}
    (hlength : bits 16 source (8 * (place + 1)) = some (length, 8 * (place + 3)))
    (hturned : bits 16 source (8 * (place + 3)) = some (maxBlock - length, 8 * (place + 5)))
    (hsize : place + 5 + length ≤ source.size) :
    plainBlock out source (8 * place + 3) =
      some (out ++ source.extract (place + 5) (place + 5 + length), 8 * (place + 5 + length)) := by
  -- The rest of the byte is left out.
  have hstart : (8 * place + 3 + 7) / 8 = place + 1 := by omega
  have hget : (get : Bits Nat) source (8 * place + 3) =
      some (8 * place + 3, 8 * place + 3) := rfl
  have hset : (set (8 * (place + 1)) : Bits PUnit) source (8 * place + 3) =
      some (.unit, 8 * (place + 1)) := rfl
  have hdiscard : (discard (bits 16) : Bits PUnit) source (8 * (place + 3)) =
      some (.unit, 8 * (place + 5)) := by
    show (bits 16 source (8 * (place + 3))).bind _ = _
    rw [hturned]
    rfl
  have hread : (read : Bits ByteArray) source (8 * (place + 5)) =
      some (source, 8 * (place + 5)) := rfl
  rw [plainBlock, run_bind_of_eq hget, hstart, run_bind_of_eq hset, run_bind_of_eq hlength,
    run_bind_of_eq hdiscard, run_bind_of_eq hread, guard, if_pos hsize]
  rfl

theorem blocksUpTo_of_plain {found : ByteArray} {last : Nat}
    (hlast : bit source place = some (last, place + 1))
    (hkind : bits 2 source (place + 1) = some (0, place + 3))
    (hplain : plainBlock out source (place + 3) = some (found, next)) :
    blocksUpTo (limit + 1) out source place =
      if last == 1 then some (found, next) else blocksUpTo limit found source next := by
  have hread : (read : Bits ByteArray) source (place + 3) = some (source, place + 3) := rfl
  rw [blocksUpTo, run_bind_of_eq hlast, run_bind_of_eq hkind, run_bind_of_eq hread]
  simp only [beq_self_eq_true, if_true]
  rw [run_bind_of_eq hplain]
  split <;> rfl

theorem length_plainBlockOf (isLast : Bool) (bytes : List UInt8) :
    (plainBlockOf isLast bytes).length = 5 + bytes.length := by
  rw [plainBlockOf, List.length_append, List.length_append]
  rfl

/-- What a plain block adds to the output. Unless it is the last one, the next one
    starts right behind it. -/
theorem blocksUpTo_plainBlockOf (isLast : Bool) (hlength : bytes.length ≤ maxBlock)
    (hsource : source = (front ++ plainBlockOf isLast bytes ++ back).toByteArray) :
    blocksUpTo (limit + 1) out source (8 * front.length) =
      if isLast then
        some (out ++ bytes.toByteArray, 8 * (front ++ plainBlockOf isLast bytes).length)
      else
        blocksUpTo limit (out ++ bytes.toByteArray) source
          (8 * (front ++ plainBlockOf isLast bytes).length) := by
  have hbyte (n : Nat) : source[front.length + n]? = (plainBlockOf isLast bytes ++ back)[n]? := by
    rw [hsource, getElem?_toByteArray, List.append_assoc,
      List.getElem?_append_right (Nat.le_add_right ..), Nat.add_sub_cancel_left]
  have hextract : source.extract (front.length + 5) (front.length + 5 + bytes.length) =
      bytes.toByteArray := by
    have h := extract_toByteArray (front ++ (plainBlockOf isLast bytes).take 5) bytes back
    simpa [hsource, plainBlockOf, twoBytes] using h
  have hfirst : source[front.length]? = some (if isLast then 1 else 0) := hbyte 0
  have hlast : bit source (8 * front.length) =
      some (if isLast then 1 else 0, 8 * front.length + 1) := by
    rw [bit_eq (by rwa [Nat.mul_div_cancel_left _ (by decide)]), Nat.mul_mod_right]
    cases isLast <;> rfl
  have hkind : bits 2 source (8 * front.length + 1) = some (0, 8 * front.length + 3) := by
    rw [bits_eq hfirst 2 1 (by decide)]
    cases isLast <;> rfl
  have hsize : front.length + 5 + bytes.length ≤ source.size := by
    rw [hsource, List.size_toByteArray, List.length_append, List.length_append,
      length_plainBlockOf]
    omega
  have hplain := plainBlock_eq out (bits_twoBytes hlength (hbyte 1) (hbyte 2))
    (bits_twoBytes (Nat.sub_le ..) (hbyte 3) (hbyte 4)) hsize
  rw [blocksUpTo_of_plain hlast hkind hplain, hextract, List.length_append, length_plainBlockOf,
    Nat.add_assoc]
  cases isLast <;> rfl

theorem length_le_length_plainBlocks (bound : Nat) (bytes : List UInt8) :
    bytes.length ≤ (plainBlocks bound bytes).length := by
  induction bound generalizing bytes with
  | zero =>
      rw [plainBlocks, length_plainBlockOf]
      omega
  | succ bound ih =>
      rw [plainBlocks]
      split
      · rw [length_plainBlockOf]
        omega
      · have hrest := ih (bytes.drop maxBlock)
        rw [List.length_drop] at hrest
        rw [List.length_append, length_plainBlockOf, List.length_take]
        omega

/-- Plain blocks add all the bytes that they were made of. -/
theorem blocksUpTo_plainBlocks (bound : Nat) (out : ByteArray)
    (hbound : bytes.length ≤ maxBlock * (bound + 1)) (hlimit : bound < limit)
    (hsource : source = (front ++ plainBlocks bound bytes ++ back).toByteArray) :
    ∃ stop, blocksUpTo limit out source (8 * front.length) =
      some (out ++ bytes.toByteArray, stop) := by
  obtain ⟨limit, rfl⟩ := Nat.exists_eq_succ_of_ne_zero (Nat.ne_of_gt (Nat.zero_lt_of_lt hlimit))
  -- The stream stays as it is; what has been read of it grows by a block.
  induction bound generalizing front bytes out limit with
  | zero =>
      rw [blocksUpTo_plainBlockOf true (by omega) hsource]
      exact ⟨_, rfl⟩
  | succ bound ih =>
      rw [plainBlocks] at hsource
      split at hsource
      next hfits =>
        rw [blocksUpTo_plainBlockOf true hfits hsource]
        exact ⟨_, rfl⟩
      next hlong =>
        have hlength : (bytes.take maxBlock).length ≤ maxBlock := List.length_take_le ..
        have hrest : (bytes.drop maxBlock).length ≤ maxBlock * (bound + 1) := by
          rw [List.length_drop, Nat.sub_le_iff_le_add]
          exact hbound
        rw [← List.append_assoc front] at hsource
        obtain ⟨limit, rfl⟩ : ∃ fewer, limit = fewer + 1 := Nat.exists_eq_succ_of_ne_zero (by omega)
        obtain ⟨stop, hstop⟩ := ih (out ++ (bytes.take maxBlock).toByteArray) hrest hsource
          limit (by omega)
        refine ⟨stop, ?_⟩
        rw [List.append_assoc (front ++ _)] at hsource
        rw [blocksUpTo_plainBlockOf false hlength hsource, if_neg Bool.false_ne_true, hstop,
          ByteArray.append_assoc, ← List.toByteArray_append, List.take_append_drop]

end blocks

/-- What is compressed comes back. -/
theorem inflate_deflate (bytes : List UInt8) :
    inflate (deflate bytes).toByteArray 0 = some bytes.toByteArray := by
  have hbound : bytes.length ≤ maxBlock * (bytes.length / maxBlock + 1) :=
    (Nat.lt_mul_div_succ bytes.length (by decide : 0 < maxBlock)).le
  -- Each block has bytes of its own, so there are not more blocks than bits.
  have hlimit : bytes.length / maxBlock < 8 * (deflate bytes).toByteArray.size + 1 := by
    have hle : bytes.length / maxBlock ≤ bytes.length := Nat.div_le_self ..
    have hblocks := length_le_length_plainBlocks (bytes.length / maxBlock) bytes
    rw [List.size_toByteArray, deflate, List.length_append, List.length_append]
    omega
  have hsource : (deflate bytes).toByteArray = ([0x78, 0x01] ++
      plainBlocks (bytes.length / maxBlock) bytes ++ checksum bytes).toByteArray := rfl
  obtain ⟨stop, hstop⟩ := blocksUpTo_plainBlocks (bytes.length / maxBlock) ByteArray.empty hbound
    hlimit hsource
  have hrun : (blocksUpTo (8 * (deflate bytes).toByteArray.size + 1) ByteArray.empty).run
      (deflate bytes).toByteArray (8 * (0 + 2)) = some (bytes.toByteArray, stop) := by
    rw [ByteArray.empty_append] at hstop
    exact hstop
  have hhead : (deflate bytes).toByteArray[0]? = some 0x78 := getElem?_toByteArray (deflate bytes) 0
  rw [inflate, hhead, hrun]
  rfl

end Storage

end ReleaseNotes
