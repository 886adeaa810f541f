import ReleaseNotes.Proofs.Storage.Compression
import ReleaseNotes.Storage.RefText

/-!
# What Is Written Is Read

The parts that the texts in a repository are made of: hashes, times, words, and
lines about persons.

Texts are bytes there, and nothing guards their parts. What is read back as it was
written is therefore told with conditions on the parts, and these are as weak as the
reader allows. A hash has to be in full and in small letters (`IsHash`). The name of a
person may have angles in it, because the last ones of a line count; the address may
not have the opening one (`Signature.IsLegible`). Neither may begin or end with what
is trimmed off.

A time is written in decimal digits, behind a sign if it is before the year 1970, and
the reader stops at the first byte that is no digit. Its bytes lie between the blank
and the last digit (`Signature.mem_timeText`), so it contains none of the marks that a
line is divided by.

## Main definitions

* `IsHash`: A hash in full, in small letters.
* `Signature.timeText`: The time of a line about a person.
* `Signature.IsLegible`: A signature that says the same when it is read.

## Theorems

* `textOf_bytesOf`, `bytesOf_of_ascii`: Texts and their bytes.
* `readHash?_append`: A hash is read off the front of a text.
* `Signature.readTime_timeText`: A time reads as what was written.
* `Signature.ofLine_append`: What a line about a person says.
* `Signature.read_write`: A signature reads as what was written.
-/

namespace ReleaseNotes

namespace Storage

section texts

theorem bytesOf_eq (text : String) :
    bytesOf text = text.toList.flatMap String.utf8EncodeChar := by
  rw [bytesOf, String.toUTF8, ← String.utf8Encode_toList, List.utf8Encode, toList_toByteArray]

@[simp] theorem bytesOf_append (text other : String) :
    bytesOf (text ++ other) = bytesOf text ++ bytesOf other := by
  rw [bytesOf_eq, bytesOf_eq, bytesOf_eq, String.toList_append, List.flatMap_append]

theorem toByteArray_bytesOf (text : String) : (bytesOf text).toByteArray = text.toUTF8 := by
  rw [bytesOf_eq, String.toUTF8, ← String.utf8Encode_toList, List.utf8Encode]

@[simp] theorem textOf_bytesOf (text : String) : textOf (bytesOf text) = text := by
  rw [textOf, toByteArray_bytesOf, String.toUTF8, String.fromUTF8?, dif_pos text.isValidUTF8]
  rfl

/-- Each of these characters is one byte. -/
theorem bytesOf_of_ascii {text : String} (h : ∀ c ∈ text.toList, c.toNat < 128) :
    bytesOf text = text.toList.map Char.toUInt8 := by
  rw [bytesOf_eq]
  generalize text.toList = chars at h
  induction chars with
  | nil => rfl
  | cons c chars ih =>
      have hsize : c.utf8Size = 1 := by
        rw [Char.utf8Size_eq_one_iff, UInt32.le_iff_toNat_le]
        exact Nat.le_of_lt_succ (h c List.mem_cons_self)
      rw [List.flatMap_cons, List.map_cons, String.utf8EncodeChar_eq_singleton hsize,
        ih fun d hd => h d (List.mem_cons_of_mem c hd)]
      rfl

theorem bytesOf_lineEnd : bytesOf "\n" = [lineEnd] := by
  rw [bytesOf_eq]
  rfl

end texts

section hashes

/-- The digits of hashes. -/
def hashDigits : List Char :=
  ['0', '1', '2', '3', '4', '5', '6', '7', '8', '9', 'a', 'b', 'c', 'd', 'e', 'f']

/-- A hash in full, in small letters. -/
structure IsHash (hash : String) : Prop where
  length_eq : hash.toList.length = hashSize
  digits : hash.toList.all hashDigits.contains = true

namespace IsHash

variable {hash : String} {p : Char → Bool}

/-- What can be said of each digit holds in a hash. -/
theorem all (h : IsHash hash) (hall : hashDigits.all p = true) : hash.toList.all p = true := by
  rw [List.all_eq_true] at hall ⊢
  exact fun c hc => hall c (List.contains_iff_mem.1 (List.all_eq_true.1 h.digits c hc))

theorem bytesOf_eq (h : IsHash hash) : bytesOf hash = hash.toList.map Char.toUInt8 := by
  have hascii := h.all (p := fun c => c.toNat < 128) (by decide)
  exact bytesOf_of_ascii fun c hc => of_decide_eq_true (List.all_eq_true.1 hascii c hc)

theorem length_bytesOf (h : IsHash hash) : (bytesOf hash).length = hashSize := by
  rw [h.bytesOf_eq, List.length_map, h.length_eq]

theorem all_isHexByte (h : IsHash hash) : (bytesOf hash).all isHexByte = true := by
  rw [h.bytesOf_eq, List.all_map]
  exact h.all (by decide)

/-- Putting a hash into small letters changes nothing. -/
theorem toLower_asciiOf (h : IsHash hash) :
    String.ofList ((asciiOf (bytesOf hash)).toList.map Char.toLower) = hash := by
  have hsmall := h.all (p := fun c => (Char.ofNat c.toUInt8.toNat).toLower = c) (by decide)
  have hchars : ∀ c ∈ hash.toList, (Char.ofNat c.toUInt8.toNat).toLower = c := fun c hc =>
    of_decide_eq_true (List.all_eq_true.1 hsmall c hc)
  rw [h.bytesOf_eq, asciiOf, String.toList_ofList, List.map_map, List.map_map]
  refine (congrArg String.ofList (List.map_congr_left hchars)).trans ?_
  rw [List.map_id', String.ofList_toList]

end IsHash

/-- A hash is read off the front of a text. -/
theorem readHash?_append {hash : String} (h : IsHash hash) (rest : List UInt8) :
    readHash? (bytesOf hash ++ rest) = some (hash, rest) := by
  have htake : (bytesOf hash ++ rest).take hashSize = bytesOf hash :=
    List.take_left' h.length_bytesOf
  have hdrop : (bytesOf hash ++ rest).drop hashSize = rest := List.drop_left' h.length_bytesOf
  simp only [readHash?, htake, hdrop, h.length_bytesOf, h.all_isHexByte, h.toLower_asciiOf,
    decide_true, Bool.and_self, if_true]

end hashes

section lines

variable {line rest : List UInt8}

/-- The first line ends where the first end of a line is. -/
theorem splitLine?_append (h : lineEnd ∉ line) :
    splitLine? (line ++ lineEnd :: rest) = some (line, rest) := by
  have hne : ∀ byte ∈ line, (byte != lineEnd) = true := fun byte hbyte =>
    bne_iff_ne.2 fun heq => h (heq ▸ hbyte)
  rw [splitLine?, List.dropWhile_append_of_pos hne, List.takeWhile_append_of_pos hne]
  simp

theorem behindWord?_append (word : String) (rest : List UInt8) :
    behindWord? word (bytesOf (word ++ " ") ++ rest) = some rest := by
  simp [behindWord?]

end lines

namespace Signature

section times

variable {digits : List Char} {time : Int} {byte : UInt8}

theorem isDigit_toUInt8 {c : Char} (h : c.isDigit = true) :
    isDigit c.toUInt8 = true ∧ c.toUInt8.toNat = c.toNat := by
  obtain ⟨hlow, hhigh⟩ := Char.isDigit_iff_toNat.1 h
  have hsmall : c.toNat < 256 := Nat.lt_of_le_of_lt hhigh (by decide)
  have hnat : c.toUInt8.toNat = c.toNat :=
    (UInt32.toNat_toUInt8 c.val).trans (Nat.mod_eq_of_lt hsmall)
  refine ⟨?_, hnat⟩
  rw [isDigit, Bool.and_eq_true, decide_eq_true_eq, decide_eq_true_eq, UInt8.le_iff_toNat_le,
    UInt8.le_iff_toNat_le, hnat]
  exact ⟨hlow, hhigh⟩

/-- A digit is neither a blank nor a sign. -/
theorem ne_of_isDigit (h : isDigit byte = true) :
    isBlank byte = false ∧ byte ≠ 45 ∧ byte ≠ 43 := by
  simp only [isDigit, Bool.and_eq_true, decide_eq_true_eq, UInt8.le_iff_toNat_le] at h
  have hlow : 48 ≤ byte.toNat := h.1
  simp only [isBlank, Bool.or_eq_false_iff, Bool.and_eq_false_iff, beq_eq_false_iff_ne,
    decide_eq_false_iff_not, UInt8.le_iff_toNat_le, ne_eq, ← UInt8.toNat_inj, UInt8.reduceToNat]
  omega

theorem takeWhile_isDigit (h : ∀ c ∈ digits, c.isDigit = true) (rest : List UInt8) :
    (digits.map Char.toUInt8 ++ 32 :: rest).takeWhile isDigit = digits.map Char.toUInt8 := by
  rw [List.takeWhile_append_of_pos, List.takeWhile_cons_of_neg (by decide), List.append_nil]
  intro byte hbyte
  obtain ⟨c, hc, rfl⟩ := List.mem_map.1 hbyte
  exact (isDigit_toUInt8 (h c hc)).1

theorem foldl_digits (h : ∀ c ∈ digits, c.isDigit = true) (start : Nat) :
    (digits.map Char.toUInt8).foldl (fun n byte => n * 10 + (byte.toNat - '0'.toNat)) start =
      Nat.ofDigitChars 10 digits start := by
  induction digits generalizing start with
  | nil => rfl
  | cons c digits ih =>
      rw [List.map_cons, List.foldl_cons, Nat.ofDigitChars_cons,
        (isDigit_toUInt8 (h c List.mem_cons_self)).2,
        ih fun d hd => h d (List.mem_cons_of_mem c hd), Nat.mul_comm]

theorem isDigit_of_mem_toDigits {n : Nat} : ∀ c ∈ Nat.toDigits 10 n, c.isDigit = true :=
  fun _ => Nat.isDigit_of_mem_toDigits (by decide) (by decide)

theorem bytesOf_toString (n : Nat) :
    bytesOf (toString n) = (Nat.toDigits 10 n).map Char.toUInt8 := by
  rw [Nat.toString_eq_ofList_toDigits, bytesOf_of_ascii, String.toList_ofList]
  intro c hc
  rw [String.toList_ofList] at hc
  have hdigit := Char.isDigit_iff_toNat.1 (isDigit_of_mem_toDigits c hc)
  exact Nat.lt_of_le_of_lt hdigit.2 (by decide)

theorem isDigit_of_mem_bytesOf {n : Nat} (h : byte ∈ bytesOf (toString n)) :
    isDigit byte = true := by
  rw [bytesOf_toString] at h
  obtain ⟨c, hc, rfl⟩ := List.mem_map.1 h
  exact (isDigit_toUInt8 (isDigit_of_mem_toDigits c hc)).1

theorem bytesOf_toString_negSucc (n : Nat) :
    bytesOf (toString (Int.negSucc n)) = 45 :: bytesOf (toString (n + 1)) := by
  rw [show toString (Int.negSucc n) = "-" ++ toString (n + 1) from rfl, bytesOf_append,
    Storage.bytesOf_eq "-"]
  rfl

/-- The time of a line about a person. -/
def timeText (time : Int) : List UInt8 := bytesOf (toString time ++ " +0000")

theorem timeText_eq (time : Int) :
    timeText time = bytesOf (toString time) ++ 32 :: bytesOf "+0000" := by
  rw [timeText, bytesOf_append, Storage.bytesOf_eq " +0000", Storage.bytesOf_eq "+0000"]
  rfl

/-- No mark that divides a line is in a time. -/
theorem mem_timeText (h : byte ∈ timeText time) : 32 ≤ byte.toNat ∧ byte.toNat ≤ 57 := by
  have hdigits (n : Nat) (hmem : byte ∈ bytesOf (toString n)) :
      32 ≤ byte.toNat ∧ byte.toNat ≤ 57 := by
    have hdigit := isDigit_of_mem_bytesOf hmem
    simp only [isDigit, Bool.and_eq_true, decide_eq_true_eq, UInt8.le_iff_toNat_le] at hdigit
    exact ⟨Nat.le_trans (by decide) hdigit.1, hdigit.2⟩
  have hzone : ∀ byte ∈ bytesOf " +0000", 32 ≤ byte.toNat ∧ byte.toNat ≤ 57 := by
    have hbytes : bytesOf " +0000" = [32, 43, 48, 48, 48, 48] := by
      rw [Storage.bytesOf_eq]
      rfl
    rw [hbytes]
    simp only [List.forall_mem_cons, List.not_mem_nil, false_imp_iff, implies_true, and_true]
    decide
  rw [timeText, bytesOf_append, List.mem_append] at h
  rcases h with h | h
  · cases time with
    | ofNat n => exact hdigits n h
    | negSucc n =>
        rw [bytesOf_toString_negSucc, List.mem_cons] at h
        rcases h with rfl | h
        · decide
        · exact hdigits (n + 1) h
  · exact hzone byte h

/-- No other mark is in a time. -/
theorem notMem_timeText (h : byte.toNat < 32 ∨ 57 < byte.toNat) : byte ∉ timeText time := by
  intro hmem
  have hbounds := mem_timeText hmem
  omega

theorem readTime_digits (hdigits : ∀ c ∈ digits, c.isDigit = true) (hsome : digits ≠ [])
    (hhigh : (Nat.ofDigitChars 10 digits 0 : Int) ≤ maxTime) (rest : List UInt8) :
    readTime (digits.map Char.toUInt8 ++ 32 :: rest) = .ok (Nat.ofDigitChars 10 digits 0) := by
  have hfold := foldl_digits hdigits 0
  have htake := takeWhile_isDigit hdigits rest
  generalize Nat.ofDigitChars 10 digits 0 = number at hfold hhigh ⊢
  obtain ⟨c, others, rfl⟩ := List.exists_cons_of_ne_nil hsome
  -- The first digit is no sign, so what is read starts with it.
  obtain ⟨hblank, hminus, hplus⟩ :=
    ne_of_isDigit (isDigit_toUInt8 (hdigits c List.mem_cons_self)).1
  have hminus : (some c.toUInt8 == some '-'.toUInt8) = false :=
    beq_eq_false_iff_ne.2 (mt Option.some.inj hminus)
  have hplus : (some c.toUInt8 == some '+'.toUInt8) = false :=
    beq_eq_false_iff_ne.2 (mt Option.some.inj hplus)
  have hrange : ¬ (decide (maxTime < (number : Int)) || decide ((number : Int) < -maxTime - 1)) =
      true := by
    have hmax : 0 ≤ maxTime := by decide
    rw [Bool.or_eq_true, decide_eq_true_eq, decide_eq_true_eq]
    omega
  rw [List.map_cons, List.cons_append] at htake ⊢
  rw [List.map_cons] at hfold
  simp only [readTime, List.dropWhile_cons_of_neg (Bool.eq_false_iff.1 hblank), List.head?_cons,
    hminus, hplus, Bool.or_false, Bool.false_eq_true, if_false, htake, hfold, List.isEmpty_cons,
    Bool.false_or]
  exact if_neg hrange

theorem readTime_minus_digits (hdigits : ∀ c ∈ digits, c.isDigit = true) (hsome : digits ≠ [])
    (hlow : -maxTime - 1 ≤ -(Nat.ofDigitChars 10 digits 0 : Int)) (rest : List UInt8) :
    readTime (45 :: (digits.map Char.toUInt8 ++ 32 :: rest)) =
      .ok (-Nat.ofDigitChars 10 digits 0) := by
  have hempty : (digits.map Char.toUInt8).isEmpty = false :=
    List.isEmpty_eq_false_iff.2 (mt List.map_eq_nil_iff.1 hsome)
  have hblank (text : List UInt8) : (45 :: text).dropWhile isBlank = 45 :: text := rfl
  have hminus : (some (45 : UInt8) == some '-'.toUInt8) = true := rfl
  simp only [readTime, hblank, List.head?_cons, hminus, Bool.true_or, if_true,
    List.drop_succ_cons, List.drop_zero, takeWhile_isDigit hdigits, foldl_digits hdigits, hempty,
    Bool.false_or]
  refine if_neg ?_
  have hmax : 0 ≤ maxTime := by decide
  rw [Bool.or_eq_true, decide_eq_true_eq, decide_eq_true_eq]
  omega

/-- A time reads as what was written. -/
theorem readTime_timeText (hlow : -maxTime - 1 ≤ time) (hhigh : time ≤ maxTime) :
    readTime (timeText time) = .ok time := by
  rw [timeText_eq]
  cases time with
  | ofNat n =>
      rw [show bytesOf (toString (Int.ofNat n)) = _ from bytesOf_toString n,
        readTime_digits isDigit_of_mem_toDigits Nat.toDigits_ne_nil,
        Nat.ofDigitChars_ten_toDigits]
      · rfl
      · rw [Nat.ofDigitChars_ten_toDigits]
        exact hhigh
  | negSucc n =>
      rw [bytesOf_toString_negSucc, bytesOf_toString, List.cons_append,
        readTime_minus_digits isDigit_of_mem_toDigits Nat.toDigits_ne_nil,
        Nat.ofDigitChars_ten_toDigits]
      · rfl
      · rw [Nat.ofDigitChars_ten_toDigits]
        exact hlow

end times

section signatures

variable {front address rest : List UInt8} {time : Int} {byte : UInt8}

theorem lastPlace?_append (h : byte ∉ rest) :
    lastPlace? byte (front ++ byte :: rest) = some front.length := by
  have hnone : rest.reverse.findIdx? (· == byte) = none := by
    rw [List.findIdx?_eq_none_iff]
    exact fun other hother => beq_eq_false_iff_ne.2 fun heq => h (heq ▸ List.mem_reverse.1 hother)
  simp [lastPlace?, List.findIdx?_append, List.findIdx?_cons, hnone]

/-- A mark behind a name is no part of it. -/
theorem trim_append_mark (name : List UInt8) (h : isMark byte = true) :
    trim (name ++ [byte]) = trim name := by
  rw [trim, trim, List.dropWhile_append]
  split
  next hempty =>
    rw [List.isEmpty_iff.1 hempty, List.dropWhile_cons_of_pos h, List.dropWhile_nil]
  next =>
    rw [List.reverse_append, List.reverse_singleton, List.singleton_append,
      List.dropWhile_cons_of_pos h]

/-- The last angle that opens is the one in front of the address. -/
theorem lastPlace?_open (front : List UInt8) (hopen : 60 ∉ address) :
    lastPlace? 60 (front ++ 60 :: (address ++ 62 :: 32 :: timeText time)) =
      some front.length := by
  refine lastPlace?_append ?_
  simp only [List.mem_append, List.mem_cons, not_or]
  exact ⟨hopen, by decide, by decide, notMem_timeText (by decide)⟩

/-- The last angle that closes is the one behind the address. -/
theorem lastPlace?_close (front : List UInt8) :
    lastPlace? 62 (front ++ 62 :: 32 :: timeText time) = some front.length := by
  refine lastPlace?_append ?_
  rw [List.mem_cons, not_or]
  exact ⟨by decide, notMem_timeText (by decide)⟩

/-- A line about a person says the name in front of the last angles, the address
    between them, and the time behind them. -/
theorem ofLine_append (front : List UInt8) (hopen : 60 ∉ address)
    (hlow : -maxTime - 1 ≤ time) (hhigh : time ≤ maxTime) :
    ofLine (front ++ 60 :: (address ++ 62 :: 32 :: timeText time)) =
      .ok { name := trim front, address := trim address, time } := by
  have hstart : lastPlace? '<'.toUInt8 (front ++ 60 :: (address ++ 62 :: 32 :: timeText time)) =
      some front.length := lastPlace?_open front hopen
  have hsplit : front ++ 60 :: (address ++ 62 :: 32 :: timeText time) =
      (front ++ 60 :: address) ++ 62 :: 32 :: timeText time := by
    rw [List.append_assoc, List.cons_append]
  have hstop : lastPlace? '>'.toUInt8 (front ++ 60 :: (address ++ 62 :: 32 :: timeText time)) =
      some (front ++ 60 :: address).length := by
    rw [hsplit]
    exact lastPlace?_close _
  have hlt : ¬ (front ++ 60 :: address).length ≤ front.length := by
    rw [List.length_append, List.length_cons]
    omega
  have hname : (front ++ 60 :: (address ++ 62 :: 32 :: timeText time)).take front.length =
      front := List.take_left' rfl
  have haddress : ((front ++ 60 :: (address ++ 62 :: 32 :: timeText time)).take
      (front ++ 60 :: address).length).drop (front.length + 1) = address := by
    rw [hsplit, List.take_left' rfl, List.drop_append, List.drop_eq_nil_of_le (Nat.le_succ _),
      Nat.add_sub_cancel_left]
    rfl
  have htime : (front ++ 60 :: (address ++ 62 :: 32 :: timeText time)).drop
      ((front ++ 60 :: address).length + 2) = timeText time := by
    rw [hsplit, List.drop_append, List.drop_eq_nil_of_le (by omega), Nat.add_sub_cancel_left]
    rfl
  have hsome : (timeText time).isEmpty = false := by
    rw [timeText_eq, List.isEmpty_eq_false_iff]
    exact List.append_ne_nil_of_right_ne_nil _ (List.cons_ne_nil _ _)
  rw [ofLine, hstart, hstop]
  simp only [hlt, if_false, hname, haddress, htime, hsome, readTime_timeText hlow hhigh]
  rfl

/-- A signature that says the same when it is read as when it was written. -/
structure IsLegible (signature : Signature) : Prop where
  name_line : lineEnd ∉ signature.name
  address_line : lineEnd ∉ signature.address
  address_open : 60 ∉ signature.address
  name_trim : trim signature.name = signature.name
  address_trim : trim signature.address = signature.address
  low : -maxTime - 1 ≤ signature.time
  high : signature.time ≤ maxTime

theorem write_eq (word : String) (signature : Signature) :
    signature.write word = bytesOf (word ++ " ") ++ ((signature.name ++ [32]) ++ 60 ::
      (signature.address ++ 62 :: 32 :: timeText signature.time)) ++ [lineEnd] := by
  have hline : bytesOf ("> " ++ toString signature.time ++ " +0000\n") =
      62 :: 32 :: timeText signature.time ++ [lineEnd] := by
    rw [timeText, bytesOf_append, bytesOf_append, bytesOf_append, Storage.bytesOf_eq "> ",
      Storage.bytesOf_eq " +0000\n", Storage.bytesOf_eq " +0000", List.cons_append,
      List.cons_append, List.append_assoc, List.append_assoc]
    rfl
  have hopen : bytesOf " <" = [32, 60] := by
    rw [Storage.bytesOf_eq]
    rfl
  rw [write, hline, hopen]
  simp

/-- A signature reads as what was written. -/
theorem read_write {signature : Signature} (h : signature.IsLegible) {word : String}
    (hword : lineEnd ∉ bytesOf (word ++ " ")) (rest : List UInt8) :
    Signature.read word (signature.write word ++ rest) = .ok (signature, rest) := by
  have hline : lineEnd ∉ bytesOf (word ++ " ") ++ ((signature.name ++ [32]) ++ 60 ::
      (signature.address ++ 62 :: 32 :: timeText signature.time)) := by
    have htime : lineEnd ∉ timeText signature.time := notMem_timeText (by decide)
    simp only [List.mem_append, List.mem_cons, List.not_mem_nil, or_false, not_or]
    exact ⟨hword, ⟨h.name_line, by decide⟩, by decide, h.address_line, by decide, by decide,
      htime⟩
  have hread := ofLine_append (signature.name ++ [32]) h.address_open h.low h.high
  rw [trim_append_mark _ (by decide), h.name_trim, h.address_trim] at hread
  rw [Signature.read, write_eq, List.append_assoc _ [lineEnd], List.singleton_append,
    splitLine?_append hline]
  simp only [behindWord?_append]
  split
  next heq => cases heq
  next heq => exact absurd (Option.some.inj heq) (by simp)
  next line _ heq =>
    rw [← Option.some.inj heq, hread]
    rfl

end signatures

end Signature

end Storage

end ReleaseNotes
