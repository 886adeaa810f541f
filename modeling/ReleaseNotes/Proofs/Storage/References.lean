import Mathlib.Data.List.TakeWhile
import ReleaseNotes.Proofs.Storage.Texts
import ReleaseNotes.Storage.Layout

/-!
# References and Logs Are Read as Written

What a reference leads to, and how it came to that, survives being kept in files.

A reference that is kept by itself is a hash or a name, and the reader tells them apart
by the word in front of a name, whose first letter is no digit of a hash. A name is
trimmed at its end and cut off at a zero byte, so a name that has either does not come
back (`Target.IsLegible`). What is left of an object without its tags is never written,
and something garbled is read from an empty file.

The log of a reference is written with the oldest change first, each in a line with the
hash that was there before. That hash is read and dropped, so what is read is the list
of the changes that was written, whatever it says about the time before the first
one.

## Main definitions

* `Target.IsLegible`, `LogEntry.IsLegible`: What says the same when it is read.
* `LogEntry.line`: The line of a change.

## Theorems

* `Target.read_write`: A target reads as what was written.
* `LogEntry.read?_line`: The line of a change reads as the change.
* `readLog_logText`: A log reads as what was written.
-/

namespace ReleaseNotes

open Storage

namespace Storage

/-- The end of a line is the only blank that is trimmed off, if there is none in front
    of it. -/
theorem trimEnd_append {text : List UInt8} {last : UInt8} (hlast : text.getLast? = some last)
    (h : Signature.isBlank last = false) : trimEnd (text ++ [lineEnd]) = text := by
  obtain ⟨front, rfl⟩ := List.getLast?_eq_some_iff.1 hlast
  have hend : Signature.isBlank lineEnd = true := rfl
  rw [trimEnd, List.reverse_append, List.reverse_singleton, List.singleton_append,
    List.dropWhile_cons_of_pos hend, List.reverse_append, List.reverse_singleton,
    List.singleton_append, List.dropWhile_cons_of_neg (Bool.eq_false_iff.1 h), List.reverse_cons,
    List.reverse_reverse]

end Storage

namespace Target

/-- A target that says the same when it is read as when it was written. -/
def IsLegible : Target → Prop
  | .hash found peeled => IsHash found ∧ peeled = none
  | .name other => 0 ∉ bytesOf other ∧
      ∃ last, (bytesOf other).getLast? = some last ∧ Signature.isBlank last = false
  | .garbled likeName => likeName = false

theorem read_hash {found : String} (h : IsHash found) :
    read (bytesOf (found ++ "\n")) = .hash found none := by
  -- No hash starts like the word in front of a name.
  have hmark : (bytesOf nameMark).isPrefixOf (bytesOf found ++ [lineEnd]) = false := by
    have hdigits := h.all (p := fun c => c.toUInt8 != 114) (by decide)
    have hlength := h.length_eq
    rw [h.bytesOf_eq, nameMark, bytesOf_eq]
    cases hchars : found.toList with
    | nil =>
        rw [hchars] at hlength
        cases hlength
    | cons c chars =>
        rw [hchars, List.all_cons, Bool.and_eq_true, bne_iff_ne] at hdigits
        exact Bool.and_eq_false_imp.2 fun heq => absurd (eq_of_beq heq).symm hdigits.1
  rw [read, bytesOf_append, bytesOf_lineEnd]
  simp only [hmark, Bool.false_eq_true, if_false, readHash?_append h]
  rfl

theorem read_name {other : String} {last : UInt8} (hzero : 0 ∉ bytesOf other)
    (hlast : (bytesOf other).getLast? = some last) (h : Signature.isBlank last = false) :
    read (bytesOf (nameMark ++ other ++ "\n")) = .name other := by
  have htrim : trimEnd (bytesOf nameMark ++ bytesOf other ++ [lineEnd]) =
      bytesOf nameMark ++ bytesOf other := by
    refine trimEnd_append ?_ h
    rw [List.getLast?_append, hlast]
    rfl
  have hmark : (bytesOf nameMark).isPrefixOf
      (bytesOf nameMark ++ bytesOf other ++ [lineEnd]) = true := by
    rw [List.append_assoc, List.isPrefixOf_iff_prefix]
    exact List.prefix_append ..
  have hlength : ¬ (bytesOf nameMark ++ bytesOf other).length ≤ (bytesOf nameMark).length := by
    have hpos : 0 < (bytesOf other).length :=
      List.length_pos_of_mem (List.mem_of_getLast? hlast)
    rw [List.length_append]
    omega
  have htake : (bytesOf other).takeWhile (· != 0) = bytesOf other := by
    rw [List.takeWhile_eq_self_iff]
    exact fun byte hbyte => bne_iff_ne.2 fun heq => hzero (heq ▸ hbyte)
  rw [read, bytesOf_append, bytesOf_append, bytesOf_lineEnd]
  simp only [hmark, if_true, htrim, hlength, if_false, List.drop_left, htake, textOf_bytesOf]

/-- A target reads as what was written. -/
theorem read_write {target : Target} (h : target.IsLegible) :
    read (bytesOf target.write) = target := by
  cases target with
  | hash found peeled =>
      obtain ⟨hfound, rfl⟩ := h
      exact read_hash hfound
  | name other =>
      obtain ⟨hzero, last, hlast, hblank⟩ := h
      exact read_name hzero hlast hblank
  | garbled likeName =>
      cases likeName with
      | true => exact absurd h.symm Bool.false_ne_true
      | false =>
          rw [write, read, nameMark, bytesOf_eq, bytesOf_eq]
          rfl

end Target

namespace LogEntry

/-- A change that says the same when it is read as when it was written. -/
structure IsLegible (entry : LogEntry) : Prop where
  hash : IsHash entry.hash
  message : lineEnd ∉ bytesOf entry.message
  low : -Signature.maxTime - 1 ≤ entry.time
  high : entry.time ≤ Signature.maxTime

/-- The part of the line of a change that says who made it, and when. -/
def maker (entry : LogEntry) : List UInt8 :=
  [32, 32] ++ 60 :: ([] ++ 62 :: 32 :: Signature.timeText entry.time)

/-- The line of a change from one hash to another, without its end. -/
def line (entry : LogEntry) (before : String) : List UInt8 :=
  bytesOf before ++ 32 :: (bytesOf entry.hash ++ (entry.maker ++ 9 :: bytesOf entry.message))

theorem write_eq (entry : LogEntry) (before : String) :
    entry.write before Survey.keeper = entry.line before ++ [lineEnd] := by
  have hbytes (text : String) : bytesOf (text ++ " ") = bytesOf text ++ [32] := by
    rw [bytesOf_append, bytesOf_eq " "]
    rfl
  have htab : bytesOf "\t" = [9] := by
    rw [bytesOf_eq]
    rfl
  rw [write, Signature.write_eq, List.dropLast_concat, hbytes, bytesOf_append, hbytes,
    bytesOf_append, bytesOf_append, bytesOf_lineEnd, htab, line, maker]
  simp [Survey.keeper]

variable {entry : LogEntry} {before : String}

/-- Only blanks, angles and a time are there. -/
theorem notMem_maker (entry : LogEntry) {byte : UInt8} (h : byte.toNat < 32) :
    byte ∉ entry.maker := by
  intro hmem
  simp only [maker, List.mem_append, List.mem_cons, List.not_mem_nil, or_false, false_or] at hmem
  rcases hmem with (rfl | rfl) | rfl | rfl | rfl | hmem
  · exact absurd h (by decide)
  · exact absurd h (by decide)
  · exact absurd h (by decide)
  · exact absurd h (by decide)
  · exact absurd h (by decide)
  · exact Signature.notMem_timeText (.inl h) hmem

/-- The line of a change reads as the change. -/
theorem read?_line (h : entry.IsLegible) (hbefore : IsHash before) :
    read? (entry.line before) = some entry := by
  have hword (rest : List UInt8) : behindWord? "" (32 :: rest) = some rest := by
    rw [behindWord?, bytesOf_eq]
    rfl
  have hmaker : (entry.maker ++ 9 :: bytesOf entry.message).takeWhile (· != '\t'.toUInt8) =
      entry.maker := by
    rw [List.takeWhile_append_of_pos, List.takeWhile_cons_of_neg (by decide), List.append_nil]
    exact fun byte hbyte => bne_iff_ne.2 fun heq =>
      entry.notMem_maker (show ('\t'.toUInt8).toNat < 32 by decide) (heq ▸ hbyte)
  have hmessage : (entry.maker ++ 9 :: bytesOf entry.message).drop (entry.maker.length + 1) =
      bytesOf entry.message := by
    rw [List.drop_append, List.drop_eq_nil_of_le (Nat.le_succ _), Nat.add_sub_cancel_left]
    rfl
  have hsignature := Signature.ofLine_append [32, 32] List.not_mem_nil h.low h.high
  rw [read?, line, readHash?_append hbefore, Option.bind_eq_bind, Option.bind_some]
  simp only [hword, Option.bind_some, readHash?_append h.hash, Option.bind_eq_bind, hmaker,
    hmessage, textOf_bytesOf]
  rw [maker, hsignature]
  rfl

theorem notMem_line (h : entry.IsLegible) (hbefore : IsHash before) :
    lineEnd ∉ entry.line before := by
  have hhash {hash : String} (hhash : IsHash hash) : lineEnd ∉ bytesOf hash := by
    intro hmem
    have hdigits := List.all_eq_true.1 hhash.all_isHexByte lineEnd hmem
    exact absurd hdigits (by decide)
  simp only [line, List.mem_append, List.mem_cons, not_or]
  exact ⟨hhash hbefore, by decide, hhash h.hash, entry.notMem_maker (by decide), by decide,
    h.message⟩

end LogEntry

namespace Storage

theorem isHash_zeroHash : IsHash Repository.zeroHash := ⟨rfl, rfl⟩

variable {entries : List LogEntry}

/-- What is read of the lines of a log and one more behind them. -/
theorem filterMap_linesOf_logText (h : ∀ entry ∈ entries, entry.IsLegible) {line : List UInt8}
    (hline : lineEnd ∉ line) :
    (linesOf (Survey.logText entries ++ line)).filterMap LogEntry.read? =
      entries.reverse ++ (LogEntry.read? line).toList := by
  induction entries generalizing line with
  | nil =>
      rw [Survey.logText, List.nil_append, linesOf, List.splitOn_eq_singleton hline]
      cases hread : LogEntry.read? line <;> simp [hread]
  | cons entry older ih =>
      obtain ⟨hentry, holder⟩ := List.forall_mem_cons.1 h
      have hbefore : IsHash ((older.head?.map (·.hash)).getD Repository.zeroHash) := by
        cases older with
        | nil => exact isHash_zeroHash
        | cons last older => exact (holder last List.mem_cons_self).hash
      have hlines := ih holder (LogEntry.notMem_line hentry hbefore)
      rw [linesOf] at hlines
      rw [Survey.logText, LogEntry.write_eq, linesOf, ← List.append_assoc,
        List.append_assoc _ [lineEnd], List.singleton_append, List.splitOn_append_cons_self,
        List.filterMap_append, hlines, List.splitOn_eq_singleton hline,
        LogEntry.read?_line hentry hbefore]
      cases hread : LogEntry.read? line <;> simp [hread]

/-- A log reads as what was written. -/
theorem readLog_logText (h : ∀ entry ∈ entries, entry.IsLegible) :
    readLog (Survey.logText entries) = entries := by
  have hlines := filterMap_linesOf_logText h List.not_mem_nil
  have hnil : LogEntry.read? [] = none := rfl
  rw [List.append_nil, hnil, Option.toList_none, List.append_nil] at hlines
  rw [readLog, hlines, List.reverse_reverse]

end Storage

end ReleaseNotes
