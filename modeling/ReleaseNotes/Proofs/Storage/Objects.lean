import ReleaseNotes.Proofs.Attempts
import ReleaseNotes.Proofs.Storage.Texts
import ReleaseNotes.Storage.Pack

/-!
# Commits and Objects Are Read as Written

A commit survives being written down, and any object survives being put into a file.

A commit is a few lines with a word in front of each, and then the message. The reader
takes lines with parents as long as there are any, so it has to be seen that the line
with the author is not one of them, and that the line with the committer is not a
second one with an author. The words decide both. Hashes and persons have to be such
as can be read back (`CommitText.IsLegible`); the message can be anything.

An object in a file has its kind and its length in front of it. A kind has no blank and
no zero byte, and the length is written in digits, so the first zero byte is the one
that ends the front, whatever the object says.

## Main definitions

* `hashLine`: A line with a hash behind a word.
* `CommitText.IsLegible`: A commit that says the same when it is read.

## Theorems

* `readHashLines_append`: Lines with hashes are read up to where there is none.
* `CommitText.read_write`: A commit reads as what was written.
* `StoredObject.ofFile?_toFile`: The file of an object reads as the object.
-/

namespace ReleaseNotes

namespace Storage

section hashLines

variable {word : String} {rest : List UInt8}

/-- A line with a hash behind a word. -/
def hashLine (word hash : String) : List UInt8 :=
  bytesOf (word ++ " ") ++ bytesOf hash ++ [lineEnd]

theorem hashLine_eq (word hash : String) :
    bytesOf (word ++ " " ++ hash ++ "\n") = hashLine word hash := by
  rw [bytesOf_append, bytesOf_append, bytesOf_lineEnd, hashLine]

/-- A line with a hash is read off the front of a text. -/
theorem readHashLine?_append {hash : String} (h : IsHash hash) (word : String)
    (rest : List UInt8) : readHashLine? word (hashLine word hash ++ rest) = some (hash, rest) := by
  rw [readHashLine?, hashLine, List.append_assoc, List.append_assoc, behindWord?_append,
    Option.bind_eq_bind, Option.bind_some, readHash?_append h]
  simp

theorem readHashLine?_eq_none (h : behindWord? word rest = none) :
    readHashLine? word rest = none := by
  rw [readHashLine?, h]
  rfl

/-- Lines with hashes are read up to where there is none. -/
theorem readHashLines_append {hashes : List String} (h : ∀ hash ∈ hashes, IsHash hash)
    {bound : Nat} (hbound : hashes.length ≤ bound) (hrest : behindWord? word rest = none) :
    readHashLines word bound (hashes.flatMap (hashLine word) ++ rest) = (hashes, rest) := by
  induction hashes generalizing bound with
  | nil =>
      cases bound with
      | zero => rfl
      | succ bound =>
          rw [List.flatMap_nil, List.nil_append, readHashLines, readHashLine?_eq_none hrest]
  | cons hash hashes ih =>
      obtain ⟨bound, rfl⟩ : ∃ fewer, bound = fewer + 1 :=
        Nat.exists_eq_succ_of_ne_zero (Nat.ne_of_gt (Nat.zero_lt_of_lt hbound))
      obtain ⟨hhash, hhashes⟩ := List.forall_mem_cons.1 h
      rw [List.flatMap_cons, List.append_assoc, readHashLines, readHashLine?_append hhash]
      simp only [ih hhashes (Nat.le_of_succ_le_succ hbound)]

theorem length_le_length_hashLines (word : String) (hashes : List String) :
    hashes.length ≤ (hashes.flatMap (hashLine word)).length := by
  induction hashes with
  | nil => exact Nat.le_refl 0
  | cons hash hashes ih =>
      rw [List.flatMap_cons, List.length_append, hashLine, List.length_append, List.length_cons,
        List.length_singleton]
      omega

end hashLines

namespace CommitText

/-- A commit that says the same when it is read as when it was written. -/
structure IsLegible (commit : CommitText) : Prop where
  tree : IsHash commit.tree
  parents : ∀ parent ∈ commit.parents, IsHash parent
  author : commit.author.IsLegible
  committer : commit.committer.IsLegible

theorem write_eq (commit : CommitText) :
    commit.write = hashLine "tree" commit.tree ++ (commit.parents.flatMap (hashLine "parent") ++
      (commit.author.write "author" ++
        (commit.committer.write "committer" ++ lineEnd :: commit.message))) := by
  have hlines : hashLine "parent" = fun parent => bytesOf ("parent " ++ parent ++ "\n") :=
    funext fun parent => (hashLine_eq "parent" parent).symm
  rw [write, ← hashLine_eq "tree", hlines, bytesOf_lineEnd]
  simp only [List.append_assoc]
  rfl

/-- A commit reads as what was written. -/
theorem read_write {commit : CommitText} (h : commit.IsLegible) :
    read commit.write = .ok commit := by
  -- Each kind of line is told from the next one by its word.
  have hparent (rest : List UInt8) :
      behindWord? "parent" (commit.author.write "author" ++ rest) = none := by
    rw [behindWord?, Signature.write_eq, bytesOf_eq, bytesOf_eq]
    rfl
  have hauthor (rest : List UInt8) :
      behindWord? "author" (commit.committer.write "committer" ++ rest) = none := by
    rw [behindWord?, Signature.write_eq, bytesOf_eq, bytesOf_eq]
    rfl
  have hword : lineEnd ∉ bytesOf ("author" ++ " ") ∧ lineEnd ∉ bytesOf ("committer" ++ " ") := by
    rw [bytesOf_eq, bytesOf_eq]
    exact ⟨by decide, by decide⟩
  generalize hbehind : commit.committer.write "committer" ++ lineEnd :: commit.message = behind
  have hlines (text : List UInt8) :
      readHashLines "parent"
          (commit.parents.flatMap (hashLine "parent") ++
            (commit.author.write "author" ++ text)).length
          (commit.parents.flatMap (hashLine "parent") ++
            (commit.author.write "author" ++ text)) =
        (commit.parents, commit.author.write "author" ++ text) := by
    refine readHashLines_append h.parents ?_ (hparent text)
    rw [List.length_append]
    exact Nat.le_trans (length_le_length_hashLines _ _) (Nat.le_add_right ..)
  have hskip (bound : Nat) : skipSignatures "author" bound behind = .ok behind := by
    rw [← hbehind]
    cases bound with
    | zero => rfl
    | succ bound => rw [skipSignatures, hauthor]; rfl
  have hok {α : Type} (a : α) : (Except.ok a).mapError ReadFault.signature = .ok a := rfl
  rw [write_eq, hbehind, read, readHashLine?_append h.tree]
  simp only [hlines, Signature.read_write h.author hword.1]
  rw [hok, ok_bind, hskip, hok, ok_bind, ← hbehind, Signature.read_write h.committer hword.2]
  rfl

end CommitText

namespace StoredObject

theorem bytesOf_name (kind : ObjectKind) :
    asciiOf (bytesOf kind.name) = kind.name ∧
      (bytesOf kind.name).all (fun byte => byte != ' '.toUInt8 && byte != 0) = true := by
  cases kind <;> rw [ObjectKind.name, bytesOf_eq] <;> exact ⟨rfl, rfl⟩

/-- The file of an object is read as the object. -/
theorem ofFile?_toFile (object : StoredObject) :
    ofFile? object.toFile.toByteArray = some object := by
  obtain ⟨kind, content⟩ := object
  obtain ⟨hname, hplain⟩ := bytesOf_name kind
  simp only [List.all_eq_true, Bool.and_eq_true] at hplain
  -- The kind ends at the blank, and everything in front of the bytes at the first zero.
  have hhead : bytesOf (kind.name ++ " " ++ toString content.get.length) ++ 0 :: content.get =
      bytesOf kind.name ++
        ' '.toUInt8 :: (bytesOf (toString content.get.length) ++ 0 :: content.get) := by
    rw [bytesOf_append, bytesOf_append, bytesOf_eq " ", List.append_assoc, List.append_assoc]
    rfl
  have hkind : (bytesOf kind.name ++ ' '.toUInt8 :: (bytesOf (toString content.get.length) ++
      0 :: content.get)).takeWhile (· != ' '.toUInt8) = bytesOf kind.name := by
    rw [List.takeWhile_append_of_pos fun byte hbyte => (hplain byte hbyte).1,
      List.takeWhile_cons_of_neg (by decide), List.append_nil]
  have hcontent : ((bytesOf kind.name ++ ' '.toUInt8 :: (bytesOf (toString content.get.length) ++
      0 :: content.get)).dropWhile (· != 0)).drop 1 = content.get := by
    have hdigits : ∀ byte ∈ bytesOf (toString content.get.length), (byte != 0) = true := by
      intro byte hbyte
      refine bne_iff_ne.2 fun hzero => ?_
      have hdigit := Signature.isDigit_of_mem_bytesOf hbyte
      rw [hzero] at hdigit
      exact absurd hdigit (by decide)
    rw [List.dropWhile_append_of_pos fun byte hbyte => (hplain byte hbyte).2,
      List.dropWhile_cons_of_pos (by decide), List.dropWhile_append_of_pos hdigits,
      List.dropWhile_cons_of_neg (by decide)]
    rfl
  have hof : ObjectKind.ofName? kind.name = some kind := by
    cases kind <;> decide
  rw [ofFile?, toFile, inflate_deflate, Option.bind_eq_bind, Option.bind_some,
    toList_toByteArray]
  simp only [hhead, hkind, hname, hof, hcontent, Option.bind_eq_bind, Option.bind_some]
  rfl

end StoredObject

end Storage

end ReleaseNotes
