import Mathlib.Data.List.Basic
import Mathlib.Data.List.Nodup
import ReleaseNotes.Proofs.Home
import ReleaseNotes.Proofs.Validity

/-!
# Sections of a Document

What the document of an accepted rule set is made of.

A document is built in two steps that look at different things. The commits are
collected by the position of their category in the declaration, and the
sections are then put in the order of the numbers, those without entries left
out. Because no two categories of an accepted rule set are alike, a position is
as good as the category itself, and because no two numbers are, there is only
one list in their order. So the two steps can be said as one: go through the
categories in the order of their numbers, take the commits that have their home
there, and keep what has some.

Everything about the contents of a document follows from that list, the entries
it holds among them. They are the placed commits, put together by their homes.

A reader asks for a section by the key of its category. No two sections have the
same key, so the answer does not depend on where a section stands.

## Main definitions

* `RuleSet.members`: The commits that go under a category.
* `RuleSet.sectionOf`: The section of a category.
* `Document.entriesUnder`: The entries of the section with a key.

## Theorems

* `collect_map`: What collecting does not look at.
* `RuleSet.collect_entries`: The sections as they are collected.
* `RuleSet.sections_document`: The sections of a document.
* `RuleSet.document_eq_of_sectionOf`: They decide what the document is.
* `RuleSet.pairwise_order_sections`: Their numbers ascend strictly.
* `RuleSet.nodup_sections`: No section stands there twice.
* `RuleSet.entries_document`: The entries of a document.
* `RuleSet.perm_members_sortedCategories`: They are the placed commits.
* `RuleSet.entryCount_document`: There are as many of them.
* `Document.section?_eq_some_iff`: The section with a key.
* `RuleSet.nodup_keys`: There is only one.
* `RuleSet.section?_eq_none_iff`: There is none.
* `RuleSet.entriesUnder_document`: The entries of the section with a key.
-/

namespace ReleaseNotes

/-- Collecting commutes with any change to categories and to entries that leaves each
    entry in its place. -/
theorem collect_map {categories : List Category} (f : Category → Category) (g : Entry → Entry)
    (hplace : ∀ entry : Entry, (g entry).place (categories.map f) = entry.place categories)
    (entries : List Entry) :
    collect (categories.map f) (entries.map g) =
      (collect categories entries).map fun part => ⟨f part.category, part.entries.map g⟩ := by
  refine List.ext_getElem (by simp only [collect, List.length_mapIdx, List.length_map]) ?_
  intro i _ _
  simp only [collect, List.getElem_mapIdx, List.getElem_map, List.filter_map, Function.comp_def,
    hplace]

namespace Document

variable {document : Document}

/-- If no two sections have the same key, the one that is found is the one that
    has it. -/
theorem section?_eq_some_iff (hkeys : (document.sections.map (·.category.key)).Nodup)
    {key : String} {part : Section} :
    document.section? key = some part ↔ part ∈ document.sections ∧ part.category.key = key := by
  constructor
  · intro h
    exact ⟨List.mem_of_find?_eq_some h, by simpa using List.find?_some h⟩
  · rintro ⟨hmem, hkey⟩
    have hsome : (document.section? key).isSome := List.find?_isSome.2 ⟨part, hmem, by simp [hkey]⟩
    obtain ⟨found, hfound⟩ := Option.isSome_iff_exists.1 hsome
    have hsame : found.category.key = part.category.key := by
      simpa [hkey] using List.find?_some hfound
    rw [hfound, List.inj_on_of_nodup_map hkeys (List.mem_of_find?_eq_some hfound) hmem hsame]

/-- The entries of the section with this key. If there is none, there are no
    entries. -/
def entriesUnder (document : Document) (key : String) : List Entry :=
  ((document.section? key).map (·.entries)).getD []

end Document

namespace RuleSet

variable (rules : RuleSet) (commits : List Commit)

/-- The commits that go under a category, in the order they came in. -/
def members (category : Category) : List Commit :=
  commits.filter fun commit => rules.home? commit == some category

/-- The section of a category. -/
def sectionOf (category : Category) : Section where
  category := category
  entries := (rules.members commits category).map rules.entry

theorem mem_members {commit : Commit} {category : Category} :
    commit ∈ rules.members commits category ↔
      commit ∈ commits ∧ rules.home? commit = some category := by
  rw [members, List.mem_filter, beq_iff_eq]

theorem mem_sortedCategories {category : Category} :
    category ∈ rules.sortedCategories ↔ category ∈ rules.categories :=
  List.mem_mergeSort

theorem perm_sortedCategories : rules.sortedCategories.Perm rules.categories :=
  List.mergeSort_perm _ _

variable {rules} (hrules : rules.check = .ok ())
include hrules

/-- A commit is collected at the position of its home. -/
theorem place_entry_eq_some_iff (commit : Commit) {i : Nat} (hi : i < rules.categories.length) :
    (rules.entry commit).place rules.categories = some i ↔
      rules.home? commit = some rules.categories[i] := by
  unfold Entry.place home? categoryFor
  cases (rules.entry commit).commit.label with
  | none => simp only [Option.bind_none, reduceCtorEq]
  | some label =>
      simp only [Option.bind_some, List.findIdx?_eq_some_iff_getElem,
        List.find?_eq_some_iff_getElem]
      constructor
      · rintro ⟨_, haccepts, hbefore⟩
        exact ⟨haccepts, i, hi, rfl, fun j hj => by simpa using hbefore j hj⟩
      · rintro ⟨haccepts, j, hj, heq, hbefore⟩
        -- Two positions with the same category are one.
        have hji : j = i := (nodup_categories hrules).getElem_inj_iff.1 heq
        subst hji
        exact ⟨hi, haccepts, fun k hk => by simpa using hbefore k hk⟩

theorem collect_entries :
    collect rules.categories (rules.entries commits) =
      rules.categories.map (rules.sectionOf commits) := by
  refine List.ext_getElem (by simp only [collect, List.length_mapIdx, List.length_map]) ?_
  intro i hi _
  have hlt : i < rules.categories.length := by
    simpa only [collect, List.length_mapIdx] using hi
  simp only [collect, List.getElem_mapIdx, List.getElem_map, sectionOf, Section.mk.injEq,
    true_and, entries, members, List.filter_map]
  refine congrArg (List.map rules.entry) (List.filter_congr fun commit _ => ?_)
  rw [Function.comp_apply, Bool.eq_iff_iff, beq_iff_eq, beq_iff_eq]
  exact place_entry_eq_some_iff hrules commit hlt

/-- The numbers of the sorted categories ascend strictly. -/
theorem pairwise_sortedCategories :
    rules.sortedCategories.Pairwise fun a b => a.order < b.order := by
  have hle : rules.sortedCategories.Pairwise fun a b => a.order ≤ b.order := by
    have h : rules.sortedCategories.Pairwise fun a b => decide (a.order ≤ b.order) = true :=
      List.pairwise_mergeSort
        (fun a b c hab hbc => by simp only [decide_eq_true_eq] at *; omega)
        (fun a b => by simp only [Bool.or_eq_true, decide_eq_true_eq]; omega) _
    simpa only [decide_eq_true_eq] using h
  have hne : rules.sortedCategories.Pairwise fun a b => a.order ≠ b.order := by
    refine (rules.perm_sortedCategories.pairwise_iff fun h => h.symm).2 ?_
    exact ((check_eq_ok_iff rules).1 hrules).imp fun h => h.1
  exact hle.imp₂ (fun a b hle hne => Int.lt_iff_le_and_ne.2 ⟨hle, hne⟩) hne

theorem nodup_sortedCategories : rules.sortedCategories.Nodup :=
  rules.perm_sortedCategories.nodup_iff.2 (nodup_categories hrules)

/-- The document goes through the categories in the order of their numbers and
    keeps what has an entry. -/
theorem sections_document :
    (rules.document commits).sections =
      (rules.sortedCategories.map (rules.sectionOf commits)).filter
        fun part => !part.entries.isEmpty := by
  have hperm : (rules.document commits).sections.Perm
      ((rules.sortedCategories.map (rules.sectionOf commits)).filter
        fun part => !part.entries.isEmpty) := by
    simp only [document, Document.ofSections, Document.arrange, collect_entries commits hrules]
    refine (List.mergeSort_perm _ _).trans (List.Perm.filter _ ?_)
    exact (rules.perm_sortedCategories.map _).symm
  have hascending : ((rules.sortedCategories.map (rules.sectionOf commits)).filter
      fun part => !part.entries.isEmpty).Pairwise
        fun a b => a.category.order ≤ b.category.order := by
    refine List.Pairwise.filter _ (List.pairwise_map.2 ?_)
    exact (pairwise_sortedCategories hrules).imp fun h => Int.le_of_lt h
  -- Two lists of the same sections in order are equal, as the number tells the section.
  refine List.Perm.eq_of_pairwise ?_ (rules.document commits).ascending hascending hperm
  intro a b ha hb hab hba
  have ha := hperm.mem_iff.1 ha
  simp only [List.mem_filter, List.mem_map, mem_sortedCategories] at ha hb
  obtain ⟨⟨c, hc, rfl⟩, -⟩ := ha
  obtain ⟨⟨d, hd, rfl⟩, -⟩ := hb
  rw [eq_of_order_eq hrules hc hd (Int.le_antisymm hab hba)]

/-- Documents are equal if the categories stand in the same order by their
    numbers and have the same sections. -/
theorem document_eq_of_sectionOf {other : RuleSet} (hother : other.check = .ok ())
    {others : List Commit} (hsorted : other.sortedCategories = rules.sortedCategories)
    (hparts : ∀ category ∈ rules.categories,
      other.sectionOf others category = rules.sectionOf commits category) :
    other.document others = rules.document commits := by
  have hmap : rules.sortedCategories.map (other.sectionOf others) =
      rules.sortedCategories.map (rules.sectionOf commits) :=
    List.map_congr_left fun category hmem => hparts category (rules.mem_sortedCategories.1 hmem)
  refine Document.ext ?_
  rw [sections_document others hother, sections_document commits hrules, hsorted, hmap]

theorem mem_sections_document {part : Section} :
    part ∈ (rules.document commits).sections ↔
      ∃ category ∈ rules.categories, rules.members commits category ≠ [] ∧
        part = rules.sectionOf commits category := by
  rw [sections_document commits hrules]
  simp only [List.mem_filter, List.mem_map, mem_sortedCategories, Bool.not_eq_eq_eq_not,
    Bool.not_true, List.isEmpty_eq_false_iff]
  constructor
  · rintro ⟨⟨category, hmem, rfl⟩, hne⟩
    exact ⟨category, hmem, fun hnil => hne (by simp only [sectionOf, hnil, List.map_nil]), rfl⟩
  · rintro ⟨category, hmem, hne, rfl⟩
    exact ⟨⟨category, hmem, rfl⟩, fun hnil => hne (List.map_eq_nil_iff.1 hnil)⟩

theorem pairwise_order_sections :
    (rules.document commits).sections.Pairwise fun a b => a.category.order < b.category.order := by
  rw [sections_document commits hrules]
  refine List.Pairwise.filter _ (List.pairwise_map.2 ?_)
  exact pairwise_sortedCategories hrules

theorem nodup_sections : (rules.document commits).sections.Nodup := by
  refine (pairwise_order_sections commits hrules).imp ?_
  rintro a b hlt rfl
  omega

theorem entries_document :
    (rules.document commits).entries =
      (rules.sortedCategories.flatMap (rules.members commits)).map rules.entry := by
  rw [Document.entries, sections_document commits hrules]
  generalize rules.sortedCategories = categories
  induction categories with
  | nil => rfl
  | cons category categories ih =>
      rw [List.map_cons, List.filter_cons, List.flatMap_cons, List.map_append, ← ih]
      -- A section without entries adds none, whether it is kept or not.
      cases hmembers : rules.members commits category with
      | nil => simp [sectionOf, hmembers]
      | cons commit rest => simp [sectionOf, hmembers]

omit hrules in
/-- The members of some categories are the commits that have their home in one
    of them. -/
theorem perm_flatMap_members {categories : List Category} (hnodup : categories.Nodup) :
    (categories.flatMap (rules.members commits)).Perm
      (commits.filter fun commit => (rules.home? commit).any (decide <| · ∈ categories)) := by
  induction categories with
  | nil =>
      have hnone : commits.filter (fun commit =>
          (rules.home? commit).any (decide <| · ∈ ([] : List Category))) = [] := by
        simp only [List.filter_eq_nil_iff, List.not_mem_nil, decide_false, Option.any_false,
          Bool.false_eq_true, not_false_eq_true, implies_true]
      rw [hnone, List.flatMap_nil]
  | cons category categories ih =>
      rw [List.nodup_cons] at hnodup
      rw [List.flatMap_cons]
      refine ((ih hnodup.2).append_left _).trans ?_
      -- Of the commits with a home in the longer list, some have the first home.
      have hsplit := List.filter_append_perm (fun commit => rules.home? commit == some category)
        (commits.filter fun commit =>
          (rules.home? commit).any (decide <| · ∈ category :: categories))
      refine (List.Perm.of_eq ?_).trans hsplit
      rw [List.filter_filter, List.filter_filter, members]
      refine congrArg₂ (· ++ ·) (List.filter_congr fun commit _ => ?_)
        (List.filter_congr fun commit _ => ?_)
      · cases rules.home? commit with
        | none => rfl
        | some home => by_cases h : home = category <;> simp [h]
      · cases rules.home? commit with
        | none => rfl
        | some home => by_cases h : home = category <;> simp [h, hnodup.1]

/-- The commits of a document are the placed ones, put together by their
    homes. -/
theorem perm_members_sortedCategories :
    (rules.sortedCategories.flatMap (rules.members commits)).Perm
      (commits.filter fun commit => decide (rules.Placed commit)) := by
  refine (perm_flatMap_members commits (nodup_sortedCategories hrules)).trans
    (List.Perm.of_eq (List.filter_congr fun commit _ => ?_))
  rw [Bool.eq_iff_iff, decide_eq_true_eq, placed_iff, Option.any_eq_true]
  constructor
  · rintro ⟨home, hhome, -⟩
    rw [hhome, Option.isSome_some]
  · intro h
    obtain ⟨home, hhome⟩ := Option.isSome_iff_exists.1 h
    refine ⟨home, hhome, ?_⟩
    rw [decide_eq_true_eq, mem_sortedCategories]
    exact mem_categories_of_home? rules commit hhome

theorem entryCount_document :
    (rules.document commits).entryCount =
      commits.countP fun commit => decide (rules.Placed commit) := by
  rw [Document.entryCount, entries_document commits hrules, List.length_map,
    (perm_members_sortedCategories commits hrules).length_eq, List.countP_eq_length_filter]

/-- No two sections have the same key. -/
theorem nodup_keys : ((rules.document commits).sections.map (·.category.key)).Nodup := by
  have hkeys : rules.sortedCategories.Pairwise fun a b => a.key ≠ b.key := by
    refine (rules.perm_sortedCategories.pairwise_iff fun h => h.symm).2 ?_
    exact ((check_eq_ok_iff rules).1 hrules).imp fun h => h.2
  rw [sections_document commits hrules]
  refine List.pairwise_map.2 (List.Pairwise.filter _ (List.pairwise_map.2 ?_))
  exact hkeys

/-- No section has a key if no commit goes under a category with that key. -/
theorem section?_eq_none_iff {key : String} :
    (rules.document commits).section? key = none ↔
      ∀ category ∈ rules.categories, category.key = key →
        rules.members commits category = [] := by
  simp only [Document.section?, List.find?_eq_none, beq_iff_eq]
  constructor
  · intro hnone category hmem hkey
    by_contra hne
    exact hnone _ ((mem_sections_document commits hrules).2 ⟨category, hmem, hne, rfl⟩) hkey
  · intro hnil part hpart hkey
    obtain ⟨category, hmem, hne, rfl⟩ := (mem_sections_document commits hrules).1 hpart
    exact hne (hnil category hmem hkey)

/-- Under the key of a category stand the entries of the commits that go under
    it. -/
theorem entriesUnder_of_mem {category : Category} (hmem : category ∈ rules.categories) :
    (rules.document commits).entriesUnder category.key =
      (rules.members commits category).map rules.entry := by
  by_cases hnil : rules.members commits category = []
  · have hnone : (rules.document commits).section? category.key = none :=
      (section?_eq_none_iff commits hrules).2 fun other hother hkey => by
        rw [eq_of_key_eq hrules hother hmem hkey, hnil]
    rw [Document.entriesUnder, hnone, hnil]
    rfl
  · have hsome : (rules.document commits).section? category.key =
        some (rules.sectionOf commits category) :=
      (Document.section?_eq_some_iff (nodup_keys commits hrules)).2
        ⟨(mem_sections_document commits hrules).2 ⟨category, hmem, hnil, rfl⟩, rfl⟩
    rw [Document.entriesUnder, hsome]
    rfl

/-- Under the key of no category there are no entries. -/
theorem entriesUnder_of_notMem {key : String}
    (hkey : ∀ category ∈ rules.categories, category.key ≠ key) :
    (rules.document commits).entriesUnder key = [] := by
  have hnone : (rules.document commits).section? key = none :=
    (section?_eq_none_iff commits hrules).2 fun category hmem heq => absurd heq (hkey category hmem)
  rw [Document.entriesUnder, hnone]
  rfl

/-- Under a key stand the entries of the commits whose home has that key, in the
    order the commits came in. -/
theorem entriesUnder_document (key : String) :
    (rules.document commits).entriesUnder key =
      (commits.filter fun commit => (rules.home? commit).any (·.key == key)).map rules.entry := by
  by_cases hkey : ∃ category ∈ rules.categories, category.key = key
  · obtain ⟨category, hmem, rfl⟩ := hkey
    rw [entriesUnder_of_mem commits hrules hmem, members]
    refine congrArg (List.map rules.entry) (List.filter_congr fun commit _ => ?_)
    cases hhome : rules.home? commit with
    | none => rfl
    | some home =>
        have hhomeMem := mem_categories_of_home? rules commit hhome
        rw [Option.any_some, Bool.eq_iff_iff, beq_iff_eq, beq_iff_eq, Option.some.injEq]
        exact ⟨congrArg _, eq_of_key_eq hrules hhomeMem hmem⟩
  · have hnone : ∀ category ∈ rules.categories, category.key ≠ key :=
      fun category hmem heq => hkey ⟨category, hmem, heq⟩
    rw [entriesUnder_of_notMem commits hrules hnone, eq_comm, List.map_eq_nil_iff,
      List.filter_eq_nil_iff]
    intro commit _
    cases hhome : rules.home? commit with
    | none => simp
    | some home => simpa using hnone home (mem_categories_of_home? rules commit hhome)

end RuleSet

end ReleaseNotes
