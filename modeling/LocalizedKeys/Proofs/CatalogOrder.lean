import LocalizedKeys.Proofs.Catalogs

/-!
# Catalogs do not depend on the order of members

What is in a catalog at the end is decided by the last member that writes each key. Where all that
write a key write the same there (`Agree`), any of them decides (`Holds.mem_entries_iff`), and then
the catalogs are those of every other order of the members: tables in order are equal when the same
stands in them (`Sorted.Increasing.eq_of_mem_iff`).

The texts of the documents are equal for the same reason. Their fields stand in the order of their
names, in the objects inside as well (`tree_inOrder`), so the time at which a member came does not
show in them.
-/

namespace LocalizedKeys.Catalog

open Expansion Swift Text

/-! ## Tables in order -/

namespace Sorted

variable {α : Type} {table other : Sorted α}

/-- Tables in order that have the same in them are equal. -/
theorem Increasing.eq_of_mem_iff (h : Increasing table) (h' : Increasing other)
    (hmem : ∀ key value, (key, value) ∈ table ↔ (key, value) ∈ other) : table = other := by
  have hnodup : ∀ {t : Sorted α}, Increasing t → t.Nodup := fun ht =>
    ht.imp fun {p q} hlt (heq : p = q) => String.lt_irrefl _ (heq ▸ hlt)
  have hperm : table.Perm other :=
    (List.perm_ext_iff_of_nodup (hnodup h) (hnodup h')).2 fun ⟨key, value⟩ => hmem key value
  exact hperm.eq_of_pairwise
    (fun _ _ _ _ hab hba => absurd (String.lt_trans hab hba) (String.lt_irrefl _)) h h'

end Sorted

/-! ## Members that agree -/

/-- Members that write under one key of one catalog put the same value and the same note there. -/
def Agree (ms : List Member) : Prop :=
  ∀ m ∈ ms, ∀ other ∈ ms, (tableName? m.lookup.table).isSome = true →
    tableName? other.lookup.table = tableName? m.lookup.table →
    decodeLiteral other.lookup.key = decodeLiteral m.lookup.key → entryOf other = entryOf m

variable {ms ms' : List Member} {catalogs catalogs' : Catalogs} {name : String}
  {entries entries' : Sorted Entry}

theorem Agree.of_perm (h : Agree ms) (hperm : ms'.Perm ms) : Agree ms' :=
  fun m hm other hother => h m (hperm.mem_iff.1 hm) other (hperm.mem_iff.1 hother)

/-- What stands under a key is what any member writes there that writes there at all. -/
theorem Holds.mem_entries_iff (h : Holds ms catalogs) (hagree : Agree ms)
    (hmem : (name, entries) ∈ catalogs) (key : String) (entry : Entry) :
    (key, entry) ∈ entries ↔ ∃ m ∈ ms, Writes m name key ∧ entry = entryOf m := by
  rw [h.entries name entries hmem]
  constructor
  · rintro ⟨m, hlast, hentry⟩
    exact ⟨m, hlast.writes.1, hlast.writes.2, hentry⟩
  · rintro ⟨m, hm, hwrites, rfl⟩
    -- some member is the last to write there, and it agrees with this one
    obtain ⟨last, hlast⟩ := exists_lastWriter hm hwrites
    obtain ⟨hlastMem, htable, hkey⟩ := hlast.writes
    have hsome : (tableName? m.lookup.table).isSome = true := by rw [hwrites.1]; rfl
    have heq := hagree m hm last hlastMem hsome (htable.trans hwrites.1.symm)
      (hkey.trans hwrites.2.symm)
    exact ⟨last, hlast, heq.symm⟩

/-- Two rows of the same members leave the same under a name. -/
theorem Holds.entries_eq (h : Holds ms catalogs) (h' : Holds ms' catalogs') (hagree : Agree ms)
    (hperm : ms'.Perm ms) (hmem : (name, entries) ∈ catalogs)
    (hmem' : (name, entries') ∈ catalogs') : entries' = entries := by
  refine (h'.entries_increasing _ _ hmem').eq_of_mem_iff (h.entries_increasing _ _ hmem)
    fun key entry => ?_
  rw [h.mem_entries_iff hagree hmem, h'.mem_entries_iff (hagree.of_perm hperm) hmem']
  simp only [hperm.mem_iff]

/-- The same members leave the same catalogs. -/
theorem Holds.catalogs_eq (h : Holds ms catalogs) (h' : Holds ms' catalogs') (hagree : Agree ms)
    (hperm : ms'.Perm ms) : catalogs' = catalogs := by
  have hnames : ∀ name, (∃ entries, (name, entries) ∈ catalogs') ↔
      ∃ entries, (name, entries) ∈ catalogs := by
    intro name
    rw [h.names, h'.names]
    simp only [hperm.mem_iff]
  refine h'.increasing.eq_of_mem_iff h.increasing fun name entries =>
    ⟨fun hmem' => ?_, fun hmem => ?_⟩
  · obtain ⟨found, hmem⟩ := (hnames name).1 ⟨entries, hmem'⟩
    rwa [h.entries_eq h' hagree hperm hmem hmem']
  · obtain ⟨found, hmem'⟩ := (hnames name).2 ⟨entries, hmem⟩
    rwa [← h.entries_eq h' hagree hperm hmem hmem']

end LocalizedKeys.Catalog

namespace LocalizedKeys.Text.Json

open Catalog

/-! ## Documents in order -/

mutual

/-- The names of the fields increase, in the objects inside as well. -/
def InOrder : Json → Prop
  | .text _ => True
  | .number _ => True
  | .object fields => Sorted.Increasing fields ∧ AllInOrder fields

/-- The values of fields are in order. -/
def AllInOrder : List (String × Json) → Prop
  | [] => True
  | (_, value) :: rest => value.InOrder ∧ AllInOrder rest

end

theorem allInOrder_iff {fields : List (String × Json)} :
    AllInOrder fields ↔ ∀ field ∈ fields, field.2.InOrder := by
  induction fields with
  | nil => simp [AllInOrder]
  | cons field rest ih => rw [AllInOrder, ih, List.forall_mem_cons]

theorem inOrder_single (name : String) {value : Json} (h : value.InOrder) :
    (Json.object [(name, value)]).InOrder :=
  ⟨List.pairwise_singleton _ _, h, trivial⟩

end LocalizedKeys.Text.Json

namespace LocalizedKeys.Catalog

open Expansion Swift Text LocalizedKeys.Language

/-- That a table increases is told by its keys. -/
theorem Sorted.increasing_of_keys {α : Type} {table : Sorted α}
    (h : (table.map Prod.fst).Pairwise (· < ·)) : table.Increasing := List.pairwise_map.1 h

theorem Entry.json_inOrder (language : String) (entry : Entry) :
    (entry.json language).InOrder := by
  have hstate : ["state", "value"].Pairwise (· < ·) := by decide
  have hnames : ["comment", "extractionState", "localizations"].Pairwise (· < ·) := by decide
  have hunit : (Json.object [("state", .text "translated"), ("value", .text entry.value)]).InOrder :=
    ⟨Sorted.increasing_of_keys hstate, trivial, trivial, trivial⟩
  have hlocalizations := Json.inOrder_single language (Json.inOrder_single "stringUnit" hunit)
  unfold Entry.json
  by_cases hcomment : entry.comment.isEmpty = true
  · rw [if_pos hcomment]
    have hbehind := (List.pairwise_cons.1 hnames).2
    exact ⟨Sorted.increasing_of_keys hbehind, trivial, hlocalizations, trivial⟩
  · rw [if_neg hcomment]
    exact ⟨Sorted.increasing_of_keys hnames, trivial, trivial, hlocalizations, trivial⟩

theorem tree_inOrder (language : String) {entries : Sorted Entry} (h : entries.Increasing) :
    (tree language entries).InOrder := by
  have hnames : ["sourceLanguage", "strings", "version"].Pairwise (· < ·) := by decide
  have hstrings : (Json.object (entries.map fun p => (p.1, p.2.json language))).InOrder := by
    refine ⟨List.pairwise_map.2 h, Json.allInOrder_iff.2 fun field hfield => ?_⟩
    obtain ⟨p, -, rfl⟩ := List.mem_map.1 hfield
    exact p.2.json_inOrder language
  exact ⟨Sorted.increasing_of_keys hnames, trivial, hstrings, trivial, trivial⟩

/-- The names of the catalogs in their order, each with the text of its document. -/
def Built.documents (built : Built) : List (String × String) :=
  built.catalogs.map fun (name, entries) => (name, document built.language entries)

/-- **The order of members does not matter** if those that write under one key agree: with every
other order the names are the same in the same order, and each with the same document, whose fields
are in the order of their names throughout. -/
theorem build_documents_perm {ms ms' : List Member} (hagree : Agree ms) (hperm : ms'.Perm ms)
    (registry : Option Registry) (language : String) :
    (build registry language ms').map Built.documents
        = (build registry language ms).map Built.documents ∧
      ∀ built, build registry language ms = .ok built →
        ∀ name text, (name, text) ∈ built.documents →
          ∃ json : Json, text = json.indented 0 ∧ json.InOrder := by
  obtain ⟨hholds, -⟩ := holds_addMembers .nil ms
  obtain ⟨hholds', -⟩ := holds_addMembers .nil ms'
  have hcatalogs : (addMembers [] ms').1 = (addMembers [] ms).1 :=
    hholds.catalogs_eq hholds' hagree hperm
  constructor
  · cases registry with
    | none => rfl
    | some registry =>
      rw [build, build]
      dsimp only
      cases canonicalTag (some registry) language with
      | error e => rfl
      | ok tag => simp only [Except.map, Built.documents, hcatalogs]
  · intro built hbuilt name text hmem
    have hbuiltHolds := holds_of_build hbuilt
    obtain ⟨⟨catalog, entries⟩, hcatalog, heq⟩ := List.mem_map.1 hmem
    obtain ⟨-, rfl⟩ := Prod.mk.inj heq
    exact ⟨tree built.language entries, rfl,
      tree_inOrder _ (hbuiltHolds.entries_increasing _ _ hcatalog)⟩

/-- Members two of which write the same in different spellings. -/
def agreeingMembers : List Member :=
  [.constant "a" { key := "\"k.a\"", defaultValue := "\"1\"" },
    .constant "b" { key := "\"k\\u\x7b2E\x7da\"", defaultValue := "\"\\u\x7b31\x7d\"",
                    table := "\"Localizable\"" },
    .constant "c" { key := "\"k.a\"", defaultValue := "\"2\"", table := "\"A\"" }]

/-- The catalogs for these members. -/
def agreeingCatalogs : Built where
  language := "en"
  catalogs := [("A", [("k.a", ⟨"2", ""⟩)]), ("Localizable", [("k.a", ⟨"1", ""⟩)])]
  warnings := []

theorem build_documents_perm_agreeingMembers :
    Agree agreeingMembers ∧ agreeingMembers.reverse.Perm agreeingMembers ∧
    build (some commonLocales) "en" agreeingMembers = .ok agreeingCatalogs ∧
    (build (some commonLocales) "en" agreeingMembers.reverse).map Built.documents
      = .ok agreeingCatalogs.documents ∧
    ∀ name text, (name, text) ∈ agreeingCatalogs.documents →
      ∃ json : Json, text = json.indented 0 ∧ json.InOrder := by
  obtain ⟨hdefault, hspelled, hother, hvalue⟩ : tableName? "nil" = some "Localizable" ∧
      tableName? "\"Localizable\"" = some "Localizable" ∧ tableName? "\"A\"" = some "A" ∧
      decodeLiteral "\"\\u\x7b31\x7d\"" = decodeLiteral "\"1\"" := by decide +kernel
  have hagree : Agree agreeingMembers := by
    simp [Agree, agreeingMembers, Member.lookup, entryOf, Expansion.defaultTable, hdefault,
      hspelled, hother, hvalue]
  have hperm : agreeingMembers.reverse.Perm agreeingMembers := List.reverse_perm _
  have hlanguage : commonLocales.Accepts "en" "en" := ⟨"en", by decide +kernel, by decide⟩
  have hadded : addMembers [] agreeingMembers = (agreeingCatalogs.catalogs, []) := by
    decide +kernel
  have hbuild : build (some commonLocales) "en" agreeingMembers = .ok agreeingCatalogs := by
    rw [build_of_accepts hlanguage, hadded]
    rfl
  obtain ⟨hsame, hordered⟩ := build_documents_perm hagree hperm (some commonLocales) "en"
  rw [hbuild] at hsame
  exact ⟨hagree, hperm, hbuild, hsame, hordered _ hbuild⟩

end LocalizedKeys.Catalog
