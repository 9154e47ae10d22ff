import LocalizedKeys.Language.Locales
import LocalizedKeys.Proofs.JsonReader
import LocalizedKeys.Proofs.Keys
import Mathlib.Data.List.Induction

/-!
# What built catalogs hold

Members are added to catalogs one after the other, and a later one takes the place of an earlier one
under the same key. `Holds ms catalogs` says what is there after the members `ms`: a catalog for
every table that names one, and under every key the value and the note of the member that has
written there last (`LastWriter`). Adding a member keeps it so (`Holds.addMember`). Which warning is
due at a member is said by those before it alone (`Due`), and `Warned` lists them for a whole row of
members.

`build_holds` puts this together for a language that is accepted, and reads the documents of the
catalogs: values and notes are found in them along the names of fields.
-/

namespace LocalizedKeys.Catalog

open Expansion Swift Text LocalizedKeys.Language

/-! ## Tables in order -/

namespace Sorted

variable {α : Type} {key : String} {value : α} {table : Sorted α}

/-- The texts of the table increase. -/
def Increasing (table : Sorted α) : Prop := table.Pairwise fun p q => p.1 < q.1

theorem mem_put {p : String × α} (h : p ∈ put key value table) :
    p = (key, value) ∨ p ∈ table := by
  induction table with
  | nil => exact .inl (List.mem_singleton.1 h)
  | cons pair rest ih =>
    unfold put at h
    split at h
    · exact (List.mem_cons.1 h).imp_right (List.mem_cons_of_mem _)
    · split at h
      · rcases List.mem_cons.1 h with rfl | h
        · exact .inr List.mem_cons_self
        · exact (ih h).imp_right (List.mem_cons_of_mem _)
      · exact List.mem_cons.1 h

/-- Putting a value keeps the order. -/
theorem Increasing.put (h : Increasing table) : Increasing (table.put key value) := by
  induction table with
  | nil => exact List.pairwise_singleton _ _
  | cons pair rest ih =>
    obtain ⟨k, old⟩ := pair
    obtain ⟨hfirst, hrest⟩ := List.pairwise_cons.1 h
    unfold Sorted.put
    split
    · rename_i heq
      exact .cons (fun q hq => heq ▸ hfirst q hq) hrest
    · rename_i hne
      split
      · rename_i hlt
        refine .cons (fun q hq => ?_) (ih hrest)
        rcases mem_put hq with rfl | hq
        · exact hlt
        · exact hfirst q hq
      · rename_i hge
        have hlt : key < k := Std.lt_of_le_of_ne (String.not_lt.1 hge) (Ne.symm hne)
        refine .cons (fun q hq => ?_) h
        rcases List.mem_cons.1 hq with rfl | hq
        · exact hlt
        · exact String.lt_trans hlt (hfirst q hq)

/-- In a table in order no text stands twice, so looking it up finds all that is there. -/
theorem get?_eq_some_iff (h : Increasing table) :
    table.get? key = some value ↔ (key, value) ∈ table := by
  induction table with
  | nil => simp [get?]
  | cons pair rest ih =>
    obtain ⟨k, old⟩ := pair
    obtain ⟨hfirst, hrest⟩ := List.pairwise_cons.1 h
    rw [get?, List.mem_cons, Prod.mk.injEq]
    split
    · rename_i heq
      subst heq
      have hnot : (k, value) ∉ rest := fun hmem => String.lt_irrefl k (hfirst (k, value) hmem)
      simp [hnot, eq_comm]
    · rename_i hne
      rw [ih hrest, or_iff_right fun h => hne h.1.symm]

/-- What stands in a table after a value was put: that value, and the others as before. -/
theorem mem_put_iff (h : Increasing table) {key' : String} {value' : α} :
    (key', value') ∈ table.put key value ↔
      (key' = key ∧ value' = value) ∨ (key' ≠ key ∧ (key', value') ∈ table) := by
  -- in a table in order, what stands there is what is found
  rw [← get?_eq_some_iff h.put, ← get?_eq_some_iff h]
  by_cases heq : key' = key
  · subst heq
    rw [get?_put_self, Option.some.injEq]
    simp [eq_comm]
  · rw [get?_put_of_ne heq]
    simp [heq]

end Sorted

/-! ## The last member that writes -/

/-- The member is the last one that puts its text into the catalog under the key. -/
def LastWriter (ms : List Member) (catalog key : String) (m : Member) : Prop :=
  ∃ before after, ms = before ++ m :: after ∧ Writes m catalog key ∧
    ∀ later ∈ after, ¬Writes later catalog key

variable {ms : List Member} {m : Member} {catalogs : Catalogs} {catalog key : String}

theorem LastWriter.writes (h : LastWriter ms catalog key m) : m ∈ ms ∧ Writes m catalog key := by
  obtain ⟨before, after, rfl, hwrites, -⟩ := h
  exact ⟨List.mem_append_right _ List.mem_cons_self, hwrites⟩

/-- A member at the end is the last one to write, or leaves it to those before. -/
theorem lastWriter_append_iff {last : Member} :
    LastWriter (ms ++ [m]) catalog key last ↔
      (Writes m catalog key ∧ last = m) ∨
        (¬Writes m catalog key ∧ LastWriter ms catalog key last) := by
  constructor
  · rintro ⟨before, after, hsplit, hwrites, hlater⟩
    -- what comes after the last writer is nothing, or ends with `m`
    rcases List.eq_nil_or_concat after with rfl | ⟨between, x, rfl⟩
    · obtain ⟨-, heq⟩ := List.append_inj' hsplit rfl
      obtain rfl := List.singleton_inj.1 heq
      exact .inl ⟨hwrites, rfl⟩
    · rw [List.concat_eq_append, ← List.cons_append, ← List.append_assoc] at hsplit
      obtain ⟨rfl, heq⟩ := List.append_inj' hsplit rfl
      obtain rfl := List.singleton_inj.1 heq
      rw [List.concat_eq_append] at hlater
      refine .inr ⟨hlater m (List.mem_append_right _ List.mem_cons_self), before, between, rfl,
        hwrites, fun later h => hlater later (List.mem_append_left _ h)⟩
  · rintro (⟨hwrites, rfl⟩ | ⟨hnot, before, after, rfl, hwrites, hlater⟩)
    · exact ⟨ms, [], rfl, hwrites, by simp⟩
    · refine ⟨before, after ++ [m], by simp, hwrites, fun later h => ?_⟩
      rcases List.mem_append.1 h with h | h
      · exact hlater later h
      · exact List.mem_singleton.1 h ▸ hnot

/-- Where any member writes, one is the last to do so. -/
theorem exists_lastWriter (h : m ∈ ms) (hwrites : Writes m catalog key) :
    ∃ last, LastWriter ms catalog key last := by
  induction ms using List.reverseRecOn with
  | nil => simp at h
  | append_singleton ms x ih =>
    by_cases hx : Writes x catalog key
    · exact ⟨x, lastWriter_append_iff.2 (.inl ⟨hx, rfl⟩)⟩
    · rcases List.mem_append.1 h with h | h
      · obtain ⟨last, hlast⟩ := ih h
        exact ⟨last, lastWriter_append_iff.2 (.inr ⟨hx, hlast⟩)⟩
      · exact absurd (List.mem_singleton.1 h ▸ hwrites) hx

/-! ## Adding members -/

/-- The catalogs hold what the members have put into them, and nothing else. -/
structure Holds (ms : List Member) (catalogs : Catalogs) : Prop where
  /-- The catalogs are in the order of their names. -/
  increasing : catalogs.Increasing
  /-- There is a catalog for each table that names one. -/
  names : ∀ name, (∃ entries, (name, entries) ∈ catalogs) ↔
    ∃ m ∈ ms, tableName? m.lookup.table = some name
  /-- Each catalog is in the order of its keys. -/
  entries_increasing : ∀ name entries, (name, entries) ∈ catalogs → entries.Increasing
  /-- Under its key a catalog has what the last member has put there. -/
  entries : ∀ name entries, (name, entries) ∈ catalogs → ∀ key entry,
    (key, entry) ∈ entries ↔ ∃ m, LastWriter ms name key m ∧ entry = entryOf m

theorem Holds.nil : Holds [] [] where
  increasing := .nil
  names := by simp
  entries_increasing := by simp
  entries := by simp

/-- The entries that a member finds in the catalog of a name, be there one or not. -/
theorem Holds.stored (h : Holds ms catalogs) (name : String) :
    ((catalogs.get? name).getD []).Increasing ∧ ∀ key entry,
      (key, entry) ∈ (catalogs.get? name).getD [] ↔
        ∃ m, LastWriter ms name key m ∧ entry = entryOf m := by
  cases hget : catalogs.get? name with
  | some entries =>
    have hmem := (Sorted.get?_eq_some_iff h.increasing).1 hget
    exact ⟨h.entries_increasing _ _ hmem, h.entries _ _ hmem⟩
  | none =>
    refine ⟨.nil, fun key entry => iff_of_false List.not_mem_nil ?_⟩
    rintro ⟨m, hlast, -⟩
    obtain ⟨hm, htable, -⟩ := hlast.writes
    obtain ⟨entries, hmem⟩ := (h.names name).2 ⟨m, hm, htable⟩
    rw [← Sorted.get?_eq_some_iff h.increasing, hget] at hmem
    simp at hmem

/-- A catalog has the keys of the members that write there. -/
theorem Holds.keys (h : Holds ms catalogs) {name : String} {entries : Sorted Entry}
    (hmem : (name, entries) ∈ catalogs) (key : String) :
    (∃ entry, (key, entry) ∈ entries) ↔ ∃ m ∈ ms, Writes m name key := by
  simp only [h.entries name entries hmem]
  constructor
  · rintro ⟨_, m, hlast, -⟩
    exact ⟨m, hlast.writes⟩
  · rintro ⟨m, hm, hwrites⟩
    obtain ⟨last, hlast⟩ := exists_lastWriter hm hwrites
    exact ⟨_, last, hlast, rfl⟩

/-- A member changes the entry under its key in its own catalog, and nothing else. -/
theorem Holds.addMember (h : Holds ms catalogs) (m : Member) :
    Holds (ms ++ [m]) (addMember catalogs m).1 := by
  rw [Catalog.addMember]
  cases htable : tableName? m.lookup.table with
  | none =>
    -- the member is skipped, and it is no writer either
    have hnot : ∀ name key, ¬Writes m name key := by
      rintro name key ⟨hname, -⟩
      simp [htable] at hname
    refine ⟨h.increasing, fun name => ?_, h.entries_increasing,
      fun name entries hmem key entry => ?_⟩
    · rw [h.names name]
      simp [or_and_right, exists_or, htable]
    · rw [h.entries name entries hmem]
      simp only [lastWriter_append_iff, hnot, false_and, not_false_eq_true, true_and, false_or]
  | some table =>
    obtain ⟨hstored, hentries⟩ := h.stored table
    dsimp only
    refine ⟨h.increasing.put, fun name => ?_, fun name entries hmem => ?_,
      fun name entries hmem key entry => ?_⟩
    · -- the only name that may be new is that of the member's own catalog
      simp only [Sorted.mem_put_iff h.increasing, List.mem_append, List.mem_singleton,
        or_and_right, exists_or, exists_eq_left, ← h.names name, htable, Option.some.injEq]
      by_cases hname : name = table
      · simp [hname]
      · simp [hname, Ne.symm hname]
    · rcases (Sorted.mem_put_iff h.increasing).1 hmem with ⟨-, rfl⟩ | ⟨-, hmem⟩
      · exact hstored.put
      · exact h.entries_increasing _ _ hmem
    · have hwrites : ∀ key', Writes m name key' ↔
          table = name ∧ decodeLiteral m.lookup.key = key' := by
        intro key'
        rw [Writes, htable, Option.some.injEq]
      simp only [lastWriter_append_iff, hwrites]
      -- in its own catalog the member is the last writer of its key, elsewhere it writes nothing
      rcases (Sorted.mem_put_iff h.increasing).1 hmem with ⟨rfl, rfl⟩ | ⟨hne, hmem⟩
      · rw [Sorted.mem_put_iff hstored, hentries]
        by_cases hkey : key = decodeLiteral m.lookup.key
        · simp [hkey]
        · simp [hkey, Ne.symm hkey]
      · rw [h.entries name entries hmem]
        simp [Ne.symm hne]

/-! ## Warnings -/

/-- The warning that is due at a member which comes after others. -/
inductive Due (earlier : List Member) (m : Member) : Option Warning → Prop
  | skipped : tableName? m.lookup.table = none →
      Due earlier m (some (.skipped m.name m.lookup.table))
  | first {catalog key : String} : Writes m catalog key →
      (∀ other ∈ earlier, ¬Writes other catalog key) → Due earlier m none
  | same {catalog key : String} {last : Member} : Writes m catalog key →
      LastWriter earlier catalog key last → (entryOf last).value = (entryOf m).value →
      Due earlier m none
  | redefined {catalog key : String} {last : Member} : Writes m catalog key →
      LastWriter earlier catalog key last → (entryOf last).value ≠ (entryOf m).value →
      Due earlier m (some (.redefined key catalog (entryOf m).value (entryOf last).value))

theorem due_addMember (h : Holds ms catalogs) (m : Member) : Due ms m (addMember catalogs m).2 := by
  rw [addMember]
  cases htable : tableName? m.lookup.table with
  | none => exact .skipped htable
  | some table =>
    have hwrites : Writes m table (decodeLiteral m.lookup.key) := ⟨htable, rfl⟩
    obtain ⟨hstored, hentries⟩ := h.stored table
    have hold : (catalogs.get? table).bind (Sorted.get? (decodeLiteral m.lookup.key))
        = ((catalogs.get? table).getD []).get? (decodeLiteral m.lookup.key) := by
      cases catalogs.get? table <;> rfl
    dsimp only [redefinition?]
    rw [hold]
    split
    · rename_i old hget
      obtain ⟨last, hlast, rfl⟩ := (hentries _ _).1 ((Sorted.get?_eq_some_iff hstored).1 hget)
      split
      · rename_i heq
        exact .same hwrites hlast heq
      · rename_i hne
        exact .redefined hwrites hlast hne
    · rename_i hget
      refine .first hwrites fun other hother hwrites' => ?_
      obtain ⟨last, hlast⟩ := exists_lastWriter hother hwrites'
      have hmem := (hentries _ _).2 ⟨last, hlast, rfl⟩
      rw [← Sorted.get?_eq_some_iff hstored, hget] at hmem
      simp at hmem

/-- The warnings for members that come after others, in their order. -/
inductive Warned : List Member → List Member → List Warning → Prop
  | nil {earlier : List Member} : Warned earlier [] []
  | cons {earlier ms : List Member} {m : Member} {warning : Option Warning}
      {warnings : List Warning} :
      Due earlier m warning → Warned (earlier ++ [m]) ms warnings →
      Warned earlier (m :: ms) (warning.toList ++ warnings)

/-- After a run over members the catalogs hold what all of them have put there, and each was warned
about as it was due. -/
theorem holds_addMembers {earlier : List Member} (h : Holds earlier catalogs) (ms : List Member) :
    Holds (earlier ++ ms) (addMembers catalogs ms).1 ∧
      Warned earlier ms (addMembers catalogs ms).2 := by
  -- one member goes over to those before at each step
  induction ms generalizing earlier catalogs with
  | nil => exact ⟨by rwa [List.append_nil], .nil⟩
  | cons m ms ih =>
    obtain ⟨hholds, hwarned⟩ := ih (h.addMember m)
    rw [List.append_assoc, List.singleton_append] at hholds
    exact ⟨hholds, .cons (due_addMember h m) hwarned⟩

/-! ## Documents -/

theorem Sorted.get?_map {α β : Type} (f : α → β) (key : String) (table : Sorted α) :
    Sorted.get? key (table.map fun p => (p.1, f p.2)) = (table.get? key).map f := by
  induction table with
  | nil => rfl
  | cons pair rest ih =>
    rw [List.map_cons, Sorted.get?, Sorted.get?]
    split
    · rfl
    · exact ih

/-- The value of an entry is found under its language. -/
theorem Entry.json_value (language : String) (entry : Entry) :
    (entry.json language).at? ["localizations", language, "stringUnit", "value"]
      = some (.text entry.value) := by
  unfold Entry.json
  by_cases hcomment : entry.comment.isEmpty = true <;>
    simp [hcomment, Json.at?, Json.field?, Sorted.get?]

/-- The note of an entry is written if there is one. -/
theorem Entry.json_comment (language : String) (entry : Entry) :
    (entry.json language).at? ["comment"]
      = if entry.comment = "" then none else some (.text entry.comment) := by
  unfold Entry.json
  by_cases hcomment : entry.comment = "" <;>
    simp [hcomment, Json.at?, Json.field?, Sorted.get?]

/-- A catalog as it is written. -/
def tree (language : String) (entries : Sorted Entry) : Json :=
  .object
    [("sourceLanguage", .text language),
      ("strings", .object (entries.map fun (key, entry) => (key, entry.json language))),
      ("version", .text "1.0")]

theorem at?_strings {language key : String} {path : List String} (entries : Sorted Entry) :
    (tree language entries).at? ("strings" :: key :: path)
      = (entries.get? key).bind fun entry => (entry.json language).at? path := by
  have hstrings : (tree language entries).field? "strings"
      = some (.object (entries.map fun p => (p.1, p.2.json language))) := rfl
  rw [Json.at?, hstrings, Option.bind_some, Json.at?_cons, Sorted.get?_map, Option.bind_map]
  rfl

/-- A catalog and its document, in the language of the tag, have the keys of all members that write
there, and under each what the last of them has put. -/
structure Written (ms : List Member) (tag name : String) (entries : Sorted Entry) : Prop where
  keys : ∀ key, (∃ entry, (key, entry) ∈ entries) ↔ ∃ m ∈ ms, Writes m name key
  document : document tag entries = (tree tag entries).indented 0
  values : ∀ key value,
    (tree tag entries).at? ["strings", key, "localizations", tag, "stringUnit", "value"]
        = some value ↔
      ∃ m, LastWriter ms name key m ∧ value = .text (decodeLiteral m.lookup.defaultValue)
  comments : ∀ key value,
    (tree tag entries).at? ["strings", key, "comment"] = some value ↔
      ∃ m, LastWriter ms name key m ∧ decodeLiteral m.lookup.comment ≠ "" ∧
        value = .text (decodeLiteral m.lookup.comment)

theorem Holds.written (h : Holds ms catalogs) (tag : String) {name : String}
    {entries : Sorted Entry} (hmem : (name, entries) ∈ catalogs) : Written ms tag name entries := by
  have hget : ∀ key entry, entries.get? key = some entry ↔
      ∃ m, LastWriter ms name key m ∧ entry = entryOf m := fun key entry =>
    (Sorted.get?_eq_some_iff (h.entries_increasing _ _ hmem)).trans (h.entries _ _ hmem key entry)
  refine ⟨h.keys hmem, rfl, fun key value => ?_, fun key value => ?_⟩
  · rw [at?_strings, Option.bind_eq_some_iff]
    simp only [Entry.json_value, hget]
    constructor
    · rintro ⟨_, ⟨m, hlast, rfl⟩, hvalue⟩
      exact ⟨m, hlast, (Option.some.inj hvalue).symm⟩
    · rintro ⟨m, hlast, rfl⟩
      exact ⟨_, ⟨m, hlast, rfl⟩, rfl⟩
  · rw [at?_strings, Option.bind_eq_some_iff]
    simp only [Entry.json_comment, hget, Option.ite_none_left_eq_some]
    constructor
    · rintro ⟨_, ⟨m, hlast, rfl⟩, hne, hvalue⟩
      exact ⟨m, hlast, hne, (Option.some.inj hvalue).symm⟩
    · rintro ⟨m, hlast, hne, rfl⟩
      exact ⟨_, ⟨m, hlast, rfl⟩, hne, rfl⟩

/-! ## Names of files -/

theorem fileName_inj {name other : String} : fileName name = fileName other ↔ name = other := by
  rw [fileName, fileName, String.append_left_inj]

/-- With its ending the name of a file is longer than two dots. -/
theorem fileName_ne_dots (name : String) : (fileName name).toList ≠ ['.', '.'] := by
  intro hdots
  have hlength := congrArg List.length hdots
  simp [fileName] at hlength

/-- Catalogs in order have files of different names. -/
theorem Holds.fileNames_pairwise (h : Holds ms catalogs) :
    catalogs.Pairwise fun p q => (fileName p.1).toList ≠ (fileName q.1).toList := by
  refine h.increasing.imp fun hlt heq => ?_
  rw [String.toList_inj, fileName_inj] at heq
  exact String.lt_irrefl _ (heq ▸ hlt)

theorem holds_of_build {registry : Option Registry} {language : String} {ms : List Member}
    {built : Built} (h : build registry language ms = .ok built) : Holds ms built.catalogs := by
  obtain ⟨_, _, -, -, rfl⟩ := build_eq_ok_iff.1 h
  exact (holds_addMembers .nil ms).1

/-- **Built catalogs hold what the members have put into them**, each under its name, in their
documents too, and exactly the warnings are given that are due. The language may be any that the
registry accepts. -/
theorem build_holds {registry : Registry} {language tag : String}
    (hlanguage : registry.Accepts language tag) (ms : List Member) :
    ∃ built, build (some registry) language ms = .ok built ∧ built.language = tag ∧
      Holds ms built.catalogs ∧ Warned [] ms built.warnings ∧
      ∀ name entries, (name, entries) ∈ built.catalogs → Written ms tag name entries := by
  obtain ⟨hholds, hwarned⟩ := holds_addMembers .nil ms
  exact ⟨_, build_of_accepts hlanguage ms, rfl, hholds, hwarned,
    fun name entries => hholds.written tag⟩

/-- Members whose tables are one catalog in three spellings, with a key in two, and one whose table
is no catalog. -/
def respelledMembers : List Member :=
  [.constant "a" { key := "\"k.a\"", defaultValue := "\"1\"", comment := "\"note\"" },
    .constant "b" { key := "\"k\\u\x7b2E\x7da\"", defaultValue := "\"2\"",
                    table := "\"Localizable\"" },
    .function "c" { key := "\"k.a\"", defaultValue := "\"\\u\x7b32\x7d\"",
                    table := "\"Local\\u\x7b69\x7dzable\"" } [],
    .constant "d" { key := "\"k.a\"", defaultValue := "\"1\"", table := "name" },
    .constant "e" { key := "\"k.e\"", defaultValue := "\"3\"", table := "\"A\"" }]

theorem build_holds_respelledMembers :
    commonLocales.Accepts "en_us" "en-US" ∧
    ∃ built, build (some commonLocales) "en_us" respelledMembers = .ok built ∧
      built.language = "en-US" ∧
      Holds respelledMembers built.catalogs ∧ Warned [] respelledMembers built.warnings ∧
      (∀ name entries, (name, entries) ∈ built.catalogs →
        Written respelledMembers "en-US" name entries) ∧
      built.catalogs = [("A", [("k.e", ⟨"3", ""⟩)]), ("Localizable", [("k.a", ⟨"2", ""⟩)])] ∧
      built.warnings = [.redefined "k.a" "Localizable" "2" "1", .skipped "d" "name"] := by
  have hlanguage : commonLocales.Accepts "en_us" "en-US" :=
    ⟨"en_US", by decide +kernel, by decide⟩
  obtain ⟨built, hbuilt, htag, hholds, hwarned, hwritten⟩ := build_holds hlanguage respelledMembers
  have hmade : (addMembers [] respelledMembers)
      = ([("A", [("k.e", ⟨"3", ""⟩)]), ("Localizable", [("k.a", ⟨"2", ""⟩)])],
        [.redefined "k.a" "Localizable" "2" "1", .skipped "d" "name"]) := by decide +kernel
  refine ⟨hlanguage, built, hbuilt, htag, hholds, hwarned, hwritten, ?_⟩
  rw [build_of_accepts hlanguage, hmade] at hbuilt
  obtain rfl := Except.ok.inj hbuilt
  exact ⟨rfl, rfl⟩

end LocalizedKeys.Catalog
