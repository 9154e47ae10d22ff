import LocalizedKeys.Proofs.Runs

/-!
# Where catalogs are written

The name of a catalog comes from a source, escapes and all, and becomes a part of the path that the
catalog is written to. It is accepted exactly if it is one component of a path that is kept as it
stands, without the characters that separate or end names elsewhere (`tableName?_eq_some_iff`).

A component put behind the text of a directory makes the path of a file in this directory and
nothing else (`ofChars_joinedText`), and what is written there comes to lie in the place of the
directory (`locate_child`). Different catalogs have different names, so no catalog is written over
another one.
-/

namespace LocalizedKeys.Files

namespace Path

/-! ## Pieces between slashes -/

theorem slashPieces_append (directory : List Char) (current file : List Char) :
    slashPieces current (directory ++ '/' :: file)
      = slashPieces current directory ++ slashPieces [] file := by
  induction directory generalizing current with
  | nil => rfl
  | cons c directory ih =>
    rw [List.cons_append, slashPieces, slashPieces]
    by_cases hc : c = '/'
    · rw [if_pos hc, if_pos hc, ih, List.cons_append]
    · rw [if_neg hc, if_neg hc, ih]

theorem slashPieces_of_not_mem {name : List Char} (h : '/' ∉ name) (current : List Char) :
    slashPieces current name = [current.reverse ++ name] := by
  induction name generalizing current with
  | nil => rw [slashPieces, List.append_nil]
  | cons c name ih =>
    have hc : c ≠ '/' := (List.ne_of_not_mem_cons h).symm
    rw [slashPieces, if_neg hc, ih (List.not_mem_of_not_mem_cons h), List.reverse_cons,
      List.append_assoc, List.singleton_append]

theorem slash_notMem_slashPieces {current : List Char} (h : '/' ∉ current) (cs : List Char) :
    ∀ piece ∈ slashPieces current cs, '/' ∉ piece := by
  induction cs generalizing current with
  | nil =>
    intro piece hpiece hmem
    rw [slashPieces, List.mem_singleton] at hpiece
    rw [hpiece, List.mem_reverse] at hmem
    exact h hmem
  | cons c cs ih =>
    intro piece hpiece
    rw [slashPieces] at hpiece
    by_cases hc : c = '/'
    · rw [if_pos hc] at hpiece
      rcases List.mem_cons.1 hpiece with rfl | hpiece
      · rwa [List.mem_reverse]
      · exact ih List.not_mem_nil piece hpiece
    · rw [if_neg hc] at hpiece
      refine ih (fun hmem => ?_) piece hpiece
      exact (List.mem_cons.1 hmem).elim (fun heq => hc heq.symm) h

/-! ## Components -/

/-- The name stands for itself as a component of a path. -/
structure IsComponent (name : List Char) : Prop where
  ne_nil : name ≠ []
  ne_dot : name ≠ ['.']
  noSlash : '/' ∉ name

theorem IsComponent.components {name : List Char} (h : IsComponent name) :
    (slashPieces [] name).filter (fun piece => !piece.isEmpty && piece != ['.']) = [name] := by
  rw [slashPieces_of_not_mem h.noSlash, List.reverse_nil, List.nil_append,
    List.filter_cons_of_pos (by simp [h.ne_nil, h.ne_dot]), List.filter_nil]

theorem isComponent_of_mem {name : List Char} {cs : List Char}
    (h : name ∈ (ofChars cs).components) : IsComponent name := by
  obtain ⟨hpiece, hkept⟩ := List.mem_filter.1 h
  rw [Bool.and_eq_true, Bool.not_eq_true', bne_iff_ne] at hkept
  exact ⟨fun hnil => by simp [hnil] at hkept, hkept.2,
    slash_notMem_slashPieces List.not_mem_nil cs name hpiece⟩

/-- A text is the last component of the path that it spells just if it is a component. -/
theorem name_ofChars_iff {name : List Char} (hne : name ≠ []) :
    (ofChars name).name = name ↔ IsComponent name := by
  constructor
  · intro h
    rw [Path.name] at h
    cases hlast : (ofChars name).components.getLast? with
    | none =>
      rw [hlast] at h
      exact absurd h.symm hne
    | some last =>
      rw [hlast] at h
      have hmem := List.mem_of_getLast? hlast
      -- whatever the text, the components of its path are components
      rw [show last = name from h] at hmem
      exact isComponent_of_mem hmem
  · intro h
    rw [Path.name, ofChars, h.components]
    rfl

/-! ## Files in a directory -/

/-- The text of a file in a directory: there is a slash between the two, unless the directory has
one at its end or nothing is said about it. -/
def joinedText (directory file : List Char) : List Char :=
  if directory = [] ∨ directory.getLast? = some '/' then directory ++ file
  else directory ++ '/' :: file

/-- Only a text without anything but slashes gets a longer root from what comes behind it. -/
theorem rootOf_append {directory rest : List Char}
    (h : (∃ c ∈ directory, c ≠ '/') ∨ rest.head? ≠ some '/') :
    rootOf (directory ++ rest) = rootOf directory := by
  have htake : (directory ++ rest).takeWhile (· == '/') = directory.takeWhile (· == '/') := by
    -- either the slashes at the front end within the directory, or they end where it ends
    induction directory with
    | nil =>
      cases rest with
      | nil => rfl
      | cons d rest =>
        have hd : d ≠ '/' := by simpa using h
        rw [List.nil_append, List.takeWhile_cons_of_neg (by simpa using hd), List.takeWhile_nil]
    | cons c directory ih =>
      by_cases hc : c = '/'
      · have hrest : (∃ c ∈ directory, c ≠ '/') ∨ rest.head? ≠ some '/' := by
          simpa [hc] using h
        rw [List.cons_append, List.takeWhile_cons_of_pos (by simpa using hc),
          List.takeWhile_cons_of_pos (by simpa using hc), ih hrest]
      · rw [List.cons_append, List.takeWhile_cons_of_neg (by simpa using hc),
          List.takeWhile_cons_of_neg (by simpa using hc)]
  rw [rootOf, htake, rootOf]

/-- A component behind the text of a directory makes the path of a file in the directory. -/
theorem ofChars_joinedText {file : List Char} (h : IsComponent file) (directory : List Char) :
    ofChars (joinedText directory file) = (ofChars directory).child file := by
  have hhead : file.head? ≠ some '/' := fun hhead => h.noSlash (List.mem_of_mem_head? hhead)
  unfold joinedText
  split
  · rename_i hclosed
    have hpieces : (slashPieces [] (directory ++ file)).filter
          (fun piece => !piece.isEmpty && piece != ['.'])
        = (slashPieces [] directory).filter (fun piece => !piece.isEmpty && piece != ['.'])
          ++ [file] := by
      rcases hclosed with rfl | hslash
      · exact h.components
      · -- the slash at the end leaves an empty piece, which is dropped
        obtain ⟨front, rfl⟩ : ∃ front, directory = front ++ ['/'] :=
          ⟨_, (List.dropLast_append_getLast? _ hslash).symm⟩
        rw [List.append_assoc, List.singleton_append, slashPieces_append, slashPieces_append,
          List.filter_append, List.filter_append, h.components]
        simp [slashPieces]
    rw [ofChars, rootOf_append (.inr hhead), hpieces]
    rfl
  · rename_i hopen
    obtain ⟨hne, hlast⟩ := not_or.1 hopen
    have hother : ∃ c ∈ directory, c ≠ '/' := by
      refine ⟨directory.getLast hne, List.getLast_mem hne, fun heq => hlast ?_⟩
      rw [List.getLast?_eq_some_getLast hne, heq]
    rw [ofChars, rootOf_append (.inl hother), slashPieces_append, List.filter_append, h.components]
    rfl

theorem name_child (path : Path) (file : List Char) : (path.child file).name = file := by
  rw [name, child, List.getLast?_concat]
  rfl

theorem parent_child (path : Path) (file : List Char) : (path.child file).parent = path := by
  rw [parent, child, List.dropLast_concat]

theorem child_inj {path : Path} {file other : List Char} :
    path.child file = path.child other ↔ file = other := by
  constructor
  · intro h
    rw [← name_child path file, h, name_child]
  · intro h
    rw [h]

theorem text_child (path : Path) (file : List Char) :
    (path.child file).text = String.ofList path.root
      ++ "/".intercalate (path.components.map String.ofList ++ [String.ofList file]) := by
  have hne : (path.child file).components.isEmpty = false := by simp [child]
  rw [text, hne, Bool.and_false, if_neg Bool.false_ne_true, child, List.map_append,
    List.map_singleton]

/-- The text of a directory is no longer than that of a file in it. -/
theorem utf8ByteSize_text_le (path : Path) {file : List Char} (hne : file ≠ []) :
    path.text.utf8ByteSize ≤ (path.child file).text.utf8ByteSize := by
  have hpos : (String.ofList file).utf8ByteSize ≠ 0 := by
    rwa [Ne, String.utf8ByteSize_eq_zero_iff, String.ofList_eq_empty_iff]
  have hdot : ".".utf8ByteSize = 1 := rfl
  rw [text_child, text]
  by_cases hnil : path.components = []
  · rw [hnil, List.map_nil, List.nil_append, String.intercalate_singleton, String.intercalate_nil,
      String.append_empty, String.utf8ByteSize_append]
    split <;> omega
  · have hmap : path.components.map String.ofList ≠ [] := by simpa using hnil
    rw [if_neg (by simp [hnil]), String.intercalate_append_of_ne_nil hmap (List.cons_ne_nil _ _)]
    simp only [String.utf8ByteSize_append]
    omega

end Path

/-- What is written to a file of a directory comes to lie in the place of the directory. -/
theorem Tree.locate_child {t : Tree} {directory : Path} {file : List Char} {place : Place}
    (hne : file ≠ []) (hdots : file ≠ ['.', '.'])
    (h : t.locate (directory.child file) = .ok place) :
    ∃ base, t.locate directory = .ok base ∧ place = base ++ [file] := by
  unfold Tree.locate at h ⊢
  split at h
  · simp at h
  · rename_i hnull
    split at h
    · simp at h
    · rename_i hlength
      -- what keeps the directory from being followed would have kept the file from it
      have hcomponents : ¬directory.components.any (fun name => name.contains '\x00') = true := by
        intro hany
        rw [Path.child, List.any_append, hany, Bool.true_or] at hnull
        exact hnull rfl
      have hsize := directory.utf8ByteSize_text_le hne
      obtain ⟨base, hbase, hplace⟩ := follow_append hdots h
      rw [if_neg hcomponents, if_neg (by omega)]
      exact ⟨base, hbase, hplace⟩

end LocalizedKeys.Files

namespace LocalizedKeys.Catalog

open Expansion Files Swift LocalizedKeys.Language

/-! ## Names of catalogs -/

/-- A name for a file: one component of a path, without backslashes and null characters. -/
structure NamesFile (name : List Char) : Prop extends Path.IsComponent name where
  noBackslash : '\\' ∉ name
  noNull : '\x00' ∉ name

theorem isFileName_iff {name : List Char} : isFileName name = true ↔ NamesFile name := by
  rw [isFileName]
  simp only [Bool.and_eq_true, Bool.not_eq_true', List.isEmpty_eq_false_iff, beq_iff_eq,
    List.contains_eq_mem, decide_eq_false_iff_not]
  constructor
  · rintro ⟨⟨⟨hne, hname⟩, hbackslash⟩, hnull⟩
    exact ⟨(Path.name_ofChars_iff hne).1 hname, hbackslash, hnull⟩
  · intro h
    exact ⟨⟨⟨h.ne_nil, (Path.name_ofChars_iff h.ne_nil).2 h.toIsComponent⟩, h.noBackslash⟩, h.noNull⟩

theorem tableName?_eq_some_iff {table name : String} :
    tableName? table = some name ↔
      (table = "nil" ∧ name = "Localizable") ∨
        (isSimpleLiteral table = true ∧ decodeLiteral table = name ∧ NamesFile name.toList) := by
  have hnil : isSimpleLiteral "nil" = false := by decide
  rw [tableName?]
  by_cases hdefault : table = defaultTable
  · have htable : table = "nil" := hdefault
    rw [if_pos hdefault, Option.some.injEq, htable, hnil]
    simp [defaultCatalog, eq_comm]
  · have htable : table ≠ "nil" := hdefault
    rw [if_neg hdefault]
    by_cases hsimple : isSimpleLiteral table = true
    · rw [if_pos hsimple, Option.ite_none_right_eq_some, isFileName_iff, Option.some.injEq]
      simp only [htable, false_and, false_or, hsimple, true_and]
      constructor
      · rintro ⟨hnames, rfl⟩
        exact ⟨rfl, hnames⟩
      · rintro ⟨rfl, hnames⟩
        exact ⟨hnames, rfl⟩
    · rw [if_neg hsimple]
      simp [htable, hsimple]

theorem namesFile_of_tableName? {table name : String} (h : tableName? table = some name) :
    NamesFile name.toList := by
  rcases tableName?_eq_some_iff.1 h with ⟨-, rfl⟩ | ⟨-, -, hnames⟩
  · exact isFileName_iff.1 (by decide)
  · exact hnames

/-! ## Files of catalogs -/

variable {ms : List Member} {built : Built} {directory name : String}

/-- The ending keeps a name a component. -/
theorem NamesFile.isComponent_fileName (h : NamesFile name.toList) :
    Path.IsComponent (fileName name).toList := by
  rw [fileName, String.toList_append]
  refine ⟨fun hnil => ?_, fun hdot => ?_, fun hmem => ?_⟩
  · simpa using congrArg List.length hnil
  · simpa using congrArg List.length hdot
  · exact (List.mem_append.1 hmem).elim h.noSlash (by decide)

/-- The path is that of the file of a catalog, right in the directory. -/
structure FileIn (directory name : String) (path : Path) : Prop where
  names : NamesFile name.toList
  /-- It is the path of the joined text. -/
  spelled : path = .ofChars (Path.joinedText directory.toList (fileName name).toList)
  name : path.name = (fileName name).toList
  parent : path.parent = .ofText directory

theorem fileIn_child (h : NamesFile name.toList) (directory : String) :
    FileIn directory name ((Path.ofText directory).child (fileName name).toList) where
  names := h
  spelled := (Path.ofChars_joinedText h.isComponent_fileName directory.toList).symm
  name := Path.name_child _ _
  parent := Path.parent_child _ _

theorem Holds.namesFile {catalogs : Catalogs} (h : Holds ms catalogs) {entries : Sorted Entry}
    (hmem : (name, entries) ∈ catalogs) : NamesFile name.toList := by
  obtain ⟨m, -, htable⟩ := (h.names name).1 ⟨entries, hmem⟩
  exact namesFile_of_tableName? htable

/-- No catalog is written over another one. -/
theorem Holds.files_pairwise (h : Holds ms built.catalogs) (directory : Path) :
    (files directory built).Pairwise fun a b => a.1 ≠ b.1 := by
  rw [files, List.pairwise_map]
  exact h.fileNames_pairwise.imp fun hne heq => hne (Path.child_inj.1 heq)

/-- What is written lies in the place of the directory, under the names of catalogs. -/
theorem Holds.place_of_written (h : Holds ms built.catalogs) {t made t' : Tree} {directory : Path}
    (hmake : t.makeDirectories directory = .ok made)
    (hwrite : made.writeFiles (files directory built) = .ok t') {place : Place}
    (hchanged : t'.contents? place ≠ t.contents? place) :
    ∃ base, t'.locate directory = .ok base ∧
      ∃ name entries, (name, entries) ∈ built.catalogs ∧ place = base ++ [(fileName name).toList] := by
  obtain ⟨path, text, hmem, hlocate⟩ :=
    (Command.receives_files h hmake hwrite).others place hchanged
  obtain ⟨⟨name, entries⟩, hcatalog, hfile⟩ := List.mem_map.1 hmem
  obtain ⟨rfl, -⟩ := Prod.mk.inj hfile
  have hcomponent := (h.namesFile hcatalog).isComponent_fileName
  obtain ⟨base, hbase, hplace⟩ :=
    Tree.locate_child hcomponent.ne_nil (fileName_ne_dots name) hlocate
  exact ⟨base, hbase, name, entries, hcatalog, hplace⟩

/-- **Catalogs are written right into their directory**, each to a path of its own: the value of a
table is the name of one if it can stand as one component of a path. -/
theorem files_in_directory :
    (∀ table name : String, tableName? table = some name ↔
      (table = "nil" ∧ name = "Localizable") ∨
        (isSimpleLiteral table = true ∧ decodeLiteral table = name ∧ NamesFile name.toList)) ∧
    ∀ (registry : Option Registry) (language : String) (ms : List Member) (built : Built)
        (directory : String), build registry language ms = .ok built →
      List.Forall₂ (fun catalog file => FileIn directory catalog.1 file.1) built.catalogs
        (files (.ofText directory) built) ∧
      (files (.ofText directory) built).Pairwise (fun a b => a.1 ≠ b.1) ∧
      ∀ t made t' : Tree, t.makeDirectories (.ofText directory) = .ok made →
        made.writeFiles (files (.ofText directory) built) = .ok t' →
        ∀ place, t'.contents? place ≠ t.contents? place →
          ∃ base, t'.locate (.ofText directory) = .ok base ∧ ∃ name entries,
            (name, entries) ∈ built.catalogs ∧ place = base ++ [(fileName name).toList] := by
  refine ⟨fun table name => tableName?_eq_some_iff, fun registry language ms built directory h => ?_⟩
  have hholds : Holds ms built.catalogs := holds_of_build h
  refine ⟨?_, hholds.files_pairwise _, fun t made t' hmake hwrite place => ?_⟩
  · rw [files, List.forall₂_map_right_iff, List.forall₂_same]
    intro catalog hcatalog
    exact fileIn_child (hholds.namesFile hcatalog) directory
  · exact hholds.place_of_written hmake hwrite

/-- Members whose tables are two dots, a directory further up, a single dot, and none. -/
def dottedMembers : List Member :=
  [.constant "a" { key := "\"k\"", defaultValue := "\"1\"", table := "\"\\u\x7b2E\x7d.\"" },
    .constant "b" { key := "\"k\"", defaultValue := "\"2\"", table := "\"..\\u\x7b2F\x7da\"" },
    .constant "c" { key := "\"k\"", defaultValue := "\"3\"", table := "\".\"" },
    .constant "d" { key := "\"k\"", defaultValue := "\"4\"" }]

/-- The catalogs for these members. -/
def dottedCatalogs : Built where
  language := "en-US"
  catalogs := [("..", [("k", ⟨"1", ""⟩)]), ("Localizable", [("k", ⟨"4", ""⟩)])]
  warnings := [.skipped "b" "\"..\\u\x7b2F\x7da\"", .skipped "c" "\".\""]

theorem files_in_directory_dottedMembers :
    tableName? "\"\\u\x7b2E\x7d.\"" = some ".." ∧
    build (some commonLocales) "en_us" dottedMembers = .ok dottedCatalogs ∧
    List.Forall₂ (fun catalog file => FileIn "out/" catalog.1 file.1) dottedCatalogs.catalogs
      (files (.ofText "out/") dottedCatalogs) ∧
    (files (.ofText "out/") dottedCatalogs).Pairwise (fun a b => a.1 ≠ b.1) ∧
    ∃ made t', (Tree.ofFiles [] []).makeDirectories (.ofText "out/") = .ok made ∧
      made.writeFiles (files (.ofText "out/") dottedCatalogs) = .ok t' ∧
      ∃ base, t'.locate (.ofText "out/") = .ok base ∧ ∃ name entries,
        (name, entries) ∈ dottedCatalogs.catalogs ∧
          ["out".toList, "...xcstrings".toList] = base ++ [(fileName name).toList] := by
  have hlanguage : commonLocales.Accepts "en_us" "en-US" :=
    ⟨"en_US", by decide +kernel, by decide⟩
  have hadded : addMembers [] dottedMembers = (dottedCatalogs.catalogs, dottedCatalogs.warnings) := by
    decide +kernel
  have hbuild : build (some commonLocales) "en_us" dottedMembers = .ok dottedCatalogs := by
    rw [build_of_accepts hlanguage, hadded]
    rfl
  have hchecked : (((Tree.ofFiles [] []).makeDirectories (.ofText "out/")).toOption.any fun made =>
      (made.writeFiles (files (.ofText "out/") dottedCatalogs)).toOption.any fun t' =>
        (t'.contents? ["out".toList, "...xcstrings".toList]).isSome) = true := by
    decide +kernel
  obtain ⟨htables, hcatalogs⟩ := files_in_directory
  obtain ⟨hfiles, hpaths, hplaces⟩ :=
    hcatalogs (some commonLocales) "en_us" dottedMembers dottedCatalogs "out/" hbuild
  refine ⟨(htables _ _).2 (.inr ⟨by decide, by decide +kernel, isFileName_iff.1 (by decide)⟩),
    hbuild, hfiles, hpaths, ?_⟩
  cases hmake : (Tree.ofFiles [] []).makeDirectories (.ofText "out/") with
  | error e => simp [hmake, Except.toOption] at hchecked
  | ok made =>
    cases hwrite : made.writeFiles (files (.ofText "out/") dottedCatalogs) with
    | error e => simp [hmake, hwrite, Except.toOption] at hchecked
    | ok t' =>
      have hfound : (t'.contents? ["out".toList, "...xcstrings".toList]).isSome = true := by
        simpa [hmake, hwrite, Except.toOption] using hchecked
      have hbefore : (Tree.ofFiles [] []).contents? ["out".toList, "...xcstrings".toList] = none := by
        decide
      refine ⟨made, t', rfl, hwrite, hplaces _ _ _ hmake hwrite _ fun heq => ?_⟩
      rw [heq, hbefore] at hfound
      simp at hfound

end LocalizedKeys.Catalog
