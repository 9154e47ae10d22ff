import LocalizedKeys.Files.Tree

/-!
# What writing changes in a tree

A path is followed over directories, and a file is never put where a directory is. So a write moves
no place that some path leads to: a tree `Extends` another if every path that leads somewhere in the
one leads to the same place in the other. A file that was written is therefore found again, after
other writes too, as long as these go to other places.

`Receives` says what a row of writes comes to: the files are there with their contents, nothing else
has changed, and directories were made on the way to one path at most.
-/

namespace LocalizedKeys.Files

namespace Tree

variable {t t' : Tree} {path : Path} {place : Place}

/-! ## Single changes -/

theorem lookup_filter_ne {α β : Type} [BEq α] [LawfulBEq α] {key other : α} (h : other ≠ key)
    (pairs : List (α × β)) :
    (pairs.filter fun p => p.1 != key).lookup other = pairs.lookup other := by
  induction pairs with
  | nil => rfl
  | cons pair pairs ih =>
    obtain ⟨k, value⟩ := pair
    by_cases hk : k = key
    · subst hk
      rw [List.filter_cons_of_neg (by simp), ih, List.lookup_cons, beq_eq_false_iff_ne.2 h]
    · rw [List.filter_cons_of_pos (by simpa using hk), List.lookup_cons, List.lookup_cons, ih]

theorem contents?_putFile_self (t : Tree) (place : Place) (bytes : List UInt8) :
    (t.putFile place bytes).contents? place = some bytes := by
  have hnone : (t.files.filter fun file => file.1 != place).lookup place = none := by
    rw [List.lookup_eq_none_iff]
    intro file hfile
    rw [bne_comm]
    exact (List.mem_filter.1 hfile).2
  rw [contents?, putFile, List.lookup_append, hnone, Option.none_or, List.lookup_cons_self]

theorem contents?_putFile_of_ne (t : Tree) {other : Place} (h : other ≠ place)
    (bytes : List UInt8) : (t.putFile place bytes).contents? other = t.contents? other := by
  rw [contents?, putFile, List.lookup_append, lookup_filter_ne h, List.lookup_cons,
    beq_eq_false_iff_ne.2 h]
  exact Option.or_none

/-- Where a file can be written it is put, and nothing else happens. -/
theorem writeFile_eq_ok {bytes : List UInt8} (h : t.writeFile path bytes = .ok t') :
    ∃ place, t.locate path = .ok place ∧ t.hasDirectory place = false ∧
      t' = t.putFile place bytes := by
  unfold writeFile at h
  split at h
  · simp at h
  · rename_i place hplace
    split at h
    · simp at h
    · rename_i hdirectory
      exact ⟨place, hplace, Bool.eq_false_iff.2 hdirectory, (Except.ok.inj h).symm⟩

/-- A directory is made in a place where nothing was, or was there before. -/
theorem ensureDirectory_eq_ok (h : t.ensureDirectory path = .ok t') :
    t' = t ∨ ∃ place, t.locate path = .ok place ∧ t.contents? place = none ∧
      t' = t.putDirectory place := by
  unfold ensureDirectory at h
  split at h
  · rename_i made hmade
    obtain rfl := Except.ok.inj h
    unfold makeDirectory at hmade
    split at hmade
    · simp at hmade
    · rename_i place hplace
      split at hmade
      · simp at hmade
      · rename_i hfree
        simp only [Bool.or_eq_true, not_or, Bool.not_eq_true, Option.isSome_eq_false_iff,
          Option.isNone_iff_eq_none] at hfree
        exact .inr ⟨place, hplace, hfree.2, (Except.ok.inj hmade).symm⟩
  · split at h
    · exact .inl (Except.ok.inj h).symm
    · simp at h

/-- Whoever goes on from a place has found a directory there, and no file. -/
theorem follow_cons_eq_ok {start : Place} {name : List Char} {names : List (List Char)} :
    t.follow start (name :: names) = .ok place ↔
      t.contents? start = none ∧ t.hasDirectory start = true ∧
        ((name = ['.', '.'] ∧ t.follow start.dropLast names = .ok place) ∨
          (name ≠ ['.', '.'] ∧ byteCount name ≤ 255 ∧
            t.follow (start ++ [name]) names = .ok place)) := by
  rw [follow]
  by_cases hcontents : t.contents? start = none
  · by_cases hdirectory : t.hasDirectory start = true
    · by_cases hdots : name = ['.', '.']
      · simp [hcontents, hdirectory, hdots]
      · by_cases hlength : 255 < byteCount name
        · simp [hcontents, hdirectory, hdots, hlength, Nat.not_le.2 hlength]
        · simp [hcontents, hdirectory, hdots, hlength, Nat.not_lt.1 hlength]
    · simp [hcontents, hdirectory]
  · simp [hcontents, Option.isSome_iff_ne_none]

/-! ## Trees in which paths lead to the same places -/

/-- Directories of a tree are directories of the other one as well. -/
structure Extends (t t' : Tree) : Prop where
  working : t'.working = t.working
  directories : ∀ place, t.hasDirectory place = true → t'.hasDirectory place = true
  /-- No file has come to where a directory is. -/
  free : ∀ place, t.hasDirectory place = true → t.contents? place = none →
    t'.contents? place = none

theorem Extends.refl (t : Tree) : t.Extends t := ⟨rfl, fun _ h => h, fun _ _ h => h⟩

theorem Extends.trans {t₁ : Tree} (h : t.Extends t₁) (h' : t₁.Extends t') : t.Extends t' :=
  ⟨h'.working.trans h.working,
    fun place hplace => h'.directories place (h.directories place hplace), fun place hplace hnone =>
      h'.free place (h.directories place hplace) (h.free place hplace hnone)⟩

theorem Extends.follow (h : t.Extends t') {start : Place} {names : List (List Char)}
    (hfollow : t.follow start names = .ok place) : t'.follow start names = .ok place := by
  induction names generalizing start with
  | nil => exact hfollow
  | cons name names ih =>
    obtain ⟨hnone, hdirectory, hnext⟩ := follow_cons_eq_ok.1 hfollow
    refine follow_cons_eq_ok.2 ⟨h.free start hdirectory hnone, h.directories start hdirectory, ?_⟩
    rcases hnext with ⟨hdots, hnext⟩ | ⟨hdots, hlength, hnext⟩
    · exact .inl ⟨hdots, ih hnext⟩
    · exact .inr ⟨hdots, hlength, ih hnext⟩

theorem Extends.locate (h : t.Extends t') (hlocate : t.locate path = .ok place) :
    t'.locate path = .ok place := by
  unfold Tree.locate at hlocate ⊢
  rw [h.working]
  split at hlocate
  · simp at hlocate
  · rename_i hnull
    rw [if_neg hnull]
    split at hlocate
    · simp at hlocate
    · rename_i hlength
      rw [if_neg hlength]
      exact h.follow hlocate

/-- A file that is put where no directory is changes no directories. -/
theorem extends_putFile (hplace : t.hasDirectory place = false) (bytes : List UInt8) :
    t.Extends (t.putFile place bytes) ∧ (t.putFile place bytes).Extends t := by
  have hne : ∀ other, t.hasDirectory other = true → other ≠ place := by
    rintro other hother rfl
    simp [hplace] at hother
  refine ⟨⟨rfl, fun _ h => h, fun other hother hnone => ?_⟩, rfl, fun _ h => h,
    fun other hother hnone => ?_⟩
  · rw [contents?_putFile_of_ne t (hne other hother), hnone]
  · rwa [contents?_putFile_of_ne t (hne other hother)] at hnone

theorem extends_putDirectory (t : Tree) (place : Place) : t.Extends (t.putDirectory place) := by
  refine ⟨rfl, fun other hother => ?_, fun other hother hnone => hnone⟩
  simp only [hasDirectory, putDirectory, Bool.or_eq_true, List.contains_iff_mem,
    List.mem_append] at hother ⊢
  exact hother.imp_right .inl

/-! ## Making directories -/

/-- Directories are made on the way to a path, and no file is touched. -/
theorem makeDirectoriesUpTo_spec {root : List Char} {names : List (List Char)}
    (h : t.makeDirectoriesUpTo root names = .ok t') :
    t.Extends t' ∧ t'.files = t.files ∧ ∀ place, t'.hasDirectory place = true →
      t.hasDirectory place = true ∨
        ∃ above, above <+: names.reverse ∧ t'.locate ⟨root, above⟩ = .ok place := by
  have hensure : ∀ {t t' : Tree} {above : List (List Char)},
      t.ensureDirectory ⟨root, above⟩ = .ok t' →
      t.Extends t' ∧ t'.files = t.files ∧ ∀ place, t'.hasDirectory place = true →
        t.hasDirectory place = true ∨ t'.locate ⟨root, above⟩ = .ok place := by
    intro t t' above h
    rcases ensureDirectory_eq_ok h with rfl | ⟨made, hmade, -, rfl⟩
    · exact ⟨.refl _, rfl, fun place hplace => .inl hplace⟩
    · refine ⟨extends_putDirectory t made, rfl, fun place hplace => ?_⟩
      by_cases hsame : place = made
      · exact .inr (hsame ▸ (extends_putDirectory t made).locate hmade)
      · simp only [hasDirectory, putDirectory, Bool.or_eq_true, List.contains_iff_mem,
          List.mem_append, List.mem_singleton, or_iff_left hsame] at hplace
        exact .inl (by simpa [hasDirectory] using hplace)
  induction names generalizing t t' with
  | nil =>
    obtain ⟨hextends, hfiles, hnew⟩ := hensure h
    exact ⟨hextends, hfiles, fun place hplace =>
      (hnew place hplace).imp_right fun hlocate => ⟨[], List.prefix_rfl, hlocate⟩⟩
  | cons name above ih =>
    unfold makeDirectoriesUpTo at h
    dsimp only at h
    split at h
    · rename_i hdone
      obtain rfl := Except.ok.inj h
      obtain ⟨hextends, hfiles, hnew⟩ := hensure hdone
      exact ⟨hextends, hfiles, fun place hplace =>
        (hnew place hplace).imp_right fun hlocate => ⟨_, List.prefix_rfl, hlocate⟩⟩
    · split at h
      · split at h
        · -- the directories above are made first, then the one itself
          rename_i t₁ habove
          obtain ⟨hextends₁, hfiles₁, hnew₁⟩ := ih habove
          obtain ⟨hextends, hfiles, hnew⟩ := hensure h
          refine ⟨hextends₁.trans hextends, hfiles.trans hfiles₁, fun place hplace => ?_⟩
          rcases hnew place hplace with hplace | hlocate
          · refine (hnew₁ place hplace).imp_right ?_
            rintro ⟨cs, hcs, hlocate⟩
            refine ⟨cs, hcs.trans ?_, hextends.locate hlocate⟩
            rw [List.reverse_cons]
            exact List.prefix_append _ _
          · exact .inr ⟨_, List.prefix_rfl, hlocate⟩
        · simp at h
      · simp at h

/-! ## Writing several files -/

/-- Writes files one after the other. -/
def writeFiles (t : Tree) : List (Path × String) → Except FileError Tree
  | [] => .ok t
  | (path, text) :: rest =>
    match t.writeFile path (Text.encodeUtf8 text) with
    | .error e => .error e
    | .ok t => t.writeFiles rest

/-- A tree has got files, in directories that were made for a path if need be. -/
structure Receives (t t' : Tree) (directory : Option Path) (files : List (Path × String)) :
    Prop where
  written : ∀ path text, (path, text) ∈ files → t'.readFile path = .ok (Text.encodeUtf8 text)
  /-- Only the places of the files have changed. -/
  others : ∀ place, t'.contents? place ≠ t.contents? place →
    ∃ path text, (path, text) ∈ files ∧ t'.locate path = .ok place
  kept : ∀ place, t.hasDirectory place = true → t'.hasDirectory place = true
  made : ∀ place, t'.hasDirectory place = true → t.hasDirectory place = true ∨
    ∃ d ∈ directory, ∃ above, above <+: d.components ∧ t'.locate ⟨d.root, above⟩ = .ok place

theorem Receives.refl (t : Tree) : t.Receives t none [] where
  written := by simp
  others := fun place h => (h rfl).elim
  kept := fun _ h => h
  made := fun _ h => .inl h

/-- Files that go to different places are all there in the end. -/
theorem receives_writeFiles {files : List (Path × String)}
    (hplaces : files.Pairwise fun a b =>
      ∀ place, t.locate a.1 = .ok place → t.locate b.1 ≠ .ok place)
    (h : t.writeFiles files = .ok t') :
    t.Receives t' none files ∧ t.Extends t' ∧ t'.Extends t := by
  -- what the first write has done must outlast the others, so these are known to go elsewhere
  induction files generalizing t with
  | nil =>
    obtain rfl := Except.ok.inj h
    exact ⟨.refl _, .refl _, .refl _⟩
  | cons file files ih =>
    obtain ⟨path, text⟩ := file
    obtain ⟨hfirst, hrest⟩ := List.pairwise_cons.1 hplaces
    unfold writeFiles at h
    split at h
    · simp at h
    · rename_i t₁ hwrite
      obtain ⟨place, hplace, hdirectory, rfl⟩ := writeFile_eq_ok hwrite
      obtain ⟨hto, hfrom⟩ := extends_putFile hdirectory (Text.encodeUtf8 text)
      obtain ⟨hreceives, hto', hfrom'⟩ := ih (hrest.imp fun hne p ha hb =>
        hne p (hfrom.locate ha) (hfrom.locate hb)) h
      -- the rest of the files goes elsewhere, so what was written first stays
      have hsame : t'.contents? place = some (Text.encodeUtf8 text) := by
        rw [← contents?_putFile_self t place]
        refine Classical.byContradiction fun hchanged => ?_
        obtain ⟨path', text', hmem, hlocate⟩ := hreceives.others place hchanged
        exact hfirst _ hmem place hplace (hfrom.locate (hfrom'.locate hlocate))
      have hnot : t'.hasDirectory place = false := by
        rw [Bool.eq_false_iff]
        intro hhas
        have := hfrom.directories place (hfrom'.directories place hhas)
        simp [hdirectory] at this
      have hfound : t'.locate path = .ok place := hto'.locate (hto.locate hplace)
      refine ⟨⟨fun p s hmem => ?_, fun other hchanged => ?_,
        fun p hp => hto'.directories p (hto.directories p hp),
        fun p hp => .inl (hfrom.directories p (hfrom'.directories p hp))⟩,
        hto.trans hto', hfrom'.trans hfrom⟩
      · rcases List.mem_cons.1 hmem with heq | hmem
        · obtain ⟨rfl, rfl⟩ := Prod.mk.inj heq
          rw [readFile, hfound]
          simp only [hnot, hsame, Bool.false_eq_true, if_false]
        · exact hreceives.written p s hmem
      · by_cases hother : other = place
        · exact ⟨path, text, List.mem_cons_self, hother ▸ hfound⟩
        · rw [← contents?_putFile_of_ne t hother (Text.encodeUtf8 text)] at hchanged
          obtain ⟨p, s, hmem, hlocate⟩ := hreceives.others other hchanged
          exact ⟨p, s, List.mem_cons_of_mem _ hmem, hlocate⟩

/-- A file is written where its path leads, and nothing else changes. -/
theorem receives_writeFile {text : String} (h : t.writeFile path (Text.encodeUtf8 text) = .ok t') :
    t.Receives t' none [(path, text)] :=
  (receives_writeFiles (List.pairwise_singleton _ _) (by rw [writeFiles, h]; rfl)).1

/-! ## Files in one directory -/

theorem follow_append {names : List (List Char)} {name : List Char} {start : Place}
    (hname : name ≠ ['.', '.']) (h : t.follow start (names ++ [name]) = .ok place) :
    ∃ directory, t.follow start names = .ok directory ∧ place = directory ++ [name] := by
  induction names generalizing start with
  | nil =>
    obtain ⟨-, -, ⟨hdots, -⟩ | ⟨-, -, hnext⟩⟩ := follow_cons_eq_ok.1 h
    · exact (hname hdots).elim
    · exact ⟨start, rfl, (Except.ok.inj hnext).symm⟩
  | cons first names ih =>
    obtain ⟨hnone, hdirectory, ⟨hdots, hnext⟩ | ⟨hdots, hlength, hnext⟩⟩ := follow_cons_eq_ok.1 h
    · obtain ⟨d, hd, hplace⟩ := ih hnext
      exact ⟨d, follow_cons_eq_ok.2 ⟨hnone, hdirectory, .inl ⟨hdots, hd⟩⟩, hplace⟩
    · obtain ⟨d, hd, hplace⟩ := ih hnext
      exact ⟨d, follow_cons_eq_ok.2 ⟨hnone, hdirectory, .inr ⟨hdots, hlength, hd⟩⟩, hplace⟩

/-- Files of one directory with different names have different places. -/
theorem locate_child_inj {directory : Path} {name other : List Char} (hname : name ≠ ['.', '.'])
    (hother : other ≠ ['.', '.']) (h : t.locate (directory.child name) = .ok place)
    (h' : t.locate (directory.child other) = .ok place) : name = other := by
  -- a place that is not reached by two dots ends with the name
  have hlast : ∀ {name : List Char}, name ≠ ['.', '.'] →
      t.locate (directory.child name) = .ok place → ∃ d, place = d ++ [name] := by
    intro name hname h
    unfold Tree.locate at h
    split at h
    · simp at h
    · split at h
      · simp at h
      · obtain ⟨d, -, hplace⟩ := follow_append hname h
        exact ⟨d, hplace⟩
  obtain ⟨d, rfl⟩ := hlast hname h
  obtain ⟨d', heq⟩ := hlast hother h'
  exact List.singleton_inj.1 (List.append_inj' heq rfl).2

/-- Files with different names are written to a directory that is made for them. -/
theorem receives_directory {directory : Path} {made : Tree} {files : List (List Char × String)}
    (hnames : files.Pairwise fun a b => a.1 ≠ b.1) (hdots : ∀ file ∈ files, file.1 ≠ ['.', '.'])
    (hmake : t.makeDirectories directory = .ok made)
    (h : made.writeFiles (files.map fun file => (directory.child file.1, file.2)) = .ok t') :
    t.Receives t' (some directory) (files.map fun file => (directory.child file.1, file.2)) := by
  obtain ⟨hextends, hfiles, hnew⟩ := makeDirectoriesUpTo_spec hmake
  have hplaces : (files.map fun file => (directory.child file.1, file.2)).Pairwise fun a b =>
      ∀ place, made.locate a.1 = .ok place → made.locate b.1 ≠ .ok place := by
    rw [List.pairwise_map]
    refine hnames.imp_of_mem fun ha hb hne place hlocate hlocate' => ?_
    exact hne (locate_child_inj (hdots _ ha) (hdots _ hb) hlocate hlocate')
  obtain ⟨hreceives, hto, hfrom⟩ := receives_writeFiles hplaces h
  have hcontents : ∀ place, made.contents? place = t.contents? place := by
    intro place
    rw [contents?, contents?, hfiles]
  refine ⟨hreceives.written, fun place hchanged => ?_, fun place hplace => ?_,
    fun place hplace => ?_⟩
  · rw [← hcontents] at hchanged
    exact hreceives.others place hchanged
  · exact hto.directories place (hextends.directories place hplace)
  · refine (hnew place (hfrom.directories place hplace)).imp_right ?_
    rintro ⟨above, habove, hlocate⟩
    rw [List.reverse_reverse] at habove
    exact ⟨directory, rfl, above, habove, hto.locate hlocate⟩

end Tree

end LocalizedKeys.Files
