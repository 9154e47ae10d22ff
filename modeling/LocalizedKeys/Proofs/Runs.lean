import LocalizedKeys.Command.Run
import LocalizedKeys.Proofs.Catalogs
import LocalizedKeys.Proofs.Isolated
import LocalizedKeys.Proofs.Trees

/-!
# What a run delivers

A run delivers what it prints, the tree that it leaves behind and the way it ends; what it reports
on the side has no influence on any of these. So the steps that only report drop out of a script,
and what is left are the places where a command can go wrong and the few steps that deliver.

A command that is `Refused` its input exits with a code of its own and has delivered nothing. There
are three ways for a run to break off before that is decided (`BreaksOff`), which deliver nothing
either. In all other cases there is a report of the expansion. It `Delivers` what was asked for if
that can be written, and the exit code says whether all types were expanded (`ExitsWith`).
-/

namespace LocalizedKeys.Files

variable {t : Tree} {path : Path}

/-! ## The null character in paths -/

theorem exists_mem_slashPieces {c : Char} (hc : c ≠ '/') (cs current : List Char) :
    (∃ piece ∈ Path.slashPieces current cs, c ∈ piece) ↔ c ∈ current ∨ c ∈ cs := by
  induction cs generalizing current with
  | nil => simp [Path.slashPieces]
  | cons first rest ih =>
    rw [Path.slashPieces]
    split
    · rename_i hslash
      subst hslash
      simp only [List.mem_cons, exists_eq_or_imp, List.mem_reverse, ih [], List.not_mem_nil,
        false_or, hc]
    · rw [ih]
      simp only [List.mem_cons, or_comm, or_assoc, or_left_comm]

/-- A path has the null character in a component if the text has it. -/
theorem null_mem_components {text : String} :
    ((Path.ofText text).components.any fun name => name.contains '\x00') = true ↔
      '\x00' ∈ text.toList := by
  have hpieces : (∃ piece ∈ Path.slashPieces [] text.toList, '\x00' ∈ piece) ↔
      '\x00' ∈ text.toList :=
    (exists_mem_slashPieces (by decide) text.toList []).trans (or_iff_right List.not_mem_nil)
  rw [List.any_eq_true, ← hpieces]
  refine exists_congr fun piece => ?_
  rw [List.contains_iff_mem, Path.ofText, Path.ofChars, List.mem_filter, and_assoc]
  -- no piece with the null character is dropped
  refine and_congr_right fun _ => and_iff_right_of_imp fun hmem => ?_
  have hempty : piece ≠ [] := List.ne_nil_of_mem hmem
  have hdot : piece ≠ ['.'] := by
    rintro rfl
    simp at hmem
  simp [hempty, hdot]

end LocalizedKeys.Files

namespace LocalizedKeys.Command

open Files Expansion Swift Format LocalizedKeys.Language

/-! ## Steps -/

/-- What a run delivers: the standard output, the tree and its ending. -/
def Run.delivery (r : Run) : String × Tree × Ending := (r.output, r.tree, r.ending)

/-- Steps that only report. -/
def Quiet (steps : List Step) : Prop := ∀ step ∈ steps, ∃ text, step = .report text

variable {output reported : String} {t t' : Tree} {ending : Ending} {quiet rest : List Step}

/-- What was reported before makes no difference. -/
theorem delivery_reported (reported' : String) (steps : List Step) :
    (performSteps output reported t ending steps).delivery
      = (performSteps output reported' t ending steps).delivery := by
  -- a step looks at the tree only
  induction steps generalizing output reported reported' t with
  | nil => rfl
  | cons step steps ih =>
    cases step with
    | print text => exact ih _
    | report text => exact ih _
    | makeDirectories path =>
      rw [performSteps, performSteps]
      cases t.makeDirectories path with
      | error e => rfl
      | ok t => exact ih _
    | writeFile path text =>
      rw [performSteps, performSteps]
      cases t.writeFile path (Text.encodeUtf8 text) with
      | error e => rfl
      | ok t => exact ih _

/-- Steps that only report drop out. -/
theorem Quiet.delivery (h : Quiet quiet) :
    (performSteps output reported t ending (quiet ++ rest)).delivery
      = (performSteps output reported t ending rest).delivery := by
  induction quiet generalizing reported with
  | nil => rfl
  | cons step quiet ih =>
    obtain ⟨text, rfl⟩ := h step List.mem_cons_self
    rw [List.cons_append, performSteps,
      ih fun other hother => h other (List.mem_cons_of_mem _ hother)]
    exact delivery_reported _ _

theorem Quiet.delivery_after (h : Quiet quiet) (s : Script) (t : Tree) :
    ((s.after quiet).perform t).delivery = (s.perform t).delivery := h.delivery

theorem quiet_logSteps (i : Invocation) (log : List LogLine) : Quiet (i.logSteps log) := by
  intro step hstep
  obtain ⟨line, -, rfl⟩ := List.mem_map.1 hstep
  exact ⟨_, rfl⟩

theorem quiet_expansionLogSteps (i : Invocation) (options : Options) (source : List Char) :
    Quiet (i.expansionLogSteps options source) := by
  unfold Invocation.expansionLogSteps
  split
  · exact quiet_logSteps i _
  · simp [Quiet]

/-- Texts are printed one after the other. -/
theorem delivery_prints (texts : List String) :
    (performSteps output reported t ending (texts.map .print)).delivery
      = (output ++ String.join texts, t, ending) := by
  induction texts generalizing output with
  | nil => simp [performSteps, Run.delivery]
  | cons text texts ih =>
    rw [List.map_cons, performSteps, ih, String.join_cons, String.append_assoc]

/-- The steps that write files, each with its line of the log. -/
def writeSteps (i : Invocation) (files : List (Path × String)) : List Step :=
  files.flatMap fun (path, text) => .writeFile path text :: i.logSteps [fileWritten path]

/-- Files that can be written are written. -/
theorem delivery_writeSteps {i : Invocation} {files : List (Path × String)}
    (h : t.writeFiles files = .ok t') :
    (performSteps output reported t ending (writeSteps i files ++ rest)).delivery
      = (performSteps output reported t' ending rest).delivery := by
  induction files generalizing t with
  | nil =>
    obtain rfl := Except.ok.inj h
    rfl
  | cons file files ih =>
    obtain ⟨path, text⟩ := file
    rw [Tree.writeFiles] at h
    rw [writeSteps, List.flatMap_cons, List.append_assoc, List.cons_append, performSteps]
    cases hwrite : t.writeFile path (Text.encodeUtf8 text) with
    | error e => simp [hwrite] at h
    | ok t₁ =>
      rw [hwrite] at h
      exact (quiet_logSteps i _).delivery.trans (ih h)

variable {i : Invocation} {setting : Setting} {input : List UInt8} {source : List Char}
  {options : Options} {ds : List Declaration} {report : Report}

/-- The command has the registry of locales that it needs, a source, and options. -/
structure Starts (i : Invocation) (setting : Setting) (tree : Tree) (input : List UInt8)
    (source : List Char) (options : Options) : Prop where
  languages : i.lacksLanguages setting = false
  source : sourceText (i.readSource tree input) = .ok source
  options : i.options = .ok options

/-- A run breaks off without an exit code before it has delivered anything. -/
inductive BreaksOff (i : Invocation) (setting : Setting) (tree : Tree) (input : List UInt8) :
    Abort → Prop
  /-- The name of the source has the null character. -/
  | nullCharacter : i.lacksLanguages setting = false → i.file ≠ "-" → '\x00' ∈ i.file.toList →
      BreaksOff i setting tree input (.file ⟨.nullCharacter, .ofText i.file⟩)
  /-- An index in a default value has too many digits. -/
  | longIndex {source : List Char} {options : Options} {digits : Nat} :
      Starts i setting tree input source options →
      expandSource options {} source = .error (.indexTooLong digits) →
      BreaksOff i setting tree input (.indexTooLong digits)
  /-- There are diagnostics, and nothing was given for how to write them. -/
  | noLayout {source : List Char} {options : Options} {report : Report} :
      Starts i setting tree input source options →
      expandSource options {} source = .ok report → report.diagnostics ≠ [] → i.layout = none →
      BreaksOff i setting tree input .layoutMissing

/-- Catalogs as they are printed, each under the name of its file. -/
def shownCatalogs (built : Catalog.Built) : String :=
  String.join (built.catalogs.map fun (name, entries) =>
    "// " ++ Catalog.fileName name ++ "\n" ++ Catalog.document built.language entries ++ "\n")

/-- The paths of files, one on each line. -/
def shownPaths (files : List (Path × String)) : String :=
  String.join (files.map fun (path, _) => path.text ++ "\n")

/-- What is asked for can be delivered: what is then printed, in which directory and which files it
is written, and what becomes of the tree. -/
inductive Delivers (i : Invocation) (setting : Setting) (tree : Tree) (report : Report) :
    String → Option Path → List (Path × String) → Tree → Prop
  | printed : i.task = .expand none →
      Delivers i setting tree report (String.ofList report.expanded) none [] tree
  | saved {path : String} {tree' : Tree} : i.task = .expand (some (.text path)) →
      tree.writeFile (.ofText path) (Text.encodeUtf8 (String.ofList report.expanded)) = .ok tree' →
      Delivers i setting tree report "" none
        [(.ofText path, String.ofList report.expanded)] tree'
  | catalogsPrinted {language : Option OptionValue} {built : Catalog.Built} :
      i.task = .catalog language none →
      Catalog.build setting.registry (Invocation.sourceLanguage setting language)
        report.members = .ok built →
      Delivers i setting tree report (shownCatalogs built) none [] tree
  | catalogsSaved {language : Option OptionValue} {built : Catalog.Built} {directory : String}
      {made tree' : Tree} : i.task = .catalog language (some (.text directory)) →
      Catalog.build setting.registry (Invocation.sourceLanguage setting language)
        report.members = .ok built →
      tree.makeDirectories (.ofText directory) = .ok made →
      made.writeFiles (Catalog.files (.ofText directory) built) = .ok tree' →
      Delivers i setting tree report (shownPaths (Catalog.files (.ofText directory) built))
        (some (.ofText directory)) (Catalog.files (.ofText directory) built) tree'

/-- What is done with what comes of an expansion. -/
def expansionScript (i : Invocation) (setting : Setting) (source : List Char) :
    Except ReportError Report → Script
  | .error (.unreadable f) => i.refuseSource source f.cause
  | .error (.indexTooLong digits) => .stop (.abort (.indexTooLong digits))
  | .error (.overlap o) => .stop (.abort (.overlap o))
  | .ok report =>
    i.withDiagnostics report.diagnostics
      ((i.reportScript setting report).after (i.logSteps [reportLine i.filename report]))

theorem Starts.delivery (h : Starts i setting t input source options) :
    (i.run setting t input).delivery
      = ((expansionScript i setting source (expandSource options {} source)).perform t).delivery := by
  rw [Invocation.run, Invocation.script, h.languages, h.source]
  simp only [Bool.false_eq_true, if_false, Invocation.sourceScript, h.options]
  refine ((quiet_expansionLogSteps i options source).delivery_after _ t).trans ?_
  generalize expandSource options {} source = result
  rcases result with (_ | _ | _) | _ <;> rfl

/-- Whatever breaks a run off, nothing has been delivered by then. -/
theorem BreaksOff.delivery {reason : Abort} (h : BreaksOff i setting t input reason) :
    (i.run setting t input).delivery = ("", t, .abort reason) := by
  cases h with
  | nullCharacter hlanguages hinput hnull =>
    have hread : i.readSource t input = .error ⟨.nullCharacter, .ofText i.file⟩ := by
      rw [Invocation.readSource, if_neg hinput, Tree.readFile, Tree.locate,
        if_pos (null_mem_components.2 hnull)]
    rw [Invocation.run, Invocation.script, hlanguages, hread]
    rfl
  | longIndex hstarts hlong =>
    rw [hstarts.delivery, hlong]
    rfl
  | noLayout hstarts hreport hsome hnone =>
    rw [hstarts.delivery, hreport, expansionScript, Invocation.withDiagnostics,
      if_neg (by simpa using hsome), hnone]
    rfl

/-- Catalogs go to files of different names. -/
theorem receives_files {ms : List Member} {built : Catalog.Built} {directory : Path} {made : Tree}
    (hholds : Catalog.Holds ms built.catalogs) (hmake : t.makeDirectories directory = .ok made)
    (h : made.writeFiles (Catalog.files directory built) = .ok t') :
    t.Receives t' (some directory) (Catalog.files directory built) := by
  have hfiles : Catalog.files directory built
      = (built.catalogs.map fun (name, entries) => ((Catalog.fileName name).toList,
          Catalog.document built.language entries ++ "\n")).map
        fun file => (directory.child file.1, file.2) := by
    rw [List.map_map]
    rfl
  rw [hfiles] at h ⊢
  refine Tree.receives_directory (List.pairwise_map.2 hholds.fileNames_pairwise) ?_ hmake h
  intro file hfile
  obtain ⟨⟨name, entries⟩, -, rfl⟩ := List.mem_map.1 hfile
  exact Catalog.fileName_ne_dots name

/-- The catalogs are what is printed. -/
theorem catalogPrintSteps_eq (built : Catalog.Built) :
    (performSteps output reported t ending (Invocation.catalogPrintSteps built)).delivery
      = (output ++ shownCatalogs built, t, ending) := by
  unfold Invocation.catalogPrintSteps shownCatalogs
  induction built.catalogs generalizing output with
  | nil => simp [performSteps, Run.delivery]
  | cons catalog catalogs ih =>
    simp only [List.flatMap_cons, List.cons_append, List.nil_append, performSteps]
    rw [ih, List.map_cons, String.join_cons]
    simp only [String.append_assoc]

/-- What can be delivered is delivered. -/
theorem Delivers.delivery {stdout : String} {directory : Option Path}
    {files : List (Path × String)} (h : Delivers i setting t report stdout directory files t') :
    ((i.reportScript setting report).perform t).delivery
        = (stdout, t', .exit (Invocation.exitCode report)) ∧
      t.Receives t' directory files := by
  cases h with
  | printed htask =>
    rw [Invocation.reportScript, htask]
    exact ⟨by simp [Invocation.expandScript, Script.perform, performSteps, Run.delivery], .refl _⟩
  | saved htask hwrite =>
    rw [Invocation.reportScript, htask]
    refine ⟨?_, Tree.receives_writeFile hwrite⟩
    simp only [Invocation.expandScript, Script.perform, performSteps, hwrite]
    rfl
  | catalogsPrinted htask hbuild =>
    rw [Invocation.reportScript, htask]
    refine ⟨?_, .refl _⟩
    simp only [Invocation.catalogScript, hbuild, Script.perform]
    rw [(quiet_logSteps i _).delivery, catalogPrintSteps_eq, String.empty_append]
  | @catalogsSaved _ built directory _ _ htask hbuild hmake hwrite =>
    rw [Invocation.reportScript, htask]
    refine ⟨?_, receives_files (Catalog.holds_of_build hbuild) hmake hwrite⟩
    simp only [Invocation.catalogScript, hbuild, Script.perform, Invocation.catalogFileSteps]
    rw [(quiet_logSteps i _).delivery, List.cons_append, performSteps, hmake]
    refine (delivery_writeSteps hwrite).trans ?_
    have hprints := @delivery_prints "" "" t' (.exit (Invocation.exitCode report))
      ((Catalog.files (.ofText directory) built).map fun (path, _) => path.text ++ "\n")
    rw [List.map_map, String.empty_append] at hprints
    exact hprints

end LocalizedKeys.Command
