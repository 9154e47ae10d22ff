import LocalizedKeys.Catalog.Build
import LocalizedKeys.Proofs.Bodies
import LocalizedKeys.Proofs.Outcome

/-!
# Keys

A key is put together from three texts without their quotes: the prefix, the separator and the name
of the case. The separator and the name can stand in a literal, whatever they are; of the prefix
nothing is checked. So the key is a simple literal exactly if the prefix is the body of one, or ends
in a backslash that takes the character behind it along (`keys_simple_iff`).

Where prefix and separator are well-escaped literals, replacing the escapes of the key is the same
as replacing those of its parts. Catalogs are built with the keys of the members in this form and
with no other (`hasKey_build_iff`), so these are prefix, separator and name in a row
(`key_of_parts`).
-/

namespace LocalizedKeys.Expansion

open Swift Text

/-! ## The parts of a key -/

/-- The name is the bare one, or has it between backticks. -/
def HasBareName (name bare : String) : Prop :=
  PlainName bare.toList ∧ (name = bare ∨ name.toList = backtick :: (bare.toList ++ [backtick]))

theorem exists_hasBareName {name : String} (h : IsName name.toList) :
    ∃ bare, HasBareName name bare := by
  rcases h with h | ⟨plain, h, hname⟩
  · exact ⟨name, h, .inl rfl⟩
  · exact ⟨String.ofList plain, by rwa [String.toList_ofList],
      .inr (by rw [hname, String.toList_ofList])⟩

theorem HasBareName.bareName_eq {name bare : String} (h : HasBareName name bare) :
    bareName name = bare := by
  obtain ⟨hbare, rfl | hname⟩ := h
  · have hhead : name.toList.head? ≠ some backtick := by
      obtain ⟨c, rest, hcs, hc, -⟩ := hbare
      rw [hcs]
      intro heq
      obtain rfl := Option.some.inj heq
      exact absurd hc (by decide)
    rw [bareName]
    exact if_neg fun hticks => hhead hticks.2.1
  · have hne := List.length_pos_iff.2 hbare.ne_nil
    have hticks : 2 < name.toList.length ∧ name.toList.head? = some backtick ∧
        name.toList.getLast? = some backtick := by
      rw [hname]
      refine ⟨?_, rfl, by rw [← List.cons_append, List.getLast?_concat]⟩
      simp only [List.length_cons, List.length_append, List.length_nil]
      omega
    rw [bareName, if_pos hticks, hname]
    simp

theorem isVerbatim_of_isNamePart {c : Char} (h : isNamePart c = true) : IsVerbatim c :=
  isVerbatim_of_ne (ne_of_isNamePart h (by decide)) (ne_of_isNamePart h (by decide))
    (ne_of_isNamePart h (by decide)) (ne_of_isNamePart h (by decide))

theorem HasBareName.verbatim {name bare : String} (h : HasBareName name bare) :
    ∀ c ∈ bare.toList, IsVerbatim c :=
  fun c hc => isVerbatim_of_isNamePart (h.1.all c hc)

variable {options : Options} {request : Request}

theorem verbatim_defaultSeparator (h : options.error? = none) :
    ∀ c ∈ options.defaultSeparator.toList, IsVerbatim c := by
  have hplain : options.defaultSeparator.toList.all Options.isPlain = true := by
    unfold Options.error? at h
    split at h
    · simp at h
    · split at h
      · simp at h
      · rename_i hplain
        simpa using hplain
  intro c hc
  simpa [Options.isPlain, IsVerbatim, and_assoc] using List.all_eq_true.1 hplain c hc

/-- What stands between prefix and name. -/
def jointOf (options : Options) (request : Request) : String :=
  request.separator.getD options.defaultSeparator

theorem body_jointOf (hoptions : options.error? = none)
    (hseparator : ∀ separator ∈ request.separator, Body separator.toList) :
    Body (jointOf options request).toList := by
  rw [jointOf]
  cases h : request.separator with
  | none => exact .of_verbatim (verbatim_defaultSeparator hoptions)
  | some separator => exact hseparator separator h

theorem body_unquote {text : String} (h : isSimpleLiteral text = true) :
    Body (unquote text).toList := by
  obtain ⟨b, htext, hb⟩ := isSimpleLiteral_iff.1 h
  rwa [unquote_of_toList htext, String.toList_ofList]

/-! ## Which keys are simple literals -/

/-- The prefix can stand in front of the rest of a key: it is a body, or ends in a backslash that
escapes the next character. -/
def PrefixFits (options : Options) (request : Request) (bare : String) : Prop :=
  ∀ leading ∈ request.keyPrefix, Body leading.toList ∨
    Straddled leading.toList (jointOf options request ++ bare).toList

theorem isSimpleLiteral_key_iff {name bare : String} (hname : HasBareName name bare)
    (hjoint : Body (jointOf options request).toList) :
    isSimpleLiteral (quote (request.key options.defaultSeparator name)) = true ↔
      PrefixFits options request bare := by
  have hrest : Body (jointOf options request ++ bare).toList := by
    rw [String.toList_append]
    exact hjoint.append (.of_verbatim hname.verbatim)
  rw [isSimpleLiteral_quote_iff, Request.key, hname.bareName_eq, PrefixFits]
  cases request.keyPrefix with
  | none => exact ⟨fun _ _ h => by simp at h, fun _ => .of_verbatim hname.verbatim⟩
  | some leading =>
    have hkey : (leading ++ request.separator.getD options.defaultSeparator ++ bare).toList
        = leading.toList ++ (jointOf options request ++ bare).toList := by
      simp [jointOf]
    dsimp only
    rw [hkey, Body.append_iff, and_iff_left hrest]
    simp

/-- A request that was understood has a separator that can stand in a key. -/
theorem Asks.body_separator {t : TypeDecl} {a : Attribute} (h : Asks t a request) :
    ∀ separator ∈ request.separator, Body separator.toList := by
  obtain ⟨-, arguments, -, hrequest, hsimple⟩ := h
  intro separator hmem
  rw [(ofArguments_ok hrequest).2] at hmem
  obtain ⟨expression, hlast, rfl⟩ := Option.map_eq_some_iff.1 hmem
  exact body_unquote (hsimple _ (lastLabelled?_eq_some_iff.1 hlast))

/-- The keys of a type's members: each is a simple literal exactly if the prefix fits, and all are
if the prefix is one, or is missing. -/
structure KeysFit (options : Options) (arguments : List Argument) (members : List Member) :
    Prop where
  request : ∃ request, Request.ofArguments arguments = .ok request ∧
    ∀ member ∈ members, ∃ bare, HasBareName member.name bare ∧
      (isSimpleLiteral member.lookup.key = true ↔ PrefixFits options request bare)
  simple : (∀ expression, LastLabelled arguments "prefix" expression →
      isSimpleLiteral expression = true) →
    ∀ member ∈ members, isSimpleLiteral member.lookup.key = true

/-- Every member of a type comes from a case of an enumeration that is directly inside it. -/
theorem Outcome.exists_element {t : TypeDecl} {a : Attribute} {members : List Member}
    (h : Outcome options t a (.ok members)) :
    ∃ request, Asks t a request ∧ ∀ member ∈ members, ∃ header inside,
      .type header inside ∈ t.members ∧
        ∃ e ∈ (⟨header, inside⟩ : TypeDecl).caseElements, Becomes options request e member := by
  cases h with
  | @expanded request keys members hasks hkeys hmembers =>
    refine ⟨request, hasks, ?_⟩
    intro member hmember
    obtain ⟨i, hi, rfl⟩ := List.getElem_of_mem hmember
    have hi' : i < keys.caseElements.length := hmembers.length_eq ▸ hi
    obtain ⟨before, after, hsplit, -⟩ := hkeys
    exact ⟨keys.toTypeHeader, keys.members,
      hsplit ▸ List.mem_append_right _ (List.mem_cons_self ..),
      keys.caseElements[i], List.getElem_mem hi', hmembers.get hi' hi⟩

theorem Outcome.keysFit {t : TypeDecl} {a : Attribute} {members : List Member}
    (hoptions : options.error? = none)
    (hnames : ∀ header members, .type header members ∈ t.members →
      ∀ e ∈ (⟨header, members⟩ : TypeDecl).caseElements, IsName e.name.toList)
    (h : Outcome options t a (.ok members)) :
    ∃ arguments, a.arguments = some arguments ∧ KeysFit options arguments members := by
  obtain ⟨request, hasks, hmembers⟩ := h.exists_element
  have hjoint := body_jointOf hoptions hasks.body_separator
  have hkey : ∀ member ∈ members, ∃ bare, HasBareName member.name bare ∧
      (isSimpleLiteral member.lookup.key = true ↔ PrefixFits options request bare) := by
    intro member hmember
    -- the name of a case was read as a name, between backticks or without them
    obtain ⟨header, inside, hinside, e, he, hbecomes⟩ := hmembers member hmember
    obtain ⟨bare, hbare⟩ := exists_hasBareName (hnames header inside hinside e he)
    refine ⟨bare, hbecomes.name_eq ▸ hbare, ?_⟩
    rw [hbecomes.lookup_eq]
    exact isSimpleLiteral_key_iff hbare hjoint
  obtain ⟨-, arguments, harguments, hrequest, -⟩ := hasks
  refine ⟨arguments, harguments, ⟨request, hrequest, hkey⟩, fun hsimple member hmember => ?_⟩
  obtain ⟨bare, -, hiff⟩ := hkey member hmember
  refine hiff.2 fun leading hleading => .inl ?_
  rw [(ofArguments_ok hrequest).1] at hleading
  obtain ⟨expression, hlast, rfl⟩ := Option.map_eq_some_iff.1 hleading
  exact body_unquote (hsimple _ (lastLabelled?_eq_some_iff.1 hlast))

/-- **A key is a simple literal exactly if its prefix fits.** -/
theorem keys_simple_iff {limits : Limits} {source : List Char} {ds : List Declaration}
    {report : Report} (hoptions : options.error? = none) (hread : readSource limits source = .ok ds)
    (hreport : expandSource options limits source = .ok report) :
    List.Forall₂ (fun t r => ∃ a, AnnotatedBy t a ∧ ∀ members, r.outcome = .ok members →
        ∃ arguments, a.arguments = some arguments ∧ KeysFit options arguments members)
      ((types ds).filter fun t => t.attributes.any requestsExpansion) report.results := by
  have htypes : ∀ t ∈ (types ds).filter fun t => t.attributes.any requestsExpansion,
      t ∈ types ds := fun t ht => (List.mem_filter.1 ht).1
  refine ((List.forall₂_and_left _ _).2 ⟨htypes, decided_of_expandSource hread hreport⟩).imp ?_
  rintro t r ⟨ht, a, ha, hdecided⟩
  exact ⟨a, ha, fun members hmembers =>
    ((hdecided.outcome _).2 hmembers).keysFit hoptions (names_of_readSource hread ht)⟩

/-- A prefix that is a call, and one that is a literal. -/
def prefixedSource : List Char :=
  "@LocalizedStrings(prefix: f(\"x\"), separator: \".\") enum A \x7b\n  enum Strings \x7b case b \x7d\n\x7d\n@LocalizedStrings(prefix: \"p\") enum C \x7b\n  enum Strings \x7b case d \x7d\n\x7d\n".toList

/-- Which keys of a result are simple literals. -/
def simpleKeys (r : TypeResult) : Option (List Bool) :=
  r.outcome.toOption.map fun members => members.map fun member => isSimpleLiteral member.lookup.key

theorem keys_simple_iff_prefixedSource :
    ∃ ds report, readSource {} prefixedSource = .ok ds ∧
      expandSource {} {} prefixedSource = .ok report ∧
      report.results.map simpleKeys = [some [false], some [true]] ∧
      List.Forall₂ (fun t r => ∃ a, AnnotatedBy t a ∧ ∀ members, r.outcome = .ok members →
          ∃ arguments, a.arguments = some arguments ∧ KeysFit {} arguments members)
        ((types ds).filter fun t => t.attributes.any requestsExpansion) report.results := by
  have hoptions : ({} : Options).error? = none := by decide +kernel
  obtain ⟨ds, report, hread, hreport, hkeys⟩ :=
    @exists_report_map prefixedSource {} {} _ simpleKeys [some [false], some [true]] hoptions
      (by decide +kernel)
  exact ⟨ds, report, hread, hreport, hkeys, keys_simple_iff hoptions hread hreport⟩

end LocalizedKeys.Expansion

namespace LocalizedKeys.Catalog

open Swift Expansion LocalizedKeys.Language

/-! ## Keys in catalogs -/

/-- A catalog has a text under a key. -/
def HasKey (catalogs : Catalogs) (catalog key : String) : Prop :=
  ∃ entries entry, catalogs.get? catalog = some entries ∧ entries.get? key = some entry

/-- A member puts its text into the catalog under the key. -/
def Writes (m : Member) (catalog key : String) : Prop :=
  tableName? m.lookup.table = some catalog ∧ decodeLiteral m.lookup.key = key

variable {catalogs : Catalogs} {catalog key : String}

theorem hasKey_put_iff {catalog' key' : String} {entry : Entry} :
    HasKey (catalogs.put catalog' (((catalogs.get? catalog').getD []).put key' entry)) catalog key ↔
      HasKey catalogs catalog key ∨ (catalog' = catalog ∧ key' = key) := by
  -- only one place changes, and what else is in its catalog stays
  by_cases hcatalog : catalog = catalog'
  · subst hcatalog
    by_cases hkey : key = key'
    · subst hkey
      exact iff_of_true ⟨_, _, Sorted.get?_put_self .., Sorted.get?_put_self ..⟩ (.inr ⟨rfl, rfl⟩)
    · rw [or_iff_left fun h => hkey h.2.symm]
      constructor
      · rintro ⟨entries, old, hentries, hold⟩
        obtain rfl := Option.some.inj (hentries.symm.trans (Sorted.get?_put_self ..))
        rw [Sorted.get?_put_of_ne hkey] at hold
        cases h : catalogs.get? catalog with
        | none => simp [h, Sorted.get?] at hold
        | some entries => exact ⟨entries, old, h, by simpa [h] using hold⟩
      · rintro ⟨entries, old, hentries, hold⟩
        refine ⟨_, old, Sorted.get?_put_self .., ?_⟩
        rw [Sorted.get?_put_of_ne hkey, hentries, Option.getD_some, hold]
  · rw [or_iff_left fun h => hcatalog h.1.symm]
    unfold HasKey
    rw [Sorted.get?_put_of_ne hcatalog]

theorem hasKey_addMember_iff {m : Member} :
    HasKey (addMember catalogs m).1 catalog key ↔
      HasKey catalogs catalog key ∨ Writes m catalog key := by
  rw [addMember, Writes]
  cases tableName? m.lookup.table with
  | none => simp
  | some catalog' => simpa using hasKey_put_iff

theorem hasKey_addMembers_iff {ms : List Member} :
    HasKey (addMembers catalogs ms).1 catalog key ↔
      HasKey catalogs catalog key ∨ ∃ m ∈ ms, Writes m catalog key := by
  induction ms generalizing catalogs with
  | nil => simp [addMembers]
  | cons m ms ih =>
    have hcons : (addMembers catalogs (m :: ms)).1
        = (addMembers (addMember catalogs m).1 ms).1 := rfl
    rw [hcons, ih, hasKey_addMember_iff, or_assoc, List.exists_mem_cons_iff]

/-- Catalogs are built in the languages that a registry accepts. -/
theorem build_eq_ok_iff {registry : Option Registry} {language : String} {ms : List Member}
    {built : Built} :
    build registry language ms = .ok built ↔
      ∃ accepting tag, registry = some accepting ∧ accepting.Accepts language tag ∧
        built = ⟨tag, (addMembers [] ms).1, (addMembers [] ms).2⟩ := by
  constructor
  · intro h
    unfold build at h
    split at h
    · simp at h
    · rename_i accepting
      split at h
      · simp at h
      · rename_i tag htag
        exact ⟨accepting, tag, rfl, canonicalTag_eq_ok_iff.1 htag, (Except.ok.inj h).symm⟩
  · rintro ⟨accepting, tag, rfl, haccepts, rfl⟩
    rw [build]
    simp only [canonicalTag_eq_ok_iff.2 haccepts]

theorem build_of_accepts {registry : Registry} {language tag : String}
    (h : registry.Accepts language tag) (ms : List Member) :
    build (some registry) language ms
      = .ok ⟨tag, (addMembers [] ms).1, (addMembers [] ms).2⟩ :=
  build_eq_ok_iff.2 ⟨registry, tag, rfl, h, rfl⟩

/-- The keys of built catalogs are those of the members. -/
theorem hasKey_build_iff {registry : Option Registry} {language : String} {ms : List Member}
    {built : Built} (hbuilt : build registry language ms = .ok built) :
    HasKey built.catalogs catalog key ↔ ∃ m ∈ ms, Writes m catalog key := by
  obtain ⟨_, _, -, -, rfl⟩ := build_eq_ok_iff.1 hbuilt
  rw [hasKey_addMembers_iff, or_iff_right]
  rintro ⟨_, _, hentries, -⟩
  simp [Sorted.get?] at hentries

end LocalizedKeys.Catalog

namespace LocalizedKeys.Expansion

open Swift Text Catalog LocalizedKeys.Language

variable {options : Options} {request : Request}

/-! ## The values of keys -/

/-- The key for a case as it is to be looked up: the values of prefix and separator, or the
separator of the options, in front of the bare name, which is the key by itself without a prefix. -/
inductive KeyValue (options : Options) (arguments : List Argument) (bare : String) :
    String → Prop
  | bare : Unlabelled arguments "prefix" → KeyValue options arguments bare bare
  | joined {leading separator : String} :
      LastLabelled arguments "prefix" leading → LastLabelled arguments "separator" separator →
      KeyValue options arguments bare (decodeLiteral leading ++ decodeLiteral separator ++ bare)
  | byDefault {leading : String} :
      LastLabelled arguments "prefix" leading → Unlabelled arguments "separator" →
      KeyValue options arguments bare (decodeLiteral leading ++ options.defaultSeparator ++ bare)

/-- A key of well-escaped parts is a literal, and its value is that of the parts. -/
theorem decodeLiteral_parts {leading joint bare : String} (hleading : WellEscaped leading.toList)
    (hjoint : WellEscaped joint.toList) (hbare : ∀ c ∈ bare.toList, IsVerbatim c) :
    isSimpleLiteral (quote (leading ++ joint ++ bare)) = true ∧
      decodeLiteral (quote (leading ++ joint ++ bare))
        = String.ofList (unescape leading.toList) ++ String.ofList (unescape joint.toList)
          ++ bare := by
  have hbody : Body (leading ++ joint ++ bare).toList := by
    simp only [String.toList_append]
    exact (hleading.body.append hjoint.body).append (.of_verbatim hbare)
  refine ⟨isSimpleLiteral_quote_iff.2 hbody, ?_⟩
  rw [decodeLiteral_quote hbody, ← String.toList_inj]
  simp only [String.toList_append, String.toList_ofList, List.append_assoc,
    hleading.unescape_append, hjoint.unescape_append, unescape_of_verbatim hbare]

/-- The key for a case, if prefix and separator are well escaped. -/
theorem key_of_request {arguments : List Argument} {name bare : String}
    (hoptions : options.error? = none) (hbare : HasBareName name bare)
    (hfront : ∀ leading, LastLabelled arguments "prefix" leading → IsWellEscaped leading)
    (hseparator : ∀ separator, LastLabelled arguments "separator" separator →
      IsWellEscaped separator)
    (hrequest : Request.ofArguments arguments = .ok request) :
    isSimpleLiteral (quote (request.key options.defaultSeparator name)) = true ∧
      KeyValue options arguments bare
        (decodeLiteral (quote (request.key options.defaultSeparator name))) := by
  obtain ⟨hleading, hjoint⟩ := ofArguments_ok hrequest
  rw [Request.key, hbare.bareName_eq, hleading, hjoint]
  -- a separator counts only behind a prefix, so there are three forms of a key
  cases hp : Request.lastLabelled? arguments "prefix" with
  | none =>
    have hbody : Body bare.toList := .of_verbatim hbare.verbatim
    refine ⟨isSimpleLiteral_quote_iff.2 hbody, ?_⟩
    rw [Option.map_none, decodeLiteral_quote hbody, unescape_of_verbatim hbare.verbatim,
      String.ofList_toList]
    exact .bare (lastLabelled?_eq_none_iff.1 hp)
  | some leading =>
    have hp := lastLabelled?_eq_some_iff.1 hp
    obtain ⟨hwell, hvalue⟩ := (hfront leading hp).unquote
    cases hs : Request.lastLabelled? arguments "separator" with
    | none =>
      have hdefault := verbatim_defaultSeparator hoptions
      obtain ⟨hsimple, hdecode⟩ := decodeLiteral_parts hwell (.of_verbatim hdefault) hbare.verbatim
      refine ⟨hsimple, ?_⟩
      rw [Option.map_some, Option.map_none, Option.getD_none, hdecode, ← hvalue,
        unescape_of_verbatim hdefault, String.ofList_toList]
      exact .byDefault hp (lastLabelled?_eq_none_iff.1 hs)
    | some separator =>
      have hs := lastLabelled?_eq_some_iff.1 hs
      obtain ⟨hwell', hvalue'⟩ := (hseparator separator hs).unquote
      obtain ⟨hsimple, hdecode⟩ := decodeLiteral_parts hwell hwell' hbare.verbatim
      refine ⟨hsimple, ?_⟩
      rw [Option.map_some, Option.map_some, Option.getD_some, hdecode, ← hvalue, ← hvalue']
      exact .joined hp hs

/-- **Built catalogs have the texts of cases under prefix, separator and bare name.** -/
theorem key_of_parts {arguments : List Argument} {element : CaseElement} {bare : String}
    (hoptions : options.error? = none) (hbare : HasBareName element.name bare)
    (hfront : ∀ leading, LastLabelled arguments "prefix" leading → IsWellEscaped leading)
    (hseparator : ∀ separator, LastLabelled arguments "separator" separator →
      IsWellEscaped separator) :
    ∃ request key, Request.ofArguments arguments = .ok request ∧
      KeyValue options arguments bare key ∧
      ∀ member, synthesizeCase request options element = .ok member →
        isSimpleLiteral member.lookup.key = true ∧
        (∀ catalog written, Writes member catalog written ↔
          tableName? request.resolvedTable = some catalog ∧ written = key) ∧
        ∀ (registry : Registry) language tag, registry.Accepts language tag → ∀ members,
          ∃ built, build (some registry) language members = .ok built ∧
            ∀ catalog written, HasKey built.catalogs catalog written ↔
              ∃ other ∈ members, Writes other catalog written := by
  obtain ⟨request, hrequest⟩ := exists_request fun separator hs =>
    (hseparator separator hs).isSimpleLiteral
  obtain ⟨hsimple, hkey⟩ := key_of_request hoptions hbare hfront hseparator hrequest
  refine ⟨request, _, hrequest, hkey, fun member hmember => ?_⟩
  have hlookup := (becomes_of_synthesizeCase hmember).lookup_eq
  refine ⟨by rw [hlookup]; exact hsimple, fun catalog written => ?_,
    fun registry language tag hlanguage members => ⟨_, build_of_accepts hlanguage members,
      fun catalog written => hasKey_build_iff (build_of_accepts hlanguage members)⟩⟩
  rw [Writes, hlookup, eq_comm (b := written)]
  rfl

/-- A prefix with two kinds of escapes, and a separator that is an escaped quote. -/
def escapedArguments : List Argument :=
  [⟨some "prefix", "\"a\\n\\u\x7b2E\x7d\"", ⟨0, 0⟩⟩, ⟨some "separator", "\"\\\"\"", ⟨0, 0⟩⟩]

theorem key_of_parts_escaped :
    ∃ request member, Request.ofArguments escapedArguments = .ok request ∧
      synthesizeCase request {} ⟨"\x60class\x60", none, ⟨0, 0⟩⟩ = .ok member ∧
      isSimpleLiteral member.lookup.key = true ∧
      Writes member "Localizable" "a\n.\"class" := by
  have hfront : ∀ leading, LastLabelled escapedArguments "prefix" leading →
      leading = "\"a\\n\\u\x7b2E\x7d\"" := fun leading h => by
    have h := lastLabelled?_eq_some_iff.2 h
    rw [show Request.lastLabelled? escapedArguments "prefix"
      = some "\"a\\n\\u\x7b2E\x7d\"" by decide] at h
    exact (Option.some.inj h).symm
  have hseparator : ∀ separator, LastLabelled escapedArguments "separator" separator →
      separator = "\"\\\"\"" := fun separator h => by
    have h := lastLabelled?_eq_some_iff.2 h
    rw [show Request.lastLabelled? escapedArguments "separator" = some "\"\\\"\"" by decide] at h
    exact (Option.some.inj h).symm
  have hbare : HasBareName "\x60class\x60" "class" :=
    ⟨⟨'c', "lass".toList, rfl, by decide +kernel, by decide +kernel⟩, .inr rfl⟩
  obtain ⟨request, key, hrequest, hkey, hmember⟩ :=
    @key_of_parts {} escapedArguments ⟨"\x60class\x60", none, ⟨0, 0⟩⟩ "class"
      (by decide +kernel) hbare
      (fun leading h => hfront leading h ▸ ⟨"a\\n\\u\x7b2E\x7d".toList, rfl,
        .plain (by decide) (.single (by decide)
          (@WellEscaped.scalar ['2', 'E'] [] (by decide) (by decide) (by decide) .nil))⟩)
      (fun separator h => hseparator separator h ▸ ⟨"\\\"".toList, rfl, .single (by decide) .nil⟩)
  have hrequest' : Request.ofArguments escapedArguments = .ok
      { keyPrefix := some "a\\n\\u\x7b2E\x7d", separator := some "\\\"" } := by decide +kernel
  obtain rfl := Except.ok.inj (hrequest'.symm.trans hrequest)
  have hmade : synthesizeCase { keyPrefix := some "a\\n\\u\x7b2E\x7d", separator := some "\\\"" } {}
      ⟨"\x60class\x60", none, ⟨0, 0⟩⟩ = .ok (.constant "\x60class\x60"
        { key := "\"a\\n\\u\x7b2E\x7d\\\"class\"", defaultValue := "\"class\"" }) := by
    decide +kernel
  obtain ⟨hsimple, hwrites, -⟩ := hmember _ hmade
  refine ⟨_, _, hrequest, hmade, hsimple, (hwrites _ _).2 ⟨by decide +kernel, ?_⟩⟩
  cases hkey with
  | bare hnone => exact absurd rfl (hnone _ (List.mem_cons_self ..))
  | joined hp hs => rw [hfront _ hp, hseparator _ hs]; decide +kernel
  | byDefault _ hnone => exact absurd rfl (hnone _ (List.mem_cons_of_mem _ (List.mem_cons_self ..)))

end LocalizedKeys.Expansion
