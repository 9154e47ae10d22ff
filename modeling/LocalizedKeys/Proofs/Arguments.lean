import LocalizedKeys.Format.Arguments
import LocalizedKeys.Proofs.Specifiers
import Mathlib.Data.List.Forall2

/-!
# Which specifier describes an argument

The specifiers of a text are sorted by index and gone through once. What comes of that is said here
without an order: `Resolves` speaks only of which indices occur and of the earliest specifier with
each. The sort is stable, so for one index it keeps the specifiers in their order
(`filter_sorted`), and a result depends on nothing else; that is why two neighbours with different
indices can change places (`denseArguments_congr`).

`Answers` says in which of these cases an error can be reported: the index that was found has to be
written. `Types` speaks of the parameter types of a text, whose indices always can be
(`scanSpecifiers_writable`).
-/

namespace LocalizedKeys.Format

open Text

/-- The index of some specifier. -/
def Occurs (specifiers : List Specifier) (index : Int) : Prop :=
  ∃ s ∈ specifiers, s.index = index

/-- The specifier is the first of a list with its index. -/
def Earliest (specifiers : List Specifier) (index : Int) (s : Specifier) : Prop :=
  ∃ before after, specifiers = before ++ s :: after ∧ s.index = index ∧
    ∀ other ∈ before, other.index ≠ index

/-- The indices are the numbers from one to `count`. -/
def Dense (specifiers : List Specifier) (count : Nat) : Prop :=
  ∀ k : Int, Occurs specifiers k ↔ 1 ≤ k ∧ k ≤ count

/-- What comes of a list of specifiers. -/
inductive Resolves (specifiers : List Specifier) :
    Except SpecifierError (List Specifier) → Prop
  | dense {resolved : List Specifier} :
      Dense specifiers resolved.length →
      (∀ (i : Nat) (h : i < resolved.length), Earliest specifiers (i + 1) resolved[i]) →
      Resolves specifiers (.ok resolved)
  | belowOne {least : Int} :
      least < 1 → Occurs specifiers least → (∀ k, Occurs specifiers k → least ≤ k) →
      Resolves specifiers (.error (.indexOutOfRange least 1))
  | gap {missing found : Int} :
      (∀ k, Occurs specifiers k → 1 ≤ k) →
      1 ≤ missing → ¬Occurs specifiers missing →
      (∀ k, 1 ≤ k → k < missing → Occurs specifiers k) →
      missing < found → Occurs specifiers found →
      (∀ k, Occurs specifiers k → missing < k → found ≤ k) →
      Resolves specifiers (.error (.indexOutOfRange found missing))

/-- What is answered for a list of specifiers: an error is reported if the index that was found has
few enough digits. -/
inductive Answers (specifiers : List Specifier) :
    Except ResolutionFailure (List Specifier) → Prop
  | resolved {resolved : List Specifier} :
      Resolves specifiers (.ok resolved) → Answers specifiers (.ok resolved)
  | rejected {found expected : Int} :
      Resolves specifiers (.error (.indexOutOfRange found expected)) → IsWritable found →
      Answers specifiers (.error (.rejected (.indexOutOfRange found expected)))
  | unreportable {found expected : Int} :
      Resolves specifiers (.error (.indexOutOfRange found expected)) → ¬IsWritable found →
      Answers specifiers (.error (.unreportable .tooLong))

/-- The type that the table has for a specifier. -/
def Specifier.tableType? (s : Specifier) : Option ParamType :=
  ParamType.of? s.lengthModifier (String.singleton s.conversion)

/-- What the arguments of a text with these specifiers are. -/
inductive Types (specifiers : List Specifier) : Except FormatFailure (List ParamType) → Prop
  | unresolved {e : SpecifierError} :
      Resolves specifiers (.error e) → Types specifiers (.error (.rejected e))
  | unknown {before after : List Specifier} {s : Specifier} :
      Resolves specifiers (.ok (before ++ s :: after)) →
      (∀ other ∈ before, other.tableType?.isSome = true) → s.tableType? = none →
      Types specifiers (.error (.rejected (.unknown s.text)))
  | typed {resolved : List Specifier} {types : List ParamType} :
      Resolves specifiers (.ok resolved) →
      List.Forall₂ (fun s type => s.tableType? = some type) resolved types →
      Types specifiers (.ok types)

/-! ## Sorting -/

/-- The specifiers in the order of their indices. -/
def sorted (specifiers : List Specifier) : List Specifier :=
  specifiers.mergeSort fun a b => decide (a.index ≤ b.index)

theorem pairwise_sorted (specifiers : List Specifier) :
    (sorted specifiers).Pairwise fun a b => a.index ≤ b.index := by
  have h : (sorted specifiers).Pairwise fun a b => decide (a.index ≤ b.index) = true :=
    List.pairwise_mergeSort (fun a b c hab hbc => by simp only [decide_eq_true_eq] at *; omega)
      (fun a b => by simp only [Bool.or_eq_true, decide_eq_true_eq]; omega) specifiers
  simpa using h

/-- The specifiers with one index stay in their order. -/
theorem filter_sorted (specifiers : List Specifier) (index : Int) :
    (sorted specifiers).filter (·.index == index) = specifiers.filter (·.index == index) := by
  have hperm : (sorted specifiers).Perm specifiers := List.mergeSort_perm _ _
  have hequal : (specifiers.filter (·.index == index)).Pairwise
      fun a b => decide (a.index ≤ b.index) = true := by
    refine List.Pairwise.imp_of_mem ?_ (List.pairwise_of_forall (R := fun _ _ => True) fun _ _ => trivial)
    intro a b ha hb _
    have ha := (List.mem_filter.1 ha).2
    have hb := (List.mem_filter.1 hb).2
    simp only [beq_iff_eq] at ha hb
    simp [ha, hb]
  have hsub : (specifiers.filter (·.index == index)).Sublist (sorted specifiers) :=
    List.sublist_mergeSort
      (fun a b c hab hbc => by simp only [decide_eq_true_eq] at *; omega)
      (fun a b => by simp only [Bool.or_eq_true, decide_eq_true_eq]; omega)
      hequal List.filter_sublist
  have hsub' := hsub.filter (·.index == index)
  rw [List.filter_filter] at hsub'
  simp only [Bool.and_self] at hsub'
  exact (hsub'.eq_of_length (hperm.filter _).length_eq.symm).symm

/-- The earliest specifier is the first of those with the index. -/
theorem earliest_iff {specifiers : List Specifier} {index : Int} {s : Specifier} :
    Earliest specifiers index s ↔ (specifiers.filter (·.index == index)).head? = some s := by
  rw [List.head?_filter, List.find?_eq_some_iff_append]
  constructor
  · rintro ⟨before, after, hsplit, hs, hbefore⟩
    exact ⟨by simp [hs], before, after, hsplit, fun t ht => by simp [hbefore t ht]⟩
  · rintro ⟨hs, before, after, hsplit, hbefore⟩
    exact ⟨before, after, hsplit, by simpa using hs, fun t ht => by simpa using hbefore t ht⟩

/-! ## Going through sorted specifiers -/

variable {specifiers : List Specifier} {index : Int} {s t : Specifier}

theorem occurs_append {others : List Specifier} :
    Occurs (specifiers ++ others) index ↔ Occurs specifiers index ∨ Occurs others index := by
  simp only [Occurs, List.mem_append, or_and_right, exists_or]

theorem occurs_singleton : Occurs [s] index ↔ s.index = index := by simp [Occurs]

theorem Earliest.append (h : Earliest specifiers index s) (others : List Specifier) :
    Earliest (specifiers ++ others) index s := by
  obtain ⟨before, after, rfl, hs, hbefore⟩ := h
  exact ⟨before, after ++ others, by simp, hs, hbefore⟩

theorem Dense.append_met {count : Nat} (h : Dense specifiers count) (hs : Occurs specifiers s.index) :
    Dense (specifiers ++ [s]) count := by
  intro k
  rw [occurs_append, occurs_singleton, ← h k]
  constructor
  · rintro (hk | rfl)
    · exact hk
    · exact hs
  · exact .inl

theorem Dense.append_next {count : Nat} (h : Dense specifiers count) (hs : s.index = count + 1) :
    Dense (specifiers ++ [s]) (count + 1) := by
  intro k
  rw [occurs_append, occurs_singleton, h k]
  omega

/-- With one specifier kept for each index of those that are done, going through the others ends as
it should for all of them. -/
theorem resolves_denseFrom {done kept : List Specifier} (rest : List Specifier)
    (hsorted : (done ++ rest).Pairwise fun a b => a.index ≤ b.index)
    (hdense : Dense done kept.length)
    (hkept : ∀ (i : Nat) (h : i < kept.length), Earliest done (i + 1) kept[i]) :
    Resolves (done ++ rest) ((denseFrom kept.length rest).map (kept ++ ·)) := by
  induction rest generalizing done kept with
  | nil =>
    rw [denseFrom, List.append_nil, Except.map, List.append_nil]
    exact .dense hdense hkept
  | cons s rest ih =>
    have hsplit : done ++ s :: rest = (done ++ [s]) ++ rest := by simp
    rw [denseFrom]
    by_cases hmet : 0 < kept.length ∧ s.index = kept.length
    · -- an earlier specifier has the index
      rw [if_pos hmet, hsplit]
      refine ih (hsplit ▸ hsorted) (hdense.append_met ?_) fun i hi => (hkept i hi).append [s]
      rw [hdense s.index]
      omega
    rw [if_neg hmet]
    by_cases hnext : s.index = kept.length + 1
    · rw [if_pos hnext, hsplit]
      have hlength : (kept ++ [s]).length = kept.length + 1 := by simp
      have hresolves := @ih (done ++ [s]) (kept ++ [s]) (hsplit ▸ hsorted)
        (hlength ▸ hdense.append_next hnext) fun i hi => ?_
      · rw [hlength] at hresolves
        cases hothers : denseFrom (kept.length + 1) rest with
        | error e => simpa [hothers, Except.map] using hresolves
        | ok others => simpa [hothers, Except.map] using hresolves
      · rw [List.getElem_append]
        split
        · exact (hkept i _).append [s]
        · have hi : i = kept.length := by omega
          subst hi
          refine ⟨done, [], by simp, by simpa using hnext, fun other hother hindex => ?_⟩
          have := (hdense other.index).1 ⟨other, hother, rfl⟩
          omega
    · rw [if_neg hnext, Except.map]
      have hfound : Occurs (done ++ s :: rest) s.index := ⟨s, by simp, rfl⟩
      have hleast : ∀ k, Occurs (done ++ s :: rest) k → Occurs done k ∨ s.index ≤ k := by
        rintro k ⟨t, ht, rfl⟩
        rcases List.mem_append.1 ht with ht | ht
        · exact .inl ⟨t, ht, rfl⟩
        · rcases List.mem_cons.1 ht with rfl | ht
          · exact .inr (Int.le_refl _)
          · have hpairs := (List.pairwise_append.1 hsorted).2.1
            exact .inr ((List.pairwise_cons.1 hpairs).1 t ht)
      have hbefore : ∀ k, Occurs done k → k ≤ s.index := by
        rintro k ⟨t, ht, rfl⟩
        exact (List.pairwise_append.1 hsorted).2.2 t ht s (List.mem_cons_self ..)
      by_cases hbelow : s.index < 1
      · -- nothing can have been done before an index below one
        have hcount : kept.length = 0 := by
          by_contra hne
          have := hbefore 1 ((hdense 1).2 (by omega))
          omega
        rw [hcount]
        refine .belowOne hbelow hfound fun k hk => ?_
        rcases hleast k hk with hk | hk
        · have := (hdense k).1 hk
          omega
        · exact hk
      · have hgap : (kept.length : Int) + 1 < s.index := by
          by_cases hcount : 0 < kept.length
          · have := hbefore kept.length ((hdense kept.length).2 (by omega))
            omega
          · omega
        refine .gap (fun k hk => ?_) (by omega) (fun hk => ?_) (fun k hk hk' => ?_) hgap hfound
          fun k hk hk' => ?_
        · rcases hleast k hk with hk | hk
          · exact ((hdense k).1 hk).1
          · omega
        · rcases hleast _ hk with hk | hk
          · have := (hdense _).1 hk
            omega
          · omega
        · exact occurs_append.2 (.inl ((hdense k).2 (by omega)))
        · rcases hleast k hk with hk | hk
          · have := (hdense k).1 hk
            omega
          · exact hk

/-! ## All specifiers -/

theorem Resolves.of_filter_eq {others : List Specifier}
    {result : Except SpecifierError (List Specifier)} (h : Resolves specifiers result)
    (hfilter : ∀ k : Int, specifiers.filter (·.index == k) = others.filter (·.index == k)) :
    Resolves others result := by
  have hoccurs : ∀ k, Occurs specifiers k ↔ Occurs others k := by
    intro k
    have hmem : ∀ ss : List Specifier, Occurs ss k ↔ ss.filter (·.index == k) ≠ [] := by
      intro ss
      simp [Occurs, List.filter_eq_nil_iff]
    rw [hmem, hmem, hfilter k]
  cases h with
  | dense hdense hkept =>
    refine .dense (fun k => (hoccurs k).symm.trans (hdense k)) fun i hi => ?_
    rw [earliest_iff, ← hfilter, ← earliest_iff]
    exact hkept i hi
  | belowOne hbelow hleast hall =>
    exact .belowOne hbelow ((hoccurs _).1 hleast) fun k hk => hall k ((hoccurs k).2 hk)
  | gap hpositive hone hmissing hfilled hgap hfound hleast =>
    exact .gap (fun k hk => hpositive k ((hoccurs k).2 hk)) hone
      (fun hk => hmissing ((hoccurs _).2 hk))
      (fun k hk hk' => (hoccurs k).1 (hfilled k hk hk')) hgap ((hoccurs _).1 hfound)
      fun k hk hk' => hleast k ((hoccurs k).2 hk) hk'

theorem resolves_denseArguments (specifiers : List Specifier) :
    Resolves specifiers (denseArguments specifiers) := by
  have hempty : Dense [] 0 := by
    intro k
    simp only [Occurs, List.not_mem_nil, false_and, exists_false, false_iff]
    omega
  have h := @resolves_denseFrom [] [] (sorted specifiers) (pairwise_sorted specifiers) hempty
    (by simp)
  have hresult : (denseFrom 0 (sorted specifiers)).map ([] ++ ·) = denseArguments specifiers := by
    rw [denseArguments, sorted]
    cases denseFrom 0 (specifiers.mergeSort fun a b => decide (a.index ≤ b.index)) <;> rfl
  rw [List.nil_append, List.length_nil, hresult] at h
  exact h.of_filter_eq (filter_sorted specifiers)

theorem Earliest.unique (hs : Earliest specifiers index s) (ht : Earliest specifiers index t) :
    s = t := by
  rw [earliest_iff] at hs ht
  exact Option.some.inj (hs.symm.trans ht)

theorem Dense.unique {m n : Nat} (hm : Dense specifiers m) (hn : Dense specifiers n) : m = n := by
  have h₁ := (hm m).symm.trans (hn m)
  have h₂ := (hm n).symm.trans (hn n)
  omega

/-- Only one result fits a list of specifiers. -/
theorem Resolves.unique {r₁ r₂ : Except SpecifierError (List Specifier)}
    (h₁ : Resolves specifiers r₁) (h₂ : Resolves specifiers r₂) : r₁ = r₂ := by
  cases h₁ with
  | dense hdense hkept =>
    cases h₂ with
    | dense hdense' hkept' =>
      have hlength := hdense.unique hdense'
      refine congrArg Except.ok (List.ext_getElem hlength fun i hi hi' => ?_)
      exact (hkept i hi).unique (hkept' i hi')
    | belowOne hbelow hleast _ =>
      have := (hdense _).1 hleast
      omega
    | gap _ hone hmissing _ hgap hfound _ =>
      have := (hdense _).1 hfound
      exact absurd ((hdense _).2 (by omega)) hmissing
  | belowOne hbelow hleast hall =>
    cases h₂ with
    | dense hdense' _ =>
      have := (hdense' _).1 hleast
      omega
    | belowOne _ hleast' hall' =>
      rw [Int.le_antisymm (hall _ hleast') (hall' _ hleast)]
    | gap hpositive _ _ _ _ _ _ =>
      have := hpositive _ hleast
      omega
  | @gap missing found hpositive hone hmissing hfilled hgap hfound hleast =>
    cases h₂ with
    | dense hdense' _ =>
      have := (hdense' _).1 hfound
      exact absurd ((hdense' _).2 (by omega)) hmissing
    | belowOne hbelow hleast' _ =>
      have := hpositive _ hleast'
      omega
    | @gap missing' found' _ hone' hmissing' hfilled' hgap' hfound' hleast' =>
      have hsame : missing = missing' := by
        rcases Int.lt_trichotomy missing missing' with hlt | heq | hgt
        · exact absurd (hfilled' _ hone hlt) hmissing
        · exact heq
        · exact absurd (hfilled _ hone' hgt) hmissing'
      subst hsame
      rw [Int.le_antisymm (hleast _ hfound' hgap') (hleast' _ hfound hgap)]

/-- Only the order of specifiers with one index matters. -/
theorem denseArguments_congr {others : List Specifier}
    (h : ∀ k : Int, specifiers.filter (·.index == k) = others.filter (·.index == k)) :
    denseArguments specifiers = denseArguments others :=
  ((resolves_denseArguments specifiers).of_filter_eq h).unique (resolves_denseArguments others)

/-! ## The types -/

theorem scanSpecifiers_text_ne {text : String} (h : scanSpecifiers text = .ok specifiers) :
    ∀ s ∈ specifiers, s.text ≠ "" := by
  intro s hs hempty
  have hmatches : Matches text.toList 0 (instances text) := matches_iff.2 rfl
  cases scanSpecifiers_iff.1 h with
  | sound =>
    obtain ⟨i, hi, rfl⟩ := List.mem_mapIdx.1 hs
    have hmem := (mem_specifiersAmong.1 (List.getElem_mem hi)).1
    have htext : ((specifiersAmong (instances text))[i]).1.text = "" := hempty
    exact (hmatches.instances _ hmem).2.1.ne_nil (by rw [htext]; rfl)

/-- A specifier has the type of the table, or is reported as it is written. -/
theorem Specifier.type_eq (h : s.text ≠ "") :
    s.type = match s.tableType? with
      | some type => .ok type
      | none => .error (.unknown s.text) := by
  rw [Specifier.type, resolveType, Specifier.tableType?]
  cases ParamType.of? s.lengthModifier (String.singleton s.conversion) with
  | some type => rfl
  | none => simp [String.isEmpty_iff, h]

theorem mem_of_resolves {resolved : List Specifier} (h : Resolves specifiers (.ok resolved)) :
    ∀ s ∈ resolved, s ∈ specifiers := by
  intro s hs
  cases h with
  | dense _ hkept =>
    obtain ⟨i, hi, rfl⟩ := List.getElem_of_mem hs
    obtain ⟨before, after, hsplit, -⟩ := hkept i hi
    rw [hsplit]
    simp

theorem mapM_typed {resolved : List Specifier} {types : List ParamType}
    (hne : ∀ s ∈ resolved, s.text ≠ "")
    (h : List.Forall₂ (fun s type => s.tableType? = some type) resolved types) :
    resolved.mapM Specifier.type = .ok types := by
  induction h with
  | nil => rfl
  | @cons s type rest types hs _ ih =>
    rw [List.mapM_cons, Specifier.type_eq (hne s (List.mem_cons_self ..)), hs,
      ih fun t ht => hne t (List.mem_cons_of_mem _ ht)]
    rfl

theorem mapM_unknown {before after : List Specifier}
    (hne : ∀ t ∈ before ++ s :: after, t.text ≠ "")
    (hbefore : ∀ other ∈ before, other.tableType?.isSome = true) (hs : s.tableType? = none) :
    (before ++ s :: after).mapM Specifier.type = .error (.unknown s.text) := by
  induction before with
  | nil =>
    rw [List.nil_append, List.mapM_cons, Specifier.type_eq (hne s (List.mem_cons_self ..)), hs]
    rfl
  | cons t before ih =>
    obtain ⟨type, htype⟩ := Option.isSome_iff_exists.1 (hbefore t (List.mem_cons_self ..))
    rw [List.cons_append, List.mapM_cons, Specifier.type_eq (hne t (List.mem_cons_self ..)), htype,
      ih (fun u hu => hne u (List.mem_cons_of_mem _ hu))
        fun u hu => hbefore u (List.mem_cons_of_mem _ hu)]
    rfl

/-- Either all specifiers have a type, or one is the first without. -/
theorem typed_or_unknown (resolved : List Specifier) :
    (∃ types, List.Forall₂ (fun s type => s.tableType? = some type) resolved types) ∨
      ∃ before s after, resolved = before ++ s :: after ∧
        (∀ other ∈ before, other.tableType?.isSome = true) ∧ s.tableType? = none := by
  induction resolved with
  | nil => exact .inl ⟨[], .nil⟩
  | cons s rest ih =>
    cases htype : s.tableType? with
    | none => exact .inr ⟨[], s, rest, rfl, by simp, htype⟩
    | some type =>
      rcases ih with ⟨types, htypes⟩ | ⟨before, t, after, rfl, hbefore, ht⟩
      · exact .inl ⟨type :: types, .cons htype htypes⟩
      · refine .inr ⟨s :: before, t, after, rfl, fun other hother => ?_, ht⟩
        rcases List.mem_cons.1 hother with rfl | hother
        · simp [htype]
        · exact hbefore other hother

theorem exists_types (specifiers : List Specifier) : ∃ result, Types specifiers result := by
  have hresolves := resolves_denseArguments specifiers
  cases hresolved : denseArguments specifiers with
  | error e => exact ⟨_, .unresolved (hresolved ▸ hresolves)⟩
  | ok resolved =>
    rw [hresolved] at hresolves
    rcases typed_or_unknown resolved with ⟨types, htypes⟩ | ⟨before, s, after, rfl, hbefore, hs⟩
    · exact ⟨_, .typed hresolves htypes⟩
    · exact ⟨_, .unknown hresolves hbefore hs⟩

theorem Types.argumentTypes_eq {text : String} {result : Except FormatFailure (List ParamType)}
    (hscan : scanSpecifiers text = .ok specifiers) (h : Types specifiers result) :
    argumentTypes text = result := by
  have hne : ∀ {resolved : List Specifier}, Resolves specifiers (.ok resolved) →
      ∀ s ∈ resolved, s.text ≠ "" := fun hresolves s hs =>
    scanSpecifiers_text_ne hscan s (mem_of_resolves hresolves s hs)
  have heq : ∀ {result : Except SpecifierError (List Specifier)}, Resolves specifiers result →
      parseSpecifiers text = result.mapError .rejected := fun hresolves => by
    rw [parseSpecifiers, hscan, ← (resolves_denseArguments specifiers).unique hresolves]
  cases h with
  | unresolved hresolves =>
    rw [argumentTypes, heq hresolves]
    rfl
  | unknown hresolves hbefore hs =>
    rw [argumentTypes, heq hresolves]
    simp only [Except.mapError, mapM_unknown (hne hresolves) hbefore hs]
  | typed hresolves htypes =>
    rw [argumentTypes, heq hresolves]
    simp only [Except.mapError, mapM_typed (hne hresolves) htypes]

/-! ## Errors that can be reported -/

/-- An error names an index that occurs. -/
theorem Resolves.error_eq {e : SpecifierError} (h : Resolves specifiers (.error e)) :
    ∃ found expected, e = .indexOutOfRange found expected ∧ Occurs specifiers found := by
  cases h with
  | belowOne _ hleast _ => exact ⟨_, _, rfl, hleast⟩
  | gap _ _ _ _ _ hfound _ => exact ⟨_, _, rfl, hfound⟩

/-- The index that was expected is one, or not greater than the one that was found. -/
theorem Resolves.writable {found expected : Int}
    (h : Resolves specifiers (.error (.indexOutOfRange found expected)))
    (hfound : IsWritable found) : IsWritable expected := by
  cases h with
  | belowOne => decide +kernel
  | gap _ hone _ _ hgap _ _ => exact hfound.of_le (by omega) (by omega)

theorem reported_ok (resolved : List Specifier) : reported (.ok resolved) = .ok resolved := rfl

theorem Resolves.reported_eq {found expected : Int}
    (h : Resolves specifiers (.error (.indexOutOfRange found expected))) :
    (reported (.error (.indexOutOfRange found expected)) :
        Except ResolutionFailure (List Specifier)) =
      if IsWritable found then .error (.rejected (.indexOutOfRange found expected))
      else .error (.unreportable .tooLong) := by
  rw [reported, Except.mapError, SpecifierError.report_indexOutOfRange h.writable]
  by_cases hfound : IsWritable found
  · rw [if_pos hfound, if_pos hfound]
  · rw [if_neg hfound, if_neg hfound]

theorem answers_resolveArguments (specifiers : List Specifier) :
    Answers specifiers (resolveArguments specifiers) := by
  have hresolves := resolves_denseArguments specifiers
  rw [resolveArguments]
  cases hdense : denseArguments specifiers with
  | ok resolved => exact .resolved (hdense ▸ hresolves)
  | error e =>
    rw [hdense] at hresolves
    obtain ⟨found, expected, rfl, -⟩ := hresolves.error_eq
    rw [hresolves.reported_eq]
    split
    · rename_i hfound
      exact .rejected hresolves hfound
    · rename_i hfound
      exact .unreportable hresolves hfound

/-- Only this answer fits a list of specifiers. -/
theorem Answers.resolveArguments_eq {result : Except ResolutionFailure (List Specifier)}
    (h : Answers specifiers result) : resolveArguments specifiers = result := by
  have hdense : ∀ {answer}, Resolves specifiers answer → denseArguments specifiers = answer :=
    fun hresolves => (resolves_denseArguments specifiers).unique hresolves
  rw [resolveArguments]
  cases h with
  | resolved hresolves => rw [hdense hresolves, reported_ok]
  | rejected hresolves hfound => rw [hdense hresolves, hresolves.reported_eq, if_pos hfound]
  | unreportable hresolves hfound => rw [hdense hresolves, hresolves.reported_eq, if_neg hfound]

/-- The indices that are written in a text have few enough digits, and where none are written the
specifiers are numbered from one on. -/
theorem scanSpecifiers_writable {text : String} (h : scanSpecifiers text = .ok specifiers) :
    (∀ s ∈ specifiers, IsWritable s.index) ∨ Dense specifiers specifiers.length := by
  cases scanSpecifiers_iff.1 h with
  | sound hsound =>
    cases hexplicit : firstExplicit (specifiersAmong (instances text)) with
    | true =>
      refine .inl fun s hs => ?_
      obtain ⟨i, hi, rfl⟩ := List.mem_mapIdx.1 hs
      have hm : (specifiersAmong (instances text))[i] ∈ specifiersAmong (instances text) :=
        List.getElem_mem hi
      obtain ⟨-, hsome, hfits⟩ := index_of_not_fault (hsound _ hm)
      rw [hexplicit] at hsome
      obtain ⟨digits, hdigits⟩ := Option.isSome_iff_exists.1 hsome
      rw [numbered, hdigits]
      exact isWritable_decimalNumber (hfits digits hdigits)
    | false =>
      refine .inr fun k => ?_
      have hindex : ∀ (i : Nat) (hi : i < (specifiersAmong (instances text)).length),
          (numbered (0 + i) (specifiersAmong (instances text))[i]).index = i + 1 := by
        intro i hi
        have hm : (specifiersAmong (instances text))[i] ∈ specifiersAmong (instances text) :=
          List.getElem_mem hi
        obtain ⟨-, hnone, -⟩ := index_of_not_fault (hsound _ hm)
        rw [hexplicit, Option.isSome_eq_false_iff, Option.isNone_iff_eq_none] at hnone
        simp [numbered, hnone]
      simp only [Occurs, List.mem_mapIdx, List.length_mapIdx]
      constructor
      · rintro ⟨_, ⟨i, hi, rfl⟩, rfl⟩
        rw [hindex i hi]
        omega
      · rintro ⟨hone, hlast⟩
        exact ⟨_, ⟨k.toNat - 1, by omega, rfl⟩, by rw [hindex]; omega⟩

theorem Dense.denseArguments_eq_ok {count : Nat} (h : Dense specifiers count) :
    ∃ resolved, denseArguments specifiers = .ok resolved := by
  have hresolves := resolves_denseArguments specifiers
  generalize denseArguments specifiers = result at hresolves
  cases hresolves with
  | dense => exact ⟨_, rfl⟩
  | belowOne hbelow hleast _ =>
    have := (h _).1 hleast
    omega
  | gap _ hone hmissing _ hgap hfound _ =>
    have := (h _).1 hfound
    exact absurd ((h _).2 (by omega)) hmissing

/-- The errors of a text's specifiers can be reported. -/
theorem resolveArguments_of_scan {text : String} (h : scanSpecifiers text = .ok specifiers) :
    resolveArguments specifiers = (denseArguments specifiers).mapError .rejected := by
  have hresolves := resolves_denseArguments specifiers
  rw [resolveArguments]
  cases hdense : denseArguments specifiers with
  | ok resolved => rfl
  | error e =>
    rw [hdense] at hresolves
    obtain ⟨found, expected, rfl, hfound⟩ := hresolves.error_eq
    rcases scanSpecifiers_writable h with hall | hnumbered
    · obtain ⟨s, hs, rfl⟩ := hfound
      rw [hresolves.reported_eq, if_pos (hall s hs)]
      rfl
    · obtain ⟨resolved, hok⟩ := hnumbered.denseArguments_eq_ok
      simp [hok] at hdense

/-! ## Main statement -/

/-- **Arguments are found by index.** What comes of a list of specifiers is what `Answers` says, and
there are arguments exactly if the indices are the numbers from one on. For a text that can be scanned
an error is reported whenever there is one, and the types are what `Types` says. Neighbours with
different indices can change places. -/
theorem arguments_by_index :
    (∀ specifiers result, resolveArguments specifiers = result ↔ Answers specifiers result) ∧
      (∀ specifiers, (∃ resolved, resolveArguments specifiers = .ok resolved) ↔
        ∃ count, Dense specifiers count) ∧
      (∀ text specifiers, scanSpecifiers text = .ok specifiers →
        (∀ e, resolveArguments specifiers ≠ .error (.unreportable e)) ∧
        ∀ result, argumentTypes text = result ↔ Types specifiers result) ∧
      ∀ before a b after, a.index ≠ b.index →
        resolveArguments (before ++ a :: b :: after) =
          resolveArguments (before ++ b :: a :: after) := by
  refine ⟨fun specifiers result => ⟨?_, ?_⟩, fun specifiers => ⟨?_, ?_⟩,
    fun text specifiers hscan => ⟨fun e => ?_, fun result => ⟨?_, Types.argumentTypes_eq hscan⟩⟩, ?_⟩
  · rintro rfl
    exact answers_resolveArguments specifiers
  · exact Answers.resolveArguments_eq
  · rintro ⟨resolved, hresolved⟩
    cases hresolved ▸ answers_resolveArguments specifiers with
    | resolved hresolves =>
      cases hresolves with
      | dense hdense _ => exact ⟨_, hdense⟩
  · rintro ⟨count, hdense⟩
    obtain ⟨resolved, hresolved⟩ := hdense.denseArguments_eq_ok
    exact ⟨resolved, by rw [resolveArguments, hresolved, reported_ok]⟩
  · rw [resolveArguments_of_scan hscan]
    cases denseArguments specifiers <;> simp [Except.mapError]
  · rintro rfl
    obtain ⟨result, htypes⟩ := exists_types specifiers
    rw [htypes.argumentTypes_eq hscan]
    exact htypes
  · intro before a b after hab
    refine congrArg reported (denseArguments_congr fun k => ?_)
    simp only [List.filter_append, List.filter_cons]
    by_cases ha : a.index = k
    · have hb : b.index ≠ k := fun hb => hab (ha.trans hb.symm)
      simp [ha, hb]
    · simp [ha]

/-- The specifiers of a text that names its second argument twice before the first. -/
theorem arguments_by_index_swapped :
    ∃ a b c, scanSpecifiers "%2$ld of %2$@ in %1$@" = .ok [a, b, c] ∧ b.index ≠ c.index ∧
      resolveArguments [a, b, c] = .ok [c, a] ∧
      resolveArguments ([a] ++ c :: b :: []) = resolveArguments ([a] ++ b :: c :: []) ∧
      Types [a, b, c] (.ok [.string, .int]) := by
  have hscan : scanSpecifiers "%2$ld of %2$@ in %1$@" = .ok
      [⟨"%2$ld", 2, true, "l", 'd', 0⟩, ⟨"%2$@", 2, true, "", '@', 9⟩,
        ⟨"%1$@", 1, true, "", '@', 17⟩] := by decide +kernel
  have hdense : denseArguments
      [⟨"%2$ld", 2, true, "l", 'd', 0⟩, ⟨"%2$@", 2, true, "", '@', 9⟩,
        ⟨"%1$@", 1, true, "", '@', 17⟩] = .ok
      [⟨"%1$@", 1, true, "", '@', 17⟩, ⟨"%2$ld", 2, true, "l", 'd', 0⟩] := by
    simp [denseArguments, List.mergeSort, List.MergeSort.Internal.splitInTwo, denseFrom]
  refine ⟨_, _, _, hscan, by decide, by rw [resolveArguments, hdense, reported_ok], ?_, ?_⟩
  · exact arguments_by_index.2.2.2 _ _ _ _ (by decide)
  · refine ((arguments_by_index.2.2.1 _ _ hscan).2 _).1 ?_
    rw [argumentTypes, parseSpecifiers, hscan]
    dsimp only
    rw [hdense]
    decide +kernel

/-- A text can be scanned and still leave out an index; and an index with too many digits cannot be
reported. -/
theorem argumentTypes_missingIndex :
    (∃ specifiers, scanSpecifiers "%2$@" = .ok specifiers) ∧
      argumentTypes "%2$@" = .error (.rejected (.indexOutOfRange 2 1)) ∧
      resolveArguments [⟨"%@", leastTooLong, true, "", '@', 0⟩] = .error (.unreportable .tooLong) := by
  have hscan : scanSpecifiers "%2$@" = .ok [⟨"%2$@", 2, true, "", '@', 0⟩] := by decide +kernel
  have hdense : ∀ s : Specifier, 1 < s.index →
      denseArguments [s] = .error (.indexOutOfRange s.index 1) := by
    intro s hs
    rw [denseArguments, List.mergeSort_singleton, denseFrom, if_neg (by omega), if_neg (by omega)]
    rfl
  have hlong : ¬IsWritable leastTooLong := by decide +kernel
  refine ⟨⟨_, hscan⟩, ?_, ?_⟩
  · rw [argumentTypes, parseSpecifiers, hscan]
    dsimp only
    rw [hdense _ (by decide)]
    rfl
  · have hresolves := resolves_denseArguments [⟨"%@", leastTooLong, true, "", '@', 0⟩]
    rw [hdense _ (by decide +kernel)] at hresolves
    exact (Answers.unreportable hresolves hlong).resolveArguments_eq

end LocalizedKeys.Format
