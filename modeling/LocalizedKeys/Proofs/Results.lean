import LocalizedKeys.Expansion.Report
import Mathlib.Data.List.Forall2

/-!
# The results of an expansion

The types of a source are walked with a stack, but what is found is what the tree says: the types
in the order in which they open. There is one result for each of them that has an annotation, and
the edits are those of the results one after the other.
-/

namespace LocalizedKeys

namespace Swift

theorem types_append (ds es : List Declaration) : types (ds ++ es) = types ds ++ types es := by
  induction ds with
  | nil => rfl
  | cons d rest ih => simp only [List.cons_append, types, ih, List.append_assoc]

/-- The stack gives the types in the order of the tree. -/
theorem walk_eq_types (ds : List Declaration) : walk ds = types ds := by
  induction ds using walk.induct with
  | case1 => simp [walk, types]
  | case2 header members rest ih =>
    rw [walk, ih, types_append, types, Declaration.types, List.cons_append]
  | case3 elements span rest ih => rw [walk, ih, types, Declaration.types, List.nil_append]
  | case4 text attributes modifiers span rest ih =>
    rw [walk, ih, types, Declaration.types, List.nil_append]

theorem mem_types {ds : List Declaration} {header : TypeHeader} {members : List Declaration}
    (h : .type header members ∈ ds) : ⟨header, members⟩ ∈ types ds := by
  induction ds with
  | nil => simp at h
  | cons d rest ih =>
    rw [types, List.mem_append]
    rcases List.mem_cons.1 h with rfl | h
    · exact .inl (List.mem_cons_self ..)
    · exact .inr (ih h)

/-- What is inside a type of a forest is in the forest. -/
theorem mem_types_of_member {ds : List Declaration} {t : TypeDecl} {header : TypeHeader}
    {members : List Declaration} (ht : t ∈ types ds) (h : .type header members ∈ t.members) :
    ⟨header, members⟩ ∈ types ds := by
  induction ds using walk.induct with
  | case1 => simp [types] at ht
  | case2 header' members' rest ih =>
    rw [types_append] at ih
    rw [types, Declaration.types, List.cons_append, List.mem_cons] at ht ⊢
    rcases ht with rfl | ht
    · exact .inr (List.mem_append_left _ (mem_types h))
    · exact .inr (ih ht)
  | case3 elements span rest ih =>
    rw [types, Declaration.types, List.nil_append] at ht ⊢
    exact ih ht
  | case4 text attributes modifiers span rest ih =>
    rw [types, Declaration.types, List.nil_append] at ht ⊢
    exact ih ht

end Swift

namespace Expansion

open Swift

theorem annotated_eq (ds : List Declaration) :
    annotated ds = (types ds).filterMap fun t => (annotation? t).map fun a => (t, a) := by
  rw [annotated, walk_eq_types]

theorem mem_annotated {ds : List Declaration} {t : TypeDecl} {a : Attribute} :
    (t, a) ∈ annotated ds ↔ t ∈ types ds ∧ annotation? t = some a := by
  rw [annotated_eq, List.mem_filterMap]
  constructor
  · rintro ⟨t', ht, h⟩
    obtain ⟨a', ha, hpair⟩ := Option.map_eq_some_iff.1 h
    obtain ⟨rfl, rfl⟩ := Prod.mk.inj hpair
    exact ⟨ht, ha⟩
  · rintro ⟨ht, ha⟩
    exact ⟨t, ht, by rw [ha, Option.map_some]⟩

variable {source : List Char} {table : LineTable} {options : Options}

/-- All types are expanded if each of them has a result, and then the results come in the order
of the types. -/
theorem expandAll_iff {ts : List (TypeDecl × Attribute)} {results : List TypeResult}
    {edits : List Edit} :
    expandAll source table options ts = .ok (results, edits) ↔
      List.Forall₂ (fun p r => resultFor table options p.1 p.2 = .ok r) ts results ∧
        edits = (ts.zip results).flatMap fun p => editsFor source options p.1.1 p.1.2 p.2 := by
  induction ts generalizing results edits with
  | nil =>
    rw [expandAll, Except.ok.injEq, Prod.mk.injEq]
    constructor
    · rintro ⟨rfl, rfl⟩
      exact ⟨.nil, rfl⟩
    · rintro ⟨hresults, rfl⟩
      cases hresults
      exact ⟨rfl, rfl⟩
  | cons p rest ih =>
    obtain ⟨t, a⟩ := p
    rw [expandAll]
    constructor
    · intro h
      split at h
      · simp at h
      · rename_i r hr
        split at h
        · simp at h
        · rename_i others editsRest hrest
          obtain ⟨rfl, rfl⟩ := Prod.mk.inj (Except.ok.inj h)
          obtain ⟨hothers, rfl⟩ := ih.1 hrest
          exact ⟨.cons hr hothers, rfl⟩
    · rintro ⟨hresults, rfl⟩
      cases hresults with
      | cons hr hothers =>
        rename_i r others
        have hr : resultFor table options t a = .ok r := hr
        rw [hr, ih.2 ⟨hothers, rfl⟩]
        rfl

/-- There are results exactly if there is one for each type. -/
theorem expandAll_isOk_iff {ts : List (TypeDecl × Attribute)} :
    (∃ results edits, expandAll source table options ts = .ok (results, edits)) ↔
      ∀ t a, (t, a) ∈ ts → ∃ r, resultFor table options t a = .ok r := by
  constructor
  · rintro ⟨results, edits, hall⟩ t a hmem
    have hresults := (expandAll_iff.1 hall).1
    clear hall
    induction hresults with
    | nil => simp at hmem
    | cons hr _ ih =>
      rcases List.mem_cons.1 hmem with rfl | hmem
      · exact ⟨_, hr⟩
      · exact ih hmem
  · intro h
    induction ts with
    | nil => exact ⟨[], [], rfl⟩
    | cons p rest ih =>
      obtain ⟨t, a⟩ := p
      obtain ⟨r, hr⟩ := h t a (List.mem_cons_self ..)
      obtain ⟨results, edits, hrest⟩ := ih fun t a hmem => h t a (List.mem_cons_of_mem _ hmem)
      exact ⟨r :: results, editsFor source options t a r ++ edits, by rw [expandAll, hr, hrest]⟩

/-- A report has the results of all annotated types, and the source with their edits applied. -/
theorem expandSource_iff {limits : Limits} {ds : List Declaration} {report : Report}
    (hread : readSource limits source = .ok ds) :
    expandSource options limits source = .ok report ↔
      ∃ edits, expandAll source (.ofText source) options (annotated ds)
          = .ok (report.results, edits) ∧ applyEdits source edits = .ok report.expanded := by
  rw [expandSource, hread]
  dsimp only
  constructor
  · intro h
    split at h
    · simp at h
    · rename_i results edits hall
      split at h
      · simp at h
      · rename_i expanded hexpanded
        obtain rfl := Except.ok.inj h
        exact ⟨edits, hall, hexpanded⟩
  · rintro ⟨edits, hall, hexpanded⟩
    rw [hall]
    dsimp only
    rw [hexpanded]

end Expansion

end LocalizedKeys
