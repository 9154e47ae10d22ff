import LocalizedKeys.Proofs.Rewriting
import LocalizedKeys.Proofs.Spans

/-!
# The walk over the types of a forest

A stack visits every type of a forest once, an outer type before what is inside it and one
declaration before the next. What is visited is told by places: a place is the index of a
declaration, then that of one of its members, and so on inwards, so the order of the visit is the
lexicographic order of places. In a source that was read this is the order in which the types begin,
and their attributes with them.
-/

namespace LocalizedKeys

namespace Swift

/-! ## Places -/

/-- The type at a place of a forest. -/
def typeAt? : List Declaration → List Nat → Option TypeDecl
  | _, [] => none
  | ds, i :: inner =>
    match ds[i]? with
    | some (.type header members) =>
      if inner.isEmpty then some ⟨header, members⟩ else typeAt? members inner
    | _ => none

/-- A place after one more declaration has been put in front of the forest. -/
def later : List Nat → List Nat
  | [] => []
  | i :: inner => (i + 1) :: inner

mutual

/-- The places of the types in a declaration that stands first. -/
def Declaration.places : Declaration → List (List Nat)
  | .type _ members => [0] :: (places members).map (0 :: ·)
  | .cases .. => []
  | .other .. => []

/-- The places of the types of a forest. -/
def places : List Declaration → List (List Nat)
  | [] => []
  | d :: rest => d.places ++ (places rest).map later

end

/-- To prove something of all forests, prove it of a forest that begins with a type from its members
and from what follows it, and of other forests from what follows their first declaration. -/
theorem forest_induction {motive : List Declaration → Prop} (nil : motive [])
    (type : ∀ header members rest, motive members → motive rest →
      motive (.type header members :: rest))
    (cases : ∀ elements span rest, motive rest → motive (.cases elements span :: rest))
    (other : ∀ text attributes modifiers span rest, motive rest →
      motive (.other text attributes modifiers span :: rest)) :
    ∀ ds, motive ds
  | [] => nil
  | .type header members :: rest =>
    type header members rest (forest_induction nil type cases other members)
      (forest_induction nil type cases other rest)
  | .cases elements span :: rest =>
    cases elements span rest (forest_induction nil type cases other rest)
  | .other text attributes modifiers span :: rest =>
    other text attributes modifiers span rest (forest_induction nil type cases other rest)
termination_by ds => count ds
decreasing_by
  all_goals simp only [count, Declaration.count]; omega

theorem typeAt?_later (d : Declaration) (rest : List Declaration) (p : List Nat) :
    typeAt? (d :: rest) (later p) = typeAt? rest p := by
  cases p with
  | nil => rfl
  | cons i inner => rw [later, typeAt?, typeAt?, List.getElem?_cons_succ]

theorem later_lt_later {p q : List Nat} (h : p < q) : later p < later q := by
  cases q with
  | nil => exact absurd h (List.not_lt_nil p)
  | cons j q =>
    cases p with
    | nil => exact List.nil_lt_cons _ _
    | cons i p =>
      rw [List.cons_lt_cons_iff] at h
      rw [later, later, List.cons_lt_cons_iff, Nat.add_lt_add_iff_right, Nat.add_right_cancel_iff]
      exact h

/-- The places in the rest of a forest are those that do not begin in its first declaration. -/
theorem mem_map_later {rest : List Declaration}
    (h : ∀ p, p ∈ places rest ↔ (typeAt? rest p).isSome) (d : Declaration) (p : List Nat) :
    p ∈ (places rest).map later ↔ (typeAt? (d :: rest) p).isSome ∧ p.head? ≠ some 0 := by
  rw [List.mem_map]
  constructor
  · intro hp
    obtain ⟨q, hq, rfl⟩ := hp
    rw [typeAt?_later]
    refine ⟨(h q).1 hq, ?_⟩
    cases q <;> simp [later]
  · intro hp
    obtain ⟨hsome, hhead⟩ := hp
    match p with
    | [] => simp [typeAt?] at hsome
    | 0 :: inner => simp at hhead
    | (i + 1) :: inner =>
      refine ⟨i :: inner, (h _).2 ?_, rfl⟩
      rwa [← typeAt?_later d]

/-- The places are those at which there is a type. -/
theorem mem_places (ds : List Declaration) : ∀ p, p ∈ places ds ↔ (typeAt? ds p).isSome := by
  induction ds using forest_induction with
  | nil =>
    intro p
    cases p <;> simp [places, typeAt?]
  | type header members rest ihMembers ihRest =>
    intro p
    rw [places, Declaration.places, List.mem_append, List.mem_cons, List.mem_map,
      mem_map_later ihRest (.type header members)]
    match p with
    | [] => simp [typeAt?]
    | 0 :: inner =>
      -- the type itself is inside nothing, and all other places in it are those of its members
      cases inner <;> simp [typeAt?, ihMembers]
    | (i + 1) :: inner => simp
  | cases elements span rest ih =>
    intro p
    rw [places, Declaration.places, List.nil_append, mem_map_later ih (.cases elements span)]
    cases p with
    | nil => simp [typeAt?]
    | cons i inner => cases i <;> simp [typeAt?]
  | other text attributes modifiers span rest ih =>
    intro p
    rw [places, Declaration.places, List.nil_append,
      mem_map_later ih (.other text attributes modifiers span)]
    cases p with
    | nil => simp [typeAt?]
    | cons i inner => cases i <;> simp [typeAt?]

theorem ne_nil_of_mem_places {ds : List Declaration} {p : List Nat} (h : p ∈ places ds) :
    p ≠ [] := by
  intro hp
  rw [hp, mem_places] at h
  simp [typeAt?] at h

/-- The places come in their order. -/
theorem pairwise_places (ds : List Declaration) : (places ds).Pairwise (· < ·) := by
  have hlater : ∀ {rest : List Declaration}, (places rest).Pairwise (· < ·) →
      ((places rest).map later).Pairwise (· < ·) := by
    intro rest h
    exact List.pairwise_map.2 (h.imp later_lt_later)
  induction ds using forest_induction with
  | nil => exact .nil
  | type header members rest ihMembers ihRest =>
    have hinner : ((places members).map (0 :: ·)).Pairwise (· < ·) := by
      refine List.pairwise_map.2 (ihMembers.imp ?_)
      intro p q hlt
      exact List.cons_lt_cons_iff.2 (.inr ⟨rfl, hlt⟩)
    have houter : ∀ p ∈ (places members).map (0 :: ·), [0] < p := by
      intro p hp
      obtain ⟨q, hq, rfl⟩ := List.mem_map.1 hp
      obtain ⟨i, inner, rfl⟩ := List.exists_cons_of_ne_nil (ne_nil_of_mem_places hq)
      exact List.cons_lt_cons_iff.2 (.inr ⟨rfl, List.nil_lt_cons _ _⟩)
    rw [places, Declaration.places, List.pairwise_append, List.pairwise_cons]
    refine ⟨⟨houter, hinner⟩, hlater ihRest, ?_⟩
    intro p hp q hq
    have hfirst : ∃ inner, p = 0 :: inner := by
      rcases List.mem_cons.1 hp with rfl | hp
      · exact ⟨[], rfl⟩
      · obtain ⟨inner, -, rfl⟩ := List.mem_map.1 hp
        exact ⟨inner, rfl⟩
    obtain ⟨inner, rfl⟩ := hfirst
    obtain ⟨q', hq', rfl⟩ := List.mem_map.1 hq
    obtain ⟨i, inner', rfl⟩ := List.exists_cons_of_ne_nil (ne_nil_of_mem_places hq')
    exact List.cons_lt_cons_iff.2 (.inl (Nat.succ_pos i))
  | cases elements span rest ih => exact hlater ih
  | other text attributes modifiers span rest ih => exact hlater ih

/-- The types at the places are those of the forest, in its order. -/
theorem map_typeAt?_places (ds : List Declaration) :
    (places ds).map (typeAt? ds) = (types ds).map some := by
  have hlater : ∀ (d : Declaration) {rest : List Declaration},
      (places rest).map (typeAt? rest) = (types rest).map some →
      ((places rest).map later).map (typeAt? (d :: rest)) = (types rest).map some := by
    intro d rest h
    rw [List.map_map, ← h]
    exact List.map_congr_left fun p _ => typeAt?_later d rest p
  induction ds using forest_induction with
  | nil => rfl
  | type header members rest ihMembers ihRest =>
    have hinner : ((places members).map (0 :: ·)).map (typeAt? (.type header members :: rest))
        = (types members).map some := by
      rw [List.map_map, ← ihMembers]
      refine List.map_congr_left fun p hp => ?_
      obtain ⟨i, inner, rfl⟩ := List.exists_cons_of_ne_nil (ne_nil_of_mem_places hp)
      rfl
    rw [places, Declaration.places, List.map_append, List.map_cons, hinner, hlater _ ihRest, types,
      Declaration.types, List.map_append, List.map_cons]
    rfl
  | cases elements span rest ih => exact hlater _ ih
  | other text attributes modifiers span rest ih => exact hlater _ ih

/-! ## The stack the other way round -/

theorem count_reverse (ds : List Declaration) : count ds.reverse = count ds := by
  induction ds with
  | nil => rfl
  | cons d rest ih =>
    rw [List.reverse_cons, count_append, ih, count, count, count]
    omega

/-- The types found with a stack that has its top at the end: the members of a type are put there in
reverse. -/
def walkBack (stack : List Declaration) : List TypeDecl :=
  match _h : stack.getLast? with
  | none => []
  | some (.type header members) =>
    ⟨header, members⟩ :: walkBack (stack.dropLast ++ members.reverse)
  | some (.cases ..) => walkBack stack.dropLast
  | some (.other ..) => walkBack stack.dropLast
termination_by count stack
decreasing_by
  all_goals
    obtain ⟨rest, rfl⟩ := List.getLast?_eq_some_iff.1 _h
    simp only [List.dropLast_concat, count_append, count_reverse, count, Declaration.count]
    omega

theorem walkBack_reverse (ds : List Declaration) : walkBack ds.reverse = walk ds := by
  induction ds using walk.induct with
  | case1 => simp [walkBack, walk]
  | case2 header members rest ih =>
    rw [List.reverse_append] at ih
    rw [walkBack, walk, List.getLast?_reverse, List.head?_cons, List.dropLast_reverse,
      List.tail_cons]
    exact congrArg _ ih
  | case3 elements span rest ih =>
    rw [walkBack, walk, List.getLast?_reverse, List.head?_cons, List.dropLast_reverse,
      List.tail_cons]
    exact ih
  | case4 text attributes modifiers span rest ih =>
    rw [walkBack, walk, List.getLast?_reverse, List.head?_cons, List.dropLast_reverse,
      List.tail_cons]
    exact ih

/-! ## The order in the source -/

variable {source : List Char} {lo hi : Nat} {ds : List Declaration}

/-- The types of a forest that is laid out between two offsets lie between them, from their first
character to the brace that opens them. -/
theorem Laid.types_between (h : Laid source lo ds hi) :
    ∀ t ∈ Swift.types ds, lo ≤ t.span.start ∧ t.span.start ≤ t.body.start ∧ t.body.start < hi := by
  induction h with
  | nil _ => simp [Swift.types]
  | cases hfill hlt hds ih =>
    intro t ht
    have hle := hfill.le
    have ht := ih t (by simpa [Swift.types, Declaration.types] using ht)
    omega
  | other hfill hlt hds ih =>
    intro t ht
    have hle := hfill.le
    have ht := ih t (by simpa [Swift.types, Declaration.types] using ht)
    omega
  | type hfill hheader hmembers hds ihMembers ih =>
    intro t ht
    have hfirst := hfill.le
    have hlast := hds.le
    have hstarts := hheader.startsFirst
    have hcloses := hheader.closesLater
    have hends := hheader.ends
    rw [Swift.types, Declaration.types, List.cons_append, List.mem_cons, List.mem_append] at ht
    rcases ht with rfl | ht | ht
    · dsimp only
      omega
    · have := ihMembers t ht
      omega
    · have := ih t ht
      omega

/-- The brace that opens a type comes before the types that are visited after it. -/
theorem Laid.types_ordered (h : Laid source lo ds hi) :
    (Swift.types ds).Pairwise fun t u => t.body.start < u.span.start := by
  induction h with
  | nil _ => exact .nil
  | cases _ _ _ ih => simpa [Swift.types, Declaration.types] using ih
  | other _ _ _ ih => simpa [Swift.types, Declaration.types] using ih
  | type hfill hheader hmembers hds ihMembers ih =>
    have hcloses := hheader.closesLater
    have hends := hheader.ends
    rw [Swift.types, Declaration.types, List.cons_append, List.pairwise_cons, List.pairwise_append]
    refine ⟨fun u hu => ?_, ihMembers, ih, fun t ht u hu => ?_⟩
    · rcases List.mem_append.1 hu with hu | hu
      · have := hmembers.types_between u hu
        dsimp only
        omega
      · have := hds.types_between u hu
        dsimp only
        omega
    · have := hmembers.types_between t ht
      have := hds.types_between u hu
      omega

/-- The attributes of a type come before those of the types that are visited after it. -/
theorem Laid.attributes_ordered (h : Laid source lo ds hi) :
    (Swift.types ds).Pairwise fun t u => ∀ a ∈ t.attributes, ∀ b ∈ u.attributes,
      a.span.start < b.span.start := by
  refine h.types_ordered.imp_of_mem ?_
  intro t u ht hu hlt a ha b hb
  have hfirst := (h.types t ht).1.attributesPlaced a ha
  have hsecond := (h.types u hu).1.attributesPlaced b hb
  omega

end Swift

namespace Expansion

open Swift

variable {source : List Char} {options : Options} {limits : Limits}

/-- The annotations are in the order of the types that have them. -/
theorem annotated_ordered {ds : List Declaration} (h : readSource limits source = .ok ds) :
    (annotated ds).Pairwise fun p q => p.2.span.start < q.2.span.start := by
  rw [annotated_eq]
  refine List.Pairwise.filterMap _ ?_ (laid_of_readSource h).attributes_ordered
  intro t u hlt p hp q hq
  obtain ⟨a, ha, rfl⟩ := Option.map_eq_some_iff.1 hp
  obtain ⟨b, hb, rfl⟩ := Option.map_eq_some_iff.1 hq
  exact hlt a (List.mem_of_find?_eq_some ha) b (List.mem_of_find?_eq_some hb)

/-- A result tells where the annotation is. -/
theorem location_of_resultFor {table : LineTable} {t : TypeDecl} {a : Attribute} {r : TypeResult}
    (h : resultFor table options t a = .ok r) : r.location = table.location a.span := by
  rw [resultFor] at h
  split at h
  · simp at h
  · rw [← Except.ok.inj h]

/-- The results of a report are where the annotations of its source are. -/
theorem locations_of_expandSource {ds : List Declaration} {report : Report}
    (hread : readSource limits source = .ok ds)
    (h : expandSource options limits source = .ok report) :
    report.results.map TypeResult.location
      = (annotated ds).map fun p => (LineTable.ofText source).location p.2.span := by
  obtain ⟨edits, hall, -⟩ := (expandSource_iff hread).1 h
  have hresults := (expandAll_iff.1 hall).1
  clear hall
  generalize annotated ds = ts, report.results = results at hresults ⊢
  induction hresults with
  | nil => rfl
  | cons hr _ ih => rw [List.map_cons, List.map_cons, location_of_resultFor hr, ih]

/-- **Every type is visited once, in the order of the source.** The stack gives the types of any
forest as the tree has them, which is one type for each place where there is one and the places in
their order. In a source that was read they begin one after the other, and the results of its
expansion are where the annotations are, one after the other. -/
theorem walk_inOrder :
    (∀ ds : List Declaration, walkBack ds.reverse = walk ds ∧ walk ds = types ds ∧
      ∃ ps : List (List Nat), ps.Pairwise (· < ·) ∧ (∀ p, p ∈ ps ↔ (typeAt? ds p).isSome) ∧
        ps.map (typeAt? ds) = (walk ds).map some) ∧
      ∀ (limits : Limits) (source : List Char) (ds : List Declaration),
        readSource limits source = .ok ds →
        ((walk ds).Pairwise fun t u => t.span.start < u.span.start) ∧
          ∀ (options : Options) (report : Report),
            expandSource options limits source = .ok report →
            report.results.map TypeResult.location
                = (annotated ds).map (fun p => (LineTable.ofText source).location p.2.span) ∧
              report.results.Pairwise fun r s => r.location.start < s.location.start := by
  refine ⟨fun ds => ⟨walkBack_reverse ds, walk_eq_types ds, places ds, pairwise_places ds,
    mem_places ds, ?_⟩, fun limits source ds hread => ⟨?_, fun options report hreport => ?_⟩⟩
  · rw [walk_eq_types]
    exact map_typeAt?_places ds
  · have hlaid := laid_of_readSource hread
    rw [walk_eq_types]
    refine hlaid.types_ordered.imp_of_mem ?_
    intro t u ht _ hlt
    have hbetween := hlaid.types_between t ht
    omega
  · have hlocations := locations_of_expandSource hread hreport
    refine ⟨hlocations, ?_⟩
    rw [← List.pairwise_map (f := TypeResult.location) (R := fun l m => l.start < m.start),
      hlocations]
    exact List.pairwise_map.2 (annotated_ordered hread)

/-- Two annotated types inside others, among cases, functions and a type without an annotation. -/
def forestSource : List Char :=
  "@objc struct A {
  func f() { }
  @LocalizedStrings() enum B {
    enum Strings { case a }
  }
  enum C { case c }
}
@LocalizedStrings() enum D { enum Strings { case d } }
".toList

theorem walk_inOrder_forestSource :
    ∃ ds report, readSource {} forestSource = .ok ds ∧ (walk ds).length = 6 ∧
      ((walk ds).Pairwise fun t u => t.span.start < u.span.start) ∧
      expandSource {} {} forestSource = .ok report ∧
      report.results.map (fun r => r.location.start) = [34, 117] ∧
      report.results.Pairwise fun r s => r.location.start < s.location.start := by
  have hcount : (readSource {} forestSource).toOption.any (fun ds => (types ds).length == 6)
      = true := by decide +kernel
  have hoptions : ({} : Options).error? = none := by decide +kernel
  obtain ⟨ds, report, hread, hreport, hstarts⟩ := @exists_report_map forestSource {} {} _
    (fun r => r.location.start) [34, 117] hoptions (by decide +kernel)
  obtain ⟨hforests, hsources⟩ := walk_inOrder
  obtain ⟨htypes, hreports⟩ := hsources {} forestSource ds hread
  obtain ⟨-, hresults⟩ := hreports {} report hreport
  refine ⟨ds, report, hread, ?_, htypes, hreport, hstarts, hresults⟩
  rw [hread] at hcount
  rw [(hforests ds).2.1]
  exact beq_iff_eq.1 hcount

end Expansion

end LocalizedKeys
