import LocalizedKeys.Diagnostic.Template
import LocalizedKeys.Proofs.Located

/-!
# The nesting limit

A limit on the nesting of types decides one thing only: whether a type that has as many types
around it as the limit allows may begin. So a source that is read under some limit is read to the
same declarations under every limit that its types keep, and under all others reading stops at the
first type that is nested too deeply.

The reader has a number of levels that goes down with every body. `Counting` is the same reader
with a counter instead, which goes up at the opening brace of a body and down behind its members,
and which is checked against the limit where a type begins. The two agree, and a reading that ends
well leaves the counter as it found it.
-/

namespace LocalizedKeys.Swift

variable {limit limit' : Int} {levels levels' : Nat} {closing : Option Char} {c c' : Cursor}
  {ds : List Declaration}

/-! ## The types of a forest and its depth -/

theorem depths_cons (o : Outline) (os : List Outline) :
    depths (o :: os) = max o.depth (depths os) := rfl

theorem ReadsLeaf.depth {d : Declaration} (h : ReadsLeaf c d c') : d.outline.depth = 0 := by
  cases h with
  | other _ _ _ hother =>
    unfold readOther at hother
    split at hother
    · simp at hother
    · split at hother
      · simp at hother
      · obtain ⟨rfl, -⟩ := Prod.mk.inj (Except.ok.inj hother)
        rfl
  | cases _ _ _ hcases =>
    unfold readCases at hcases
    split at hcases
    · simp at hcases
    · obtain ⟨rfl, -⟩ := Prod.mk.inj (Except.ok.inj hcases)
      rfl

/-- Types are nested at most as deep as there are levels. -/
theorem Reads.depths_le (h : Reads limit levels closing c ds c') :
    depths (outlines ds) ≤ levels := by
  induction h with
  | done => exact Nat.zero_le _
  | semicolon _ _ _ _ ih => exact ih
  | leaf _ _ hleaf _ _ ih =>
    rw [outlines, depths_cons, hleaf.depth]
    exact Nat.max_le.2 ⟨Nat.zero_le _, ih⟩
  | type _ _ _ _ _ _ ihMembers ih =>
    rw [outlines, depths_cons, Declaration.outline, Outline.depth]
    exact Nat.max_le.2 ⟨Nat.succ_le_succ ihMembers, ih⟩

/-! ## Limits that are kept -/

/-- Levels that are not used make no difference. -/
theorem Reads.of_depths_le (h : Reads limit levels closing c ds c')
    (hdepth : depths (outlines ds) ≤ levels') : Reads limit' levels' closing c ds c' := by
  induction h generalizing levels' with
  | done htrivia hclosing => exact .done htrivia hclosing
  | semicolon htrivia hclosing hsemicolon _ ih =>
    exact .semicolon htrivia hclosing hsemicolon (ih hdepth)
  | leaf htrivia hat hleaf hshorter _ ih =>
    rw [outlines, depths_cons] at hdepth
    exact .leaf htrivia hat hleaf hshorter (ih (Nat.max_le.1 hdepth).2)
  | type htrivia hat hopening hshorter _ _ ihMembers ih =>
    rw [outlines, depths_cons, Declaration.outline, Outline.depth] at hdepth
    obtain ⟨hmembers, hrest⟩ := Nat.max_le.1 hdepth
    -- a type uses up a level, so there is one
    obtain ⟨levels', rfl⟩ := Nat.exists_eq_add_of_le' (Nat.le_trans (Nat.le_add_left 1 _) hmembers)
    exact .type htrivia hat hopening hshorter (ihMembers (Nat.le_of_succ_le_succ hmembers))
      (ih hrest)

/-! ## Limits that are not kept -/

theorem readDeclarations_error {read : Cursor → Except Failure (Declaration × Cursor)}
    {c₁ : Cursor} {f : Failure} (htrivia : skipTrivia c = .ok c₁) (hat : AtDeclaration closing c₁)
    (hd : read c₁ = .error f) : readDeclarations closing read c = .error f := by
  rw [readDeclarations]
  split
  · rename_i heq
    simp [htrivia] at heq
  · rename_i heq
    obtain rfl := Except.ok.inj (htrivia.symm.trans heq)
    rw [if_neg hat.notClosing, dif_neg hat.notEnd, if_neg hat.notSemicolon, hd]

theorem readDeclarations_error_after {read : Cursor → Except Failure (Declaration × Cursor)}
    {c₁ c₂ : Cursor} {d : Declaration} {f : Failure} (htrivia : skipTrivia c = .ok c₁)
    (hat : AtDeclaration closing c₁) (hd : read c₁ = .ok (d, c₂))
    (hshorter : c₂.rest.length < c₁.rest.length)
    (hrest : readDeclarations closing read c₂ = .error f) :
    readDeclarations closing read c = .error (f.after d) := by
  rw [readDeclarations]
  split
  · rename_i heq
    simp [htrivia] at heq
  · rename_i heq
    obtain rfl := Except.ok.inj (htrivia.symm.trans heq)
    rw [if_neg hat.notClosing, dif_neg hat.notEnd, if_neg hat.notSemicolon, hd]
    simp only [dif_pos hshorter, hrest]

/-- With no level left a type fails at its keyword, whatever comes behind it. -/
theorem ReadsOpening.run_zero {kind : TypeKind} {name : String} {attributes : List Attribute}
    {modifiers inheritance : List String} {brace : Cursor}
    (h : ReadsOpening c kind name attributes modifiers inheritance brace) (limit : Int) :
    ∃ stop, readDeclaration limit 0 c = .error (.of (.nestingTooDeep limit c.pos stop)) := by
  obtain ⟨c₁, c₂, after, hattributes, hmodifiers, hlead, -⟩ := h
  exact ⟨after.pos, by
    simp [readDeclaration, readDeclarationWith, bind, Except.bind, mapError_ok, throw, throwThe,
      MonadExceptOf.throw, *]⟩

/-- A failure in the body of a type is one of the type. -/
theorem ReadsOpening.run_error {kind : TypeKind} {name : String} {attributes : List Attribute}
    {modifiers inheritance : List String} {brace : Cursor} {f : Failure}
    (h : ReadsOpening c kind name attributes modifiers inheritance brace)
    (hbody : readBody limit levels (brace.advance 1) = .error f) :
    readDeclaration limit (levels + 1) c = .error f.insideBody := by
  obtain ⟨c₁, c₂, after, hattributes, hmodifiers, hlead, hafter⟩ := h
  unfold readBody at hbody
  simp [readDeclaration, readDeclarationWith, bind, Except.bind, mapError_ok, mapError_error, *]

/-- Where types are nested deeper than there are levels, reading stops at one that is, and it
does so before anything behind its keyword is looked at. -/
theorem Reads.error_of_lt_depths (h : Reads limit levels closing c ds c')
    (hdepth : levels' < depths (outlines ds)) :
    ∃ f stop, readDeclarations closing (readDeclaration limit' levels') c = .error f ∧
      ∃ t ∈ types ds, f.cause = .nestingTooDeep limit' t.span.start stop := by
  induction h generalizing levels' with
  | done => exact absurd hdepth (Nat.not_lt_zero _)
  | semicolon htrivia hclosing hsemicolon _ ih =>
    rw [readDeclarations_semicolon htrivia hclosing hsemicolon]
    exact ih hdepth
  | @leaf _ _ _ _ _ _ d ds htrivia hat hleaf hshorter _ ih =>
    rw [outlines, depths_cons, hleaf.depth, Nat.zero_max] at hdepth
    obtain ⟨f, stop, hrest, t, ht, hcause⟩ := ih hdepth
    exact ⟨f.after d, stop,
      readDeclarations_error_after htrivia hat (hleaf.run_levels limit' levels') hshorter hrest, t,
      List.mem_append_right _ ht, hcause⟩
  | @type levels _ _ _ _ _ _ _ _ _ _ _ members ds htrivia hat hopening hshorter hmembers _
      ihMembers ih =>
    rw [outlines, depths_cons, Declaration.outline, Outline.depth] at hdepth
    cases levels' with
    | zero =>
      obtain ⟨stop, hd⟩ := hopening.run_zero limit'
      exact ⟨_, stop, readDeclarations_error htrivia hat hd, _, List.mem_cons_self .., rfl⟩
    | succ levels' =>
      by_cases hinside : levels' < depths (outlines members)
      · obtain ⟨f, stop, hbody, t, ht, hcause⟩ := @ihMembers levels' hinside
        exact ⟨f.insideBody, stop, readDeclarations_error htrivia hat (hopening.run_error hbody),
          t, List.mem_append_left _ (List.mem_cons_of_mem _ ht), hcause⟩
      · -- the type itself keeps the limit, so one behind it does not
        have hbehind : levels' + 1 < depths (outlines ds) := by omega
        obtain ⟨f, stop, hrest, t, ht, hcause⟩ := ih hbehind
        have hbody : Reads limit' levels' _ _ _ _ :=
          hmembers.of_depths_le (Nat.not_lt.1 hinside)
        exact ⟨_, stop, readDeclarations_error_after htrivia hat (hopening.run hbody.run) hshorter
          hrest, t, List.mem_append_right _ ht, hcause⟩

/-! ## The reader with a counter -/

/-- What comes of a reading, well or badly, and where the counter stands then. -/
abbrev Counted (α : Type) := Except SyntaxError α × Int

namespace Counting

mutual

/-- The declaration at a cursor, and the place after it; `depth` bodies are open. -/
def readDeclaration (limit depth : Int) (start : Cursor) : Counted (Declaration × Cursor) :=
  match _hattributes : readAttributes start with
  | .error e => (.error e, depth)
  | .ok (attributes, c₁) =>
    match _hmodifiers : readModifiers c₁ with
    | .error e => (.error e, depth)
    | .ok (modifiers, c₂) =>
      match _hlead : lead c₂ with
      | .other => (readOther start attributes modifiers c₂, depth)
      | .cases after => (readCases start.pos after, depth)
      | .type kind after =>
        if limit ≤ depth then (.error (.nestingTooDeep limit start.pos after.pos), depth)
        else
          match _hopening : readTypeOpening after with
          | .error e => (.error e, depth)
          | .ok ((name, inheritance), brace) =>
            match readDeclarations (some '}') limit (depth + 1) (brace.advance 1) with
            | (.error e, depth') => (.error e, depth')
            | (.ok (members, close), depth') =>
              let c' := close.advance 1
              let header : TypeHeader :=
                { kind, name, attributes, modifiers, inheritance,
                  span := ⟨start.pos, c'.pos⟩, body := ⟨brace.pos, c'.pos⟩ }
              (.ok (.type header members, c'), depth' - 1)
termination_by (start.rest.length, 0)
decreasing_by
  exact .left _ _
    (ReadsOpening.body_shorter ⟨_, _, _, _hattributes, _hmodifiers, _hlead, _hopening⟩)

/-- The declarations from a cursor up to the character `closing`, or to the end of the text for
`none`, and the place reached; `depth` bodies are open. -/
def readDeclarations (closing : Option Char) (limit depth : Int) (c : Cursor) :
    Counted (List Declaration × Cursor) :=
  match _htrivia : skipTrivia c with
  | .error e => (.error e, depth)
  | .ok c₁ =>
    if c₁.next? = closing then (.ok ([], c₁), depth)
    else if _hend : c₁.rest = [] then (.error (expected c₁ (.mark '}')), depth)
    else if c₁.next? = some ';' then readDeclarations closing limit depth (c₁.advance 1)
    else
      match readDeclaration limit depth c₁ with
      | (.error e, depth') => (.error e, depth')
      | (.ok (d, c₂), depth') =>
        if _hshorter : c₂.rest.length < c₁.rest.length then
          match readDeclarations closing limit depth' c₂ with
          | (.error e, depth'') => (.error e, depth'')
          | (.ok (others, c₃), depth'') => (.ok (d :: others, c₃), depth'')
        else (.error (expected c₁ .declaration), depth')
termination_by (c.rest.length, 1)
decreasing_by
  · exact .left _ _ (semicolon_shorter _htrivia _hend)
  · have hle := skipTrivia_length_le _htrivia
    rcases Nat.lt_or_eq_of_le hle with hlt | heq
    · exact .left _ _ hlt
    · rw [heq]
      exact .right _ Nat.zero_lt_one
  · exact .left _ _ (Nat.lt_of_lt_of_le _hshorter (skipTrivia_length_le _htrivia))

end

/-- The counter at the end of a reading that began at `depth`: back there if it ends well, and
with the bodies that are still open if it does not. -/
def finish {α : Type} (depth : Int) : Except Failure α → Counted α
  | .ok a => (.ok a, depth)
  | .error f => (.error f.cause, depth + f.openBodies)

variable {depth depth' : Int}

theorem finish_failure {α : Type} (depth : Int) (r : Except SyntaxError α) :
    finish depth (r.mapError Failure.of) = (r, depth) := by
  cases r with
  | error e => exact congrArg (Prod.mk _) (Int.add_zero depth)
  | ok a => rfl

theorem finish_insideBody {α : Type} (depth : Int) (f : Failure) :
    finish depth (.error f.insideBody : Except Failure α) = finish (depth + 1) (.error f) := by
  simp only [finish, Failure.insideBody]
  rw [Int.natCast_add, Int.add_assoc, Int.add_comm 1]
  rfl

/-- A declaration is read alike with the counter if the bodies in it are. -/
theorem readDeclaration_eq_finish {body? : Option BodyReader} (c : Cursor)
    (hnone : body? = none → limit ≤ depth)
    (hsome : ∀ body, body? = some body → depth < limit ∧
      ∀ c, readDeclarations (some '}') limit (depth + 1) c = finish (depth + 1) (body c)) :
    readDeclaration limit depth c = finish depth (readDeclarationWith limit body? c) := by
  rw [readDeclaration]
  unfold readDeclarationWith
  simp only [bind, Except.bind]
  split
  · rename_i e hattributes
    rw [hattributes]
    exact (finish_failure depth (.error e)).symm
  · rename_i attributes c₁ hattributes
    rw [hattributes]
    dsimp only [mapError_ok]
    split
    · rename_i e hmodifiers
      rw [hmodifiers]
      exact (finish_failure depth (.error e)).symm
    · rename_i modifiers c₂ hmodifiers
      rw [hmodifiers]
      dsimp only [mapError_ok]
      split
      · rename_i hlead
        rw [hlead]
        exact (finish_failure depth _).symm
      · rename_i hlead
        rw [hlead]
        exact (finish_failure depth _).symm
      · rename_i kind after hlead
        rw [hlead]
        dsimp only
        cases body? with
        | none =>
          rw [if_pos (hnone rfl)]
          exact (finish_failure depth (.error _)).symm
        | some body =>
          obtain ⟨hlt, hbody⟩ := hsome body rfl
          rw [if_neg (Int.not_le.2 hlt)]
          split
          · rename_i e hopening
            rw [hopening]
            exact (finish_failure depth (.error e)).symm
          · rename_i name inheritance brace hopening
            rw [hopening, hbody]
            dsimp only [mapError_ok]
            cases hmembers : body (brace.advance 1) with
            | error f =>
              exact (finish_insideBody depth f).symm
            | ok r => 
              simp only [finish, mapError_ok, Int.add_sub_cancel]
              rfl

theorem readDeclarations_eq {c₁ : Cursor} (htrivia : skipTrivia c = .ok c₁) :
    readDeclarations closing limit depth c =
      if c₁.next? = closing then (.ok ([], c₁), depth)
      else if c₁.rest = [] then (.error (expected c₁ (.mark '}')), depth)
      else if c₁.next? = some ';' then readDeclarations closing limit depth (c₁.advance 1)
      else
        match readDeclaration limit depth c₁ with
        | (.error e, depth') => (.error e, depth')
        | (.ok (d, c₂), depth') =>
          if c₂.rest.length < c₁.rest.length then
            match readDeclarations closing limit depth' c₂ with
            | (.error e, depth'') => (.error e, depth'')
            | (.ok (others, c₃), depth'') => (.ok (d :: others, c₃), depth'')
          else (.error (expected c₁ .declaration), depth') := by
  conv => lhs; rw [readDeclarations]
  split
  · rename_i heq
    simp [htrivia] at heq
  · rename_i heq
    obtain rfl := Except.ok.inj (htrivia.symm.trans heq)
    rfl

/-- Bodies and whole sources are read alike with the counter if declarations are. -/
theorem readDeclarations_eq_finish {read : Cursor → Except Failure (Declaration × Cursor)}
    (hread : ∀ c, readDeclaration limit depth c = finish depth (read c)) (c : Cursor) :
    readDeclarations closing limit depth c =
      finish depth (Swift.readDeclarations closing read c) := by
  fun_induction Swift.readDeclarations closing read c with
  | case1 c e htrivia =>
    rw [readDeclarations]
    split
    · rename_i heq
      rw [Except.error.inj (htrivia.symm.trans heq)]
      exact (finish_failure depth (.error _)).symm
    · rename_i heq
      simp [htrivia] at heq
  | case2 c c₁ htrivia hclosing =>
    rw [readDeclarations_eq htrivia, if_pos hclosing]
    rfl
  | case3 c c₁ htrivia hclosing hend =>
    rw [readDeclarations_eq htrivia, if_neg hclosing, if_pos hend]
    exact (finish_failure depth (.error _)).symm
  | case4 c c₁ htrivia hclosing hend hsemicolon ih =>
    rw [readDeclarations_eq htrivia, if_neg hclosing, if_neg hend, if_pos hsemicolon, ih]
  | case5 c c₁ htrivia hclosing hend hsemicolon f hd =>
    rw [readDeclarations_eq htrivia, if_neg hclosing, if_neg hend, if_neg hsemicolon, hread, hd]
    rfl
  | case6 c c₁ htrivia hclosing hend hsemicolon d c₂ hd hshorter f hrest ih =>
    rw [readDeclarations_eq htrivia, if_neg hclosing, if_neg hend, if_neg hsemicolon, hread, hd]
    simp only [finish, if_pos hshorter, ih, hrest]
    rfl
  | case7 c c₁ htrivia hclosing hend hsemicolon d c₂ hd hshorter others c₃ hrest ih =>
    rw [readDeclarations_eq htrivia, if_neg hclosing, if_neg hend, if_neg hsemicolon, hread, hd]
    simp only [finish, if_pos hshorter, ih, hrest]
  | case8 c c₁ htrivia hclosing hend hsemicolon d c₂ hd hshorter =>
    rw [readDeclarations_eq htrivia, if_neg hclosing, if_neg hend, if_neg hsemicolon, hread, hd]
    simp only [finish, if_neg hshorter]
    exact (finish_failure depth (.error _)).symm

/-- The reader with the counter is the reader with levels, of which as many are left as the
limit is above the counter. -/
theorem readDeclaration_eq (limit depth : Int) (c : Cursor) :
    readDeclaration limit depth c =
      finish depth (Swift.readDeclaration limit (limit - depth).toNat c) := by
  generalize hlevels : (limit - depth).toNat = levels
  induction levels generalizing depth c with
  | zero => exact readDeclaration_eq_finish c (fun _ => by omega) nofun
  | succ levels ih =>
    refine readDeclaration_eq_finish c nofun fun body hbody => ?_
    obtain rfl := Option.some.inj hbody
    exact ⟨by omega, readDeclarations_eq_finish fun c => ih (depth + 1) c (by omega)⟩

theorem finish_eq_ok {α : Type} {x : Except Failure α} {a : α} :
    finish depth x = (.ok a, depth') ↔ depth' = depth ∧ x = .ok a := by
  cases x with
  | error f => simp [finish]
  | ok b =>
    rw [finish, Prod.mk.injEq, Except.ok.injEq, Except.ok.injEq, and_comm, eq_comm (a := depth)]

end Counting

/-! ## Whole sources -/

/-- **The limit on nesting is exact and otherwise invisible.** -/
theorem readSource_nesting (size : Int) (source : List Char) {m n : Int} (hm : 0 ≤ m)
    (hmn : m ≤ n) :
    (∀ ds, readSource ⟨size, n⟩ source = .ok ds →
      (depths (outlines ds) ≤ m → readSource ⟨size, m⟩ source = .ok ds) ∧
      (m < depths (outlines ds) → ∃ f, readSource ⟨size, m⟩ source = .error f ∧
        (f.cause.diagnostic source).code = .nestingDepthExceeded ∧
        ∃ t ∈ types ds, ∃ stop, f.cause = .nestingTooDeep m t.span.start stop)) ∧
    (∀ ds, readSource ⟨size, m⟩ source = .ok ds → readSource ⟨size, n⟩ source = .ok ds) ∧
    (∀ limit depth depth' c d c', Counting.readDeclaration limit depth c = (.ok (d, c'), depth') ↔
      depth' = depth ∧ readDeclaration limit (limit - depth).toNat c = .ok (d, c')) ∧
    (∀ limit depth depth' c ds c',
      Counting.readDeclarations (some '}') limit depth c = (.ok (ds, c'), depth') ↔
        depth' = depth ∧ readBody limit (limit - depth).toNat c = .ok (ds, c')) := by
  refine ⟨fun ds h => ⟨fun hdepth => ?_, fun hdepth => ?_⟩, fun ds h => ?_,
    fun limit depth depth' c d c' => ?_, fun limit depth depth' c ds c' => ?_⟩
  · obtain ⟨hsmall, c', hreads⟩ := readSource_eq_ok.1 h
    exact readSource_eq_ok.2 ⟨hsmall, c', hreads.of_depths_le (Int.le_toNat hm |>.2 hdepth)⟩
  · obtain ⟨hsmall, c', hreads⟩ := readSource_eq_ok.1 h
    have hlow : m.toNat < depths (outlines ds) := by omega
    obtain ⟨f, stop, hrun, t, ht, hcause⟩ : ∃ f stop,
        readDeclarations none (readDeclaration m m.toNat) (Cursor.start source) = .error f ∧
          ∃ t ∈ types ds, f.cause = .nestingTooDeep m t.span.start stop :=
      hreads.error_of_lt_depths hlow
    refine ⟨f, ?_, by rw [hcause]; rfl, t, ht, stop, hcause⟩
    unfold readSource
    rw [if_neg hsmall]
    simp only [hrun]
  · obtain ⟨hsmall, c', hreads⟩ := readSource_eq_ok.1 h
    exact readSource_eq_ok.2 ⟨hsmall, c',
      hreads.of_depths_le (Nat.le_trans hreads.depths_le (Int.toNat_le_toNat hmn))⟩
  · rw [Counting.readDeclaration_eq, Counting.finish_eq_ok]
  · rw [Counting.readDeclarations_eq_finish (Counting.readDeclaration_eq limit depth),
      Counting.finish_eq_ok]
    rfl

/-- A type in a type, and another one behind them. -/
def twoLevels : List Char :=
  "enum A \x7b enum B \x7b case b \x7d \x7d struct C \x7b \x7d".toList

theorem readSource_nesting_twoLevels :
    (0 : Int) ≤ 1 ∧ (1 : Int) ≤ 2 ∧
      ∃ ds, readSource ⟨0, 2⟩ twoLevels = .ok ds ∧ depths (outlines ds) = 2 ∧
        ∃ f, readSource ⟨0, 1⟩ twoLevels = .error f ∧
          (f.cause.diagnostic twoLevels).code = .nestingDepthExceeded := by
  have hchecked : (readSource ⟨0, 2⟩ twoLevels).toOption.any
      (fun ds => depths (outlines ds) == 2) = true := by
    decide +kernel
  refine ⟨by decide, by decide, ?_⟩
  cases hread : readSource ⟨0, 2⟩ twoLevels with
  | error f => simp [hread, Except.toOption] at hchecked
  | ok ds =>
    have hdepth : depths (outlines ds) = 2 := by simpa [hread, Except.toOption] using hchecked
    obtain ⟨hdeeper, -⟩ := readSource_nesting 0 twoLevels (m := 1) (n := 2) (by decide) (by decide)
    obtain ⟨f, hf, hcode, -⟩ := (hdeeper ds hread).2 (by rw [hdepth]; decide)
    exact ⟨ds, rfl, hdepth, f, hf, hcode⟩

end LocalizedKeys.Swift
