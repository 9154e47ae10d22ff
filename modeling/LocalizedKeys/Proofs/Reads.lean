import LocalizedKeys.Swift.Declaration
import LocalizedKeys.Proofs.Outline
import LocalizedKeys.Proofs.Trivia

/-!
# The derivation of a forest

Reading a forest is a loop over declarations inside a recursion on levels, and every type in it
starts both anew. `Reads` lays a successful run out as one derivation: `Reads limit levels closing
c ds c'` holds when the declarations `ds` are read from `c` on and the loop stops at `c'`, in
front of `closing`. There is one constructor for each thing that can come next. Statements about
all sources are proved by induction on it; `reads_of_run` finds the derivation of a run, and
`Reads.run` runs a derivation.
-/

namespace LocalizedKeys.Swift

/-- A declaration that holds no others is read from `c` to `c'`. -/
inductive ReadsLeaf : Cursor → Declaration → Cursor → Prop
  | other {c c₁ c₂ c' : Cursor} {attributes : List Attribute} {modifiers : List String}
      {d : Declaration} :
      readAttributes c = .ok (attributes, c₁) →
      readModifiers c₁ = .ok (modifiers, c₂) →
      lead c₂ = .other →
      readOther c attributes modifiers c₂ = .ok (d, c') →
      ReadsLeaf c d c'
  | cases {c c₁ c₂ after c' : Cursor} {attributes : List Attribute} {modifiers : List String}
      {d : Declaration} :
      readAttributes c = .ok (attributes, c₁) →
      readModifiers c₁ = .ok (modifiers, c₂) →
      lead c₂ = .cases after →
      readCases c.pos after = .ok (d, c') →
      ReadsLeaf c d c'

/-- What stands before the body of a type, read from `c` up to its opening brace. -/
def ReadsOpening (c : Cursor) (kind : TypeKind) (name : String) (attributes : List Attribute)
    (modifiers inheritance : List String) (brace : Cursor) : Prop :=
  ∃ c₁ c₂ after, readAttributes c = .ok (attributes, c₁) ∧
    readModifiers c₁ = .ok (modifiers, c₂) ∧ lead c₂ = .type kind after ∧
    readTypeOpening after = .ok ((name, inheritance), brace)

/-- The cursor is where a declaration has to begin: no semicolon and not what closes the
forest. -/
structure AtDeclaration (closing : Option Char) (c : Cursor) : Prop where
  notClosing : c.next? ≠ closing
  notEnd : c.rest ≠ []
  notSemicolon : c.next? ≠ some ';'

/-- The declarations `ds` are read from `c` on, and `c'` is the place of what closes them. -/
inductive Reads (limit : Int) :
    Nat → Option Char → Cursor → List Declaration → Cursor → Prop
  | done {levels : Nat} {closing : Option Char} {c c₁ : Cursor} :
      skipTrivia c = .ok c₁ → c₁.next? = closing → Reads limit levels closing c [] c₁
  | semicolon {levels : Nat} {closing : Option Char} {c c₁ c' : Cursor}
      {ds : List Declaration} :
      skipTrivia c = .ok c₁ → c₁.next? ≠ closing → c₁.next? = some ';' →
      Reads limit levels closing (c₁.advance 1) ds c' → Reads limit levels closing c ds c'
  | leaf {levels : Nat} {closing : Option Char} {c c₁ c₂ c' : Cursor} {d : Declaration}
      {ds : List Declaration} :
      skipTrivia c = .ok c₁ → AtDeclaration closing c₁ → ReadsLeaf c₁ d c₂ →
      c₂.rest.length < c₁.rest.length →
      Reads limit levels closing c₂ ds c' → Reads limit levels closing c (d :: ds) c'
  | type {levels : Nat} {closing : Option Char} {c c₁ brace close c' : Cursor} {kind : TypeKind}
      {name : String} {attributes : List Attribute} {modifiers inheritance : List String}
      {members ds : List Declaration} :
      skipTrivia c = .ok c₁ → AtDeclaration closing c₁ →
      ReadsOpening c₁ kind name attributes modifiers inheritance brace →
      (close.advance 1).rest.length < c₁.rest.length →
      Reads limit levels (some '}') (brace.advance 1) members close →
      Reads limit (levels + 1) closing (close.advance 1) ds c' →
      Reads limit (levels + 1) closing c
        (.type { kind, name, attributes, modifiers, inheritance,
                 span := ⟨c₁.pos, (close.advance 1).pos⟩,
                 body := ⟨brace.pos, (close.advance 1).pos⟩ } members :: ds) c'

/-! ## From runs to derivations -/

theorem mapError_ok {ε ε' α : Type} (f : ε → ε') (a : α) :
    (Except.ok a : Except ε α).mapError f = .ok a := rfl

theorem mapError_error {ε ε' α : Type} (f : ε → ε') (e : ε) :
    (Except.error e : Except ε α).mapError f = .error (f e) := rfl

theorem mapError_eq_ok {ε ε' α : Type} {f : ε → ε'} {x : Except ε α} {a : α} :
    x.mapError f = .ok a ↔ x = .ok a := by
  cases x with
  | error e => exact ⟨nofun, nofun⟩
  | ok b => rw [mapError_ok, Except.ok.injEq, Except.ok.injEq]

/-- The ways in which a declaration can be read. -/
theorem readDeclarationWith_ok {limit : Int} {body? : Option BodyReader} {c c' : Cursor}
    {d : Declaration} (h : readDeclarationWith limit body? c = .ok (d, c')) :
    ReadsLeaf c d c' ∨
      ∃ body kind name attributes modifiers inheritance brace members close,
        body? = some body ∧
        ReadsOpening c kind name attributes modifiers inheritance brace ∧
        body (brace.advance 1) = .ok (members, close) ∧
        c' = close.advance 1 ∧
        d = .type { kind, name, attributes, modifiers, inheritance, span := ⟨c.pos, c'.pos⟩,
                    body := ⟨brace.pos, c'.pos⟩ } members := by
  unfold readDeclarationWith at h
  simp only [bind, Except.bind] at h
  split at h
  · simp at h
  · rename_i r₁ hattributes
    obtain ⟨attributes, c₁⟩ := r₁
    rw [mapError_eq_ok] at hattributes
    dsimp only at h
    split at h
    · simp at h
    · rename_i r₂ hmodifiers
      obtain ⟨modifiers, c₂⟩ := r₂
      rw [mapError_eq_ok] at hmodifiers
      dsimp only at h
      split at h
      · rename_i hlead
        rw [mapError_eq_ok] at h
        exact .inl (.other hattributes hmodifiers hlead h)
      · rename_i after hlead
        rw [mapError_eq_ok] at h
        exact .inl (.cases hattributes hmodifiers hlead h)
      · rename_i kind after hlead
        split at h
        · simp [throw, throwThe, MonadExceptOf.throw] at h
        · rename_i body
          split at h
          · simp at h
          · rename_i r₃ hopening
            obtain ⟨⟨name, inheritance⟩, brace⟩ := r₃
            rw [mapError_eq_ok] at hopening
            dsimp only at h
            split at h
            · simp at h
            · rename_i r₄ hbody
              obtain ⟨members, close⟩ := r₄
              rw [mapError_eq_ok] at hbody
              simp only [pure, Except.pure, Except.ok.injEq, Prod.mk.injEq] at h
              obtain ⟨rfl, rfl⟩ := h
              exact .inr ⟨body, kind, name, attributes, modifiers, inheritance, brace, members,
                close, rfl, ⟨c₁, c₂, after, hattributes, hmodifiers, hlead, hopening⟩, hbody,
                rfl, rfl⟩

/-- A run that ends well has a derivation. -/
theorem reads_of_run {limit : Int} {levels : Nat} {closing : Option Char} {c c' : Cursor}
    {ds : List Declaration}
    (h : readDeclarations closing (readDeclaration limit levels) c = .ok (ds, c')) :
    Reads limit levels closing c ds c' := by
  -- outside on the levels, which go down with every body, inside on the loop over declarations
  induction levels using Nat.strongRecOn generalizing closing c c' ds with
  | ind levels ihLevels =>
    fun_induction readDeclarations closing (readDeclaration limit levels) c
      generalizing ds c' with
    | case1 => simp at h
    | case2 c c₁ htrivia hclosing =>
      obtain ⟨rfl, rfl⟩ := Prod.mk.inj (Except.ok.inj h)
      exact .done htrivia hclosing
    | case3 => simp at h
    | case4 c c₁ htrivia hclosing hend hsemicolon ih =>
      exact .semicolon htrivia hclosing hsemicolon (ih h)
    | case5 => simp at h
    | case6 => simp at h
    | case7 c c₁ htrivia hclosing hend hsemicolon d c₂ hd hshorter others c₃ hrest ih =>
      obtain ⟨rfl, rfl⟩ := Prod.mk.inj (Except.ok.inj h)
      cases levels with
      | zero =>
        rcases readDeclarationWith_ok hd with hleaf | ⟨_, _, _, _, _, _, _, _, _, hbody, -⟩
        · exact .leaf htrivia ⟨hclosing, hend, hsemicolon⟩ hleaf hshorter (ih hrest)
        · simp at hbody
      | succ levels =>
        rcases readDeclarationWith_ok hd with
          hleaf | ⟨body, kind, name, attributes, modifiers, inheritance, brace, members, close,
            hbody, hopening, hmembers, rfl, rfl⟩
        · exact .leaf htrivia ⟨hclosing, hend, hsemicolon⟩ hleaf hshorter (ih hrest)
        · obtain rfl := Option.some.inj hbody
          exact .type htrivia ⟨hclosing, hend, hsemicolon⟩ hopening hshorter
            (ihLevels levels (Nat.lt_succ_self _) hmembers) (ih hrest)
    | case8 => simp at h

/-! ## From derivations to runs -/

theorem ReadsLeaf.run {c c' : Cursor} {d : Declaration} (h : ReadsLeaf c d c') (limit : Int)
    (body? : Option BodyReader) : readDeclarationWith limit body? c = .ok (d, c') := by
  cases h with
  | other hattributes hmodifiers hlead hother =>
    simp [readDeclarationWith, bind, Except.bind, mapError_ok, *]
  | cases hattributes hmodifiers hlead hcases =>
    simp [readDeclarationWith, bind, Except.bind, mapError_ok, *]

theorem ReadsLeaf.run_levels {c c' : Cursor} {d : Declaration} (h : ReadsLeaf c d c')
    (limit : Int) (levels : Nat) : readDeclaration limit levels c = .ok (d, c') := by
  cases levels <;> exact h.run limit _

/-- A type whose opening and body are read is read. -/
theorem ReadsOpening.run {limit : Int} {levels : Nat} {c brace close : Cursor} {kind : TypeKind}
    {name : String} {attributes : List Attribute} {modifiers inheritance : List String}
    {members : List Declaration}
    (h : ReadsOpening c kind name attributes modifiers inheritance brace)
    (hbody : readBody limit levels (brace.advance 1) = .ok (members, close)) :
    readDeclaration limit (levels + 1) c =
      .ok (.type { kind, name, attributes, modifiers, inheritance,
                   span := ⟨c.pos, (close.advance 1).pos⟩,
                   body := ⟨brace.pos, (close.advance 1).pos⟩ } members, close.advance 1) := by
  obtain ⟨c₁, c₂, after, hattributes, hmodifiers, hlead, hafter⟩ := h
  unfold readBody at hbody
  simp [readDeclaration, readDeclarationWith, bind, Except.bind, mapError_ok, pure, Except.pure, *]

theorem readDeclarations_done {closing : Option Char}
    {read : Cursor → Except Failure (Declaration × Cursor)} {c c₁ : Cursor}
    (htrivia : skipTrivia c = .ok c₁) (hclosing : c₁.next? = closing) :
    readDeclarations closing read c = .ok ([], c₁) := by
  rw [readDeclarations]
  split
  · rename_i heq
    simp [htrivia] at heq
  · rename_i heq
    obtain rfl := Except.ok.inj (htrivia.symm.trans heq)
    rw [if_pos hclosing]

theorem readDeclarations_semicolon {closing : Option Char}
    {read : Cursor → Except Failure (Declaration × Cursor)} {c c₁ : Cursor}
    (htrivia : skipTrivia c = .ok c₁) (hclosing : c₁.next? ≠ closing)
    (hsemicolon : c₁.next? = some ';') :
    readDeclarations closing read c = readDeclarations closing read (c₁.advance 1) := by
  conv => lhs; rw [readDeclarations]
  split
  · rename_i heq
    simp [htrivia] at heq
  · rename_i heq
    obtain rfl := Except.ok.inj (htrivia.symm.trans heq)
    rw [if_neg hclosing, dif_neg (Cursor.rest_ne_nil_of_next? hsemicolon), if_pos hsemicolon]

theorem readDeclarations_cons {closing : Option Char}
    {read : Cursor → Except Failure (Declaration × Cursor)} {c c₁ c₂ c' : Cursor}
    {d : Declaration} {ds : List Declaration} (htrivia : skipTrivia c = .ok c₁)
    (hat : AtDeclaration closing c₁) (hd : read c₁ = .ok (d, c₂))
    (hshorter : c₂.rest.length < c₁.rest.length)
    (hds : readDeclarations closing read c₂ = .ok (ds, c')) :
    readDeclarations closing read c = .ok (d :: ds, c') := by
  rw [readDeclarations]
  split
  · rename_i heq
    simp [htrivia] at heq
  · rename_i heq
    obtain rfl := Except.ok.inj (htrivia.symm.trans heq)
    rw [if_neg hat.notClosing, dif_neg hat.notEnd, if_neg hat.notSemicolon, hd]
    simp only [dif_pos hshorter, hds]

/-- The run of a derivation. -/
theorem Reads.run {limit : Int} {levels : Nat} {closing : Option Char} {c c' : Cursor}
    {ds : List Declaration} (h : Reads limit levels closing c ds c') :
    readDeclarations closing (readDeclaration limit levels) c = .ok (ds, c') := by
  induction h with
  | done htrivia hclosing => exact readDeclarations_done htrivia hclosing
  | semicolon htrivia hclosing hsemicolon _ ih =>
    rw [readDeclarations_semicolon htrivia hclosing hsemicolon]
    exact ih
  | leaf htrivia hat hleaf hshorter _ ih =>
    exact readDeclarations_cons htrivia hat (hleaf.run_levels limit _) hshorter ih
  | type htrivia hat hopening hshorter _ _ ihMembers ih =>
    exact readDeclarations_cons htrivia hat (hopening.run ihMembers) hshorter ih

/-- The declarations of a source that is not too large are the ones of a derivation. -/
theorem readSource_eq_ok {limits : Limits} {source : List Char} {ds : List Declaration} :
    readSource limits source = .ok ds ↔
      ¬(0 < limits.maxSourceSize ∧ limits.maxSourceSize < source.length) ∧
        ∃ c', Reads limits.maxNestingDepth limits.maxNestingDepth.toNat none (.start source) ds
          c' := by
  unfold readSource
  split
  · rename_i hlarge
    exact ⟨nofun, fun h => absurd hlarge h.1⟩
  · rename_i hsmall
    dsimp only
    constructor
    · intro h
      split at h
      · simp at h
      · rename_i ds' c' hrun
        obtain rfl := Except.ok.inj h
        exact ⟨hsmall, c', reads_of_run hrun⟩
    · rintro ⟨-, c', hreads⟩
      rw [hreads.run]

theorem Reads.length_le {limit : Int} {levels : Nat} {closing : Option Char} {c c' : Cursor}
    {ds : List Declaration} (h : Reads limit levels closing c ds c') :
    c'.rest.length ≤ c.rest.length := by
  induction h with
  | done htrivia _ => exact skipTrivia_length_le htrivia
  | semicolon htrivia _ _ _ ih =>
    have := skipTrivia_length_le htrivia
    rw [Cursor.length_advance] at ih
    omega
  | leaf htrivia _ _ hshorter _ ih =>
    have := skipTrivia_length_le htrivia
    omega
  | type htrivia _ _ hshorter _ _ _ ih =>
    have := skipTrivia_length_le htrivia
    omega

/-! ## Texts that spell a forest

A text spells the outlines that are read from it wherever it stands. -/

/-- From the beginning of `text` on, wherever that is, declarations with the given outlines are
read, and `rest` is left. -/
def Spells (limit : Int) (levels : Nat) (closing : Option Char) (text : List Char)
    (os : List Outline) (rest : List Char) : Prop :=
  ∀ p, ∃ ds c', Reads limit levels closing ⟨p, text⟩ ds c' ∧ outlines ds = os ∧ c'.rest = rest

/-- A declaration that holds no others is read from the beginning of `text`. -/
def SpellsLeaf (text : List Char) (o : Outline) (rest : List Char) : Prop :=
  ∀ p, ∃ d c', ReadsLeaf ⟨p, text⟩ d c' ∧ d.outline = o ∧ c'.rest = rest

/-- What stands before the body of a type is read from the beginning of `text`; the opening brace
comes before `rest`. -/
def SpellsOpening (text : List Char) (kind : TypeKind) (name : String)
    (attributes : List AttributeOutline) (modifiers inheritance : List String)
    (rest : List Char) : Prop :=
  ∀ p, ∃ as brace, ReadsOpening ⟨p, text⟩ kind name as modifiers inheritance brace ∧
    as.map Attribute.outline = attributes ∧ brace.rest = '\x7b' :: rest

variable {limit : Int} {levels : Nat} {closing : Option Char} {w t r rest : List Char}
  {os : List Outline}

theorem Spells.done (hw : Trivia w r) (hr : Solid r) (hclosing : r.head? = closing) :
    Spells limit levels closing (w ++ r) [] r := fun p =>
  ⟨[], ⟨p + w.length, r⟩, .done (skipTrivia_text hw hr p) hclosing, rfl, rfl⟩

theorem Spells.leaf {o : Outline} (hw : Trivia w t) (ht : Solid t)
    (hclosing : t.head? ≠ closing) (hsemicolon : t.head? ≠ some ';')
    (hleaf : SpellsLeaf t o r) (hlen : r.length < t.length)
    (h : Spells limit levels closing r os rest) :
    Spells limit levels closing (w ++ t) (o :: os) rest := by
  intro p
  obtain ⟨d, c₂, hd, rfl, rfl⟩ := hleaf (p + w.length)
  obtain ⟨ds, c', hds, rfl, rfl⟩ := h c₂.pos
  have hne : t ≠ [] := List.ne_nil_of_length_pos (by omega)
  exact ⟨d :: ds, c', .leaf (skipTrivia_text hw ht p) ⟨hclosing, hne, hsemicolon⟩ hd hlen hds,
    rfl, rfl⟩

theorem Spells.type {kind : TypeKind} {name : String} {attributes : List AttributeOutline}
    {modifiers inheritance : List String} {members : List Outline} {body : List Char}
    (hw : Trivia w t) (ht : Solid t) (hclosing : t.head? ≠ closing)
    (hsemicolon : t.head? ≠ some ';')
    (hopening : SpellsOpening t kind name attributes modifiers inheritance body)
    (hlen : body.length < t.length)
    (hmembers : Spells limit levels (some '\x7d') body members ('\x7d' :: r))
    (h : Spells limit (levels + 1) closing r os rest) :
    Spells limit (levels + 1) closing (w ++ t)
      (.type kind name attributes modifiers inheritance members :: os) rest := by
  intro p
  obtain ⟨as, brace, hbrace, rfl, hbody⟩ := hopening (p + w.length)
  obtain ⟨ms, close, hms, rfl, hclose⟩ := hmembers (brace.pos + 1)
  obtain ⟨ds, c', hds, rfl, rfl⟩ := h (close.pos + 1)
  have hne : t ≠ [] := List.ne_nil_of_length_pos (by omega)
  have hle := hms.length_le
  rw [hclose, List.length_cons] at hle
  rw [← Cursor.advance_one hbody] at hms
  rw [← Cursor.advance_one hclose] at hds
  have hshorter : (close.advance 1).rest.length < t.length := by
    simp only [Cursor.length_advance, hclose, List.length_cons]
    dsimp only at hle
    omega
  exact ⟨_, c', .type (skipTrivia_text hw ht p) ⟨hclosing, hne, hsemicolon⟩ hbrace hshorter hms
    hds, rfl, rfl⟩

end LocalizedKeys.Swift
