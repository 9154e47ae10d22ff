import LocalizedKeys.Proofs.Placed
import LocalizedKeys.Proofs.Results
import LocalizedKeys.Source.Edit

/-!
# Nothing is lost between declarations

The spans of a tree that was read cover its source: what lies between two neighbours, or between
them and the braces around them, is white space, comments and semicolons. `Filler` says this of a
range of offsets, and `Laid` of the declarations of a forest one after the other, down into the
bodies of types. `Reads.laid` follows the derivation; what it says is then spelled out for each type
(`HeaderPlaced`, `Siblings`).
-/

namespace LocalizedKeys.Swift

open Text Cursor

/-! ## What stands between declarations -/

/-- A comment of the source with the offsets of its first character and of its end. -/
inductive CommentAt (source : List Char) : Nat → Nat → Prop
  | line {p : Nat} {line rest : List Char} :
      source.drop p = '/' :: '/' :: (line ++ rest) → InLine line → AtLineEnd rest →
      CommentAt source p (p + (line.length + 2))
  | block {p : Nat} {body rest : List Char} :
      source.drop p = '/' :: '*' :: (body ++ rest) → EndsComment body →
      CommentAt source p (p + (body.length + 2))

/-- Between two offsets there are only white space, semicolons and comments. -/
inductive Filler (source : List Char) : Nat → Nat → Prop
  | nil {p : Nat} : Filler source p p
  | layout {p q : Nat} {ch : Char} :
      source[p]? = some ch → isLayout ch = true → Filler source (p + 1) q → Filler source p q
  | semicolon {p q : Nat} :
      source[p]? = some ';' → Filler source (p + 1) q → Filler source p q
  | comment {p m q : Nat} : CommentAt source p m → Filler source m q → Filler source p q

variable {source : List Char} {lo mid hi p q : Nat}

theorem CommentAt.lt (h : CommentAt source p q) : p < q := by
  cases h <;> omega

theorem Filler.le (h : Filler source p q) : p ≤ q := by
  induction h with
  | nil => exact Nat.le_refl _
  | layout _ _ _ ih => omega
  | semicolon _ _ ih => omega
  | comment hcomment _ ih => exact Nat.le_of_lt (Nat.lt_of_lt_of_le hcomment.lt ih)

theorem Filler.trans (h₁ : Filler source lo mid) (h₂ : Filler source mid hi) :
    Filler source lo hi := by
  induction h₁ with
  | nil => exact h₂
  | layout hch hlayout _ ih => exact .layout hch hlayout (ih h₂)
  | semicolon hch _ ih => exact .semicolon hch (ih h₂)
  | comment hcomment _ ih => exact .comment hcomment (ih h₂)

theorem getElem?_of_drop {ch : Char} {rest : List Char} (h : source.drop p = ch :: rest) :
    source[p]? = some ch := by
  rw [← List.head?_drop, h, List.head?_cons]

theorem drop_add_of_drop {w r : List Char} (h : source.drop p = w ++ r) :
    source.drop (p + w.length) = r := by
  rw [← List.drop_drop, h, List.drop_left]

theorem filler_trivia {w r : List Char} (hw : Trivia w r) (h : source.drop p = w ++ r) :
    Filler source p (p + w.length) := by
  induction hw generalizing p with
  | nil => exact .nil
  | @layout ch w r hlayout _ ih =>
    have hrest := ih (p := p + 1) (drop_add_of_drop (w := [ch]) h)
    rw [List.length_cons, show p + (w.length + 1) = p + 1 + w.length by omega]
    exact .layout (getElem?_of_drop h) hlayout hrest
  | @line line w r hline hend _ ih =>
    have h' : source.drop p = ('/' :: '/' :: line) ++ (w ++ r) := by simpa using h
    have hrest := ih (drop_add_of_drop h')
    have hlength : p + ('/' :: '/' :: (line ++ w)).length
        = p + ('/' :: '/' :: line).length + w.length := by
      simp only [List.length_cons, List.length_append]
      omega
    rw [hlength]
    exact .comment (.line h' hline hend) hrest
  | @block body w r hbody _ ih =>
    have h' : source.drop p = ('/' :: '*' :: body) ++ (w ++ r) := by simpa using h
    have hrest := ih (drop_add_of_drop h')
    have hlength : p + ('/' :: '*' :: (body ++ w)).length
        = p + ('/' :: '*' :: body).length + w.length := by
      simp only [List.length_cons, List.length_append]
      omega
    rw [hlength]
    exact .comment (.block h' hbody) hrest

theorem filler_skipTrivia {c c' : Cursor} (hc : c.At source) (h : skipTrivia c = .ok c') :
    Filler source c.pos c'.pos := by
  obtain ⟨w, hmoves, hw, -⟩ := skipTrivia_spec h
  rw [hmoves.2]
  exact filler_trivia hw (by rw [← hc.2, hmoves.1])

/-! ## The tree -/

/-- Where the parts of a type are: its attributes one after the other, then its braces, the second of
which ends it. -/
structure HeaderPlaced (source : List Char) (header : TypeHeader) : Prop where
  startsFirst : header.span.start ≤ header.body.start
  attributesPlaced : ∀ a ∈ header.attributes, header.span.start ≤ a.span.start ∧
    source[a.span.start]? = some '@' ∧ a.span.start < a.span.stop ∧
    a.span.stop ≤ header.body.start
  attributesOrdered : header.attributes.Pairwise fun a b => a.span.stop ≤ b.span.start
  opens : source[header.body.start]? = some '\x7b'
  closesLater : header.body.start < header.body.stop - 1
  closes : source[header.body.stop - 1]? = some '\x7d'
  ends : header.body.stop = header.span.stop
  inside : header.span.stop ≤ source.length

/-- The text of a declaration that is kept as text. -/
def textOf (source : List Char) (span : Span) : String :=
  String.ofList (trim (slice source span.start span.stop))

/-- The declarations lie in the source between two offsets, in their order and with nothing but
filler around them. -/
inductive Laid (source : List Char) : Nat → List Declaration → Nat → Prop
  | nil {lo hi : Nat} : Filler source lo hi → Laid source lo [] hi
  | cases {lo hi : Nat} {elements : List CaseElement} {span : Span} {ds : List Declaration} :
      Filler source lo span.start → span.start < span.stop → Laid source span.stop ds hi →
      Laid source lo (.cases elements span :: ds) hi
  | other {lo hi : Nat} {attributes : List Attribute} {modifiers : List String} {span : Span}
      {ds : List Declaration} :
      Filler source lo span.start → span.start < span.stop → Laid source span.stop ds hi →
      Laid source lo (.other (textOf source span) attributes modifiers span :: ds) hi
  | type {lo hi : Nat} {header : TypeHeader} {members ds : List Declaration} :
      Filler source lo header.span.start → HeaderPlaced source header →
      Laid source (header.body.start + 1) members (header.body.stop - 1) →
      Laid source header.span.stop ds hi →
      Laid source lo (.type header members :: ds) hi

theorem Laid.fill {ds : List Declaration} (hfill : Filler source lo mid)
    (h : Laid source mid ds hi) : Laid source lo ds hi := by
  cases h with
  | nil h => exact .nil (hfill.trans h)
  | cases h hlt hds => exact .cases (hfill.trans h) hlt hds
  | other h hlt hds => exact .other (hfill.trans h) hlt hds
  | type h hheader hmembers hds => exact .type (hfill.trans h) hheader hmembers hds

theorem pairwise_readAttributes {c c' : Cursor} {as : List Attribute}
    (h : readAttributes c = .ok (as, c')) :
    as.Pairwise fun a b => a.span.stop ≤ b.span.start := by
  fun_induction readAttributes c generalizing as c' with
  | case4 c hat a c₁ ha c₂ htrivia others c₃ hrest ih =>
    obtain ⟨rfl, rfl⟩ := Prod.mk.inj (Except.ok.inj h)
    refine List.pairwise_cons.2 ⟨fun b hb => ?_, ih hrest⟩
    obtain ⟨_, _, hspan⟩ := moves_readAttribute hat ha
    obtain ⟨d₁, d₂, _, hd₁, -, -, hspan'⟩ := (reaches_readAttributes hrest).2 b hb
    rw [hspan, hspan']
    exact ((reaches_skipTrivia htrivia).trans hd₁).pos_le
  | case5 =>
    obtain ⟨rfl, rfl⟩ := Prod.mk.inj (Except.ok.inj h)
    exact .nil
  | case1 | case2 | case3 => simp at h

theorem pairwise_readsOpening {c brace : Cursor} {kind : TypeKind} {name : String}
    {attributes : List Attribute} {modifiers inheritance : List String}
    (h : ReadsOpening c kind name attributes modifiers inheritance brace) :
    attributes.Pairwise fun a b => a.span.stop ≤ b.span.start := by
  obtain ⟨c₁, c₂, after, hattributes, -⟩ := h
  exact pairwise_readAttributes hattributes

/-- The slice of a source between two of its places is what a cursor at the first one gives. -/
theorem slice_of_at {c : Cursor} (hc : c.At source) (stop : Nat) :
    c.slice stop = slice source c.pos stop := by
  rw [Cursor.slice, hc.2, slice_natCast, List.drop_take]

theorem laid_leaf {c c' : Cursor} {d : Declaration} {ds : List Declaration} (hc : c.At source)
    (hleaf : ReadsLeaf c d c') (hlt : c.pos < c'.pos) (h : Laid source c'.pos ds hi) :
    Laid source c.pos (d :: ds) hi := by
  cases hleaf with
  | other _ _ _ hother =>
    unfold readOther at hother
    split at hother
    · simp at hother
    · split at hother
      · simp at hother
      · obtain ⟨rfl, rfl⟩ := Prod.mk.inj (Except.ok.inj hother)
        rename_i stop _ _
        have htext : String.ofList (trim (c.slice stop.pos)) = textOf source ⟨c.pos, stop.pos⟩ := by
          rw [textOf, slice_of_at hc]
        rw [htext]
        exact .other .nil hlt h
  | cases _ _ _ hcases =>
    unfold readCases at hcases
    split at hcases
    · simp at hcases
    · obtain ⟨rfl, rfl⟩ := Prod.mk.inj (Except.ok.inj hcases)
      exact .cases .nil hlt h

theorem pos_lt_of_length_lt {c c' : Cursor} (hc : c.At source) (hc' : c'.At source)
    (h : c'.rest.length < c.rest.length) : c.pos < c'.pos := by
  have := hc.pos_add_length
  have := hc'.pos_add_length
  omega

/-- What is read from a source is laid out in it. -/
theorem Reads.laid {limit : Int} {levels : Nat} {closing : Option Char} {c c' : Cursor}
    {ds : List Declaration} (h : Reads limit levels closing c ds c') (hc : c.At source) :
    Laid source c.pos ds c'.pos := by
  induction h with
  | done htrivia _ => exact .nil (filler_skipTrivia hc htrivia)
  | @semicolon _ _ c c₁ c' _ htrivia _ hsemicolon _ ih =>
    have hat₁ := (reaches_skipTrivia htrivia).at_of hc
    have hlaid := ih ((reaches_advance _ 1).at_of hat₁)
    have hnext : (c₁.advance 1).pos = c₁.pos + 1 := by
      have := List.length_pos_iff.2 (rest_ne_nil_of_next? hsemicolon)
      rw [advance_pos]
      omega
    rw [hnext] at hlaid
    exact hlaid.fill ((filler_skipTrivia hc htrivia).trans
      (.semicolon (getElem?_of_next? hat₁ hsemicolon) .nil))
  | leaf htrivia _ hleaf hshorter _ ih =>
    have hat₁ := (reaches_skipTrivia htrivia).at_of hc
    have hat₂ := (reaches_readsLeaf hleaf).at_of hat₁
    exact (laid_leaf hat₁ hleaf (pos_lt_of_length_lt hat₁ hat₂ hshorter) (ih hat₂)).fill
      (filler_skipTrivia hc htrivia)
  | @type levels closing c c₁ brace close c' _ _ _ _ _ _ _ htrivia _ hopening _ hmembers _
      ihMembers ih =>
    have hat₁ := (reaches_skipTrivia htrivia).at_of hc
    obtain ⟨h₂, hbrace, hattributes⟩ := reaches_readsOpening hopening
    have hatBrace := h₂.at_of hat₁
    have hatMembers := (reaches_advance brace 1).at_of hatBrace
    have hatClose := hmembers.reaches.at_of hatMembers
    have hatRest := (reaches_advance close 1).at_of hatClose
    have hclose := hmembers.next?
    have hnext : ∀ {d : Cursor} {ch : Char}, d.next? = some ch → (d.advance 1).pos = d.pos + 1 := by
      intro d ch hd
      have := List.length_pos_iff.2 (rest_ne_nil_of_next? hd)
      rw [advance_pos]
      omega
    have hmembersLe := hmembers.reaches.pos_le
    have ihMembers := ihMembers hatMembers
    rw [hnext hbrace] at ihMembers hmembersLe
    refine .type (filler_skipTrivia hc htrivia) ?_ ?_ (ih hatRest)
    · refine ⟨h₂.pos_le, fun a ha => ?_, pairwise_readsOpening hopening,
        getElem?_of_next? hatBrace hbrace, ?_, ?_, rfl, hatRest.1⟩
      · obtain ⟨d₁, d₂, arguments, hd₁, hmoves, hd₂, hspan⟩ := hattributes a ha
        have hatSign := hd₁.at_of hat₁
        rw [hspan]
        refine ⟨hd₁.pos_le, ?_, ?_, hd₂.pos_le⟩
        · exact getElem?_of_drop (hatSign.2 ▸ hmoves.1)
        · rw [hmoves.2, List.length_cons]
          dsimp only
          omega
      · dsimp only
        rw [hnext hclose]
        omega
      · dsimp only
        rw [hnext hclose, Nat.add_sub_cancel]
        exact getElem?_of_next? hatClose hclose
    · dsimp only
      rw [hnext hclose, Nat.add_sub_cancel]
      exact ihMembers

/-! ## What this says of each part -/

/-- Between the declarations of one body, or of a whole source, at this offset: white space, a
semicolon, or a part of a comment that lies outside of all of them. -/
def Idle (source : List Char) (lo hi : Nat) (ds : List Declaration) (i : Nat) : Prop :=
  (∃ ch, source[i]? = some ch ∧ isLayout ch = true) ∨ source[i]? = some ';' ∨
    ∃ a b, CommentAt source a b ∧ a ≤ i ∧ i < b ∧ lo ≤ a ∧ b ≤ hi ∧
      ∀ d ∈ ds, b ≤ d.span.start ∨ d.span.stop ≤ a

/-- The declarations lie between two offsets one after the other, and there is nothing else. -/
structure Siblings (source : List Char) (lo hi : Nat) (ds : List Declaration) : Prop where
  nonempty : ∀ d ∈ ds, d.span.start < d.span.stop
  inside : ∀ d ∈ ds, lo ≤ d.span.start ∧ d.span.stop ≤ hi
  ordered : ds.Pairwise fun d e => d.span.stop ≤ e.span.start
  filled : ∀ i, lo ≤ i → i < hi → (∀ d ∈ ds, i < d.span.start ∨ d.span.stop ≤ i) →
    Idle source lo hi ds i

theorem Filler.idle {ds : List Declaration} (h : Filler source p q) (hlo : lo ≤ p) (hhi : q ≤ hi)
    (hds : ∀ d ∈ ds, q ≤ d.span.start ∨ d.span.stop ≤ p) {i : Nat} (hp : p ≤ i) (hq : i < q) :
    Idle source lo hi ds i := by
  induction h with
  | nil => omega
  | layout hch hlayout hrest ih =>
    rcases Nat.eq_or_lt_of_le hp with rfl | hlt
    · exact .inl ⟨_, hch, hlayout⟩
    · exact ih (by omega) hhi (fun d hd => by have := hds d hd; omega) hlt hq
  | semicolon hch hrest ih =>
    rcases Nat.eq_or_lt_of_le hp with rfl | hlt
    · exact .inr (.inl hch)
    · exact ih (by omega) hhi (fun d hd => by have := hds d hd; omega) hlt hq
  | @comment p m q hcomment hrest ih =>
    have := hcomment.lt
    have := hrest.le
    rcases Nat.lt_or_ge i m with hlt | hge
    · refine .inr (.inr ⟨p, m, hcomment, hp, hlt, hlo, by omega, fun d hd => ?_⟩)
      have := hds d hd
      omega
    · exact ih (by omega) hhi (fun d hd => by have := hds d hd; omega) hge hq

theorem Siblings.nil (h : Filler source lo hi) : Siblings source lo hi [] where
  nonempty := by simp
  inside := by simp
  ordered := .nil
  filled := fun _ hlo hhi _ => h.idle (Nat.le_refl _) (Nat.le_refl _) (by simp) hlo hhi

theorem Siblings.cons {d : Declaration} {ds : List Declaration}
    (hfill : Filler source lo d.span.start) (hd : d.span.start < d.span.stop)
    (hle : d.span.stop ≤ hi) (h : Siblings source d.span.stop hi ds) :
    Siblings source lo hi (d :: ds) where
  nonempty := List.forall_mem_cons.2 ⟨hd, h.nonempty⟩
  inside := by
    refine List.forall_mem_cons.2 ⟨⟨hfill.le, hle⟩, fun e he => ?_⟩
    have := h.inside e he
    have := hfill.le
    omega
  ordered := List.pairwise_cons.2 ⟨fun e he => (h.inside e he).1, h.ordered⟩
  filled := by
    intro i hlo hhi houtside
    have hfirst := houtside d (List.mem_cons_self ..)
    have hle' := hfill.le
    rcases hfirst with hbefore | hafter
    · refine hfill.idle (Nat.le_refl _) (by omega) (fun e he => ?_) hlo hbefore
      rcases List.mem_cons.1 he with rfl | he
      · exact .inl (Nat.le_refl _)
      · have := h.inside e he
        exact .inl (by omega)
    · rcases h.filled i hafter hhi fun e he => houtside e (List.mem_cons_of_mem _ he) with
        hlayout | hsemicolon | ⟨a, b, hcomment, ha, hb, hlo', hhi', hothers⟩
      · exact .inl hlayout
      · exact .inr (.inl hsemicolon)
      · refine .inr (.inr ⟨a, b, hcomment, ha, hb, by omega, hhi', fun e he => ?_⟩)
        rcases List.mem_cons.1 he with rfl | he
        · exact .inr hlo'
        · exact hothers e he

theorem Laid.le {ds : List Declaration} (h : Laid source lo ds hi) : lo ≤ hi := by
  induction h with
  | nil hfill => exact hfill.le
  | cases hfill hlt _ ih => exact Nat.le_trans hfill.le (by omega)
  | other hfill hlt _ ih => exact Nat.le_trans hfill.le (by omega)
  | type hfill hheader _ _ _ ih =>
    have h₁ := hfill.le
    have h₂ := hheader.startsFirst
    have h₃ := hheader.closesLater
    have h₄ := hheader.ends
    omega

theorem Laid.siblings {ds : List Declaration} (h : Laid source lo ds hi) :
    Siblings source lo hi ds := by
  induction h with
  | nil hfill => exact .nil hfill
  | cases hfill hlt hds ih => exact .cons hfill hlt hds.le ih
  | other hfill hlt hds ih => exact .cons hfill hlt hds.le ih
  | type hfill hheader _ hds _ ih =>
    refine .cons hfill ?_ hds.le ih
    have h₂ := hheader.startsFirst
    have h₃ := hheader.closesLater
    have h₄ := hheader.ends
    dsimp only [Declaration.span]
    omega

/-- Every type of a forest that is laid out has its parts in place. -/
theorem Laid.types {ds : List Declaration} (h : Laid source lo ds hi) :
    ∀ t ∈ types ds, HeaderPlaced source t.toTypeHeader ∧
      Laid source (t.body.start + 1) t.members (t.body.stop - 1) := by
  induction h with
  | nil _ => simp [Swift.types]
  | cases _ _ _ ih => simpa [Swift.types, Declaration.types] using ih
  | other _ _ _ ih => simpa [Swift.types, Declaration.types] using ih
  | type _ hheader hmembers _ ihMembers ih =>
    intro t ht
    rw [Swift.types, Declaration.types, List.cons_append, List.mem_cons, List.mem_append] at ht
    rcases ht with rfl | ht | ht
    · exact ⟨hheader, hmembers⟩
    · exact ihMembers t ht
    · exact ih t ht

theorem Laid.text_eq {ds : List Declaration} (h : Laid source lo ds hi) {text : String}
    {attributes : List Attribute} {modifiers : List String} {span : Span}
    (hmem : .other text attributes modifiers span ∈ ds) : text = textOf source span := by
  induction h with
  | nil _ => simp at hmem
  | cases _ _ _ ih => exact ih (by simpa using hmem)
  | other _ _ _ ih =>
    rcases List.mem_cons.1 hmem with heq | hmem
    · obtain ⟨rfl, -, -, rfl⟩ := Declaration.other.inj heq
      rfl
    · exact ih hmem
  | type _ _ _ _ _ ih => exact ih (by simpa using hmem)

theorem laid_of_readSource {limits : Limits} {ds : List Declaration}
    (h : readSource limits source = .ok ds) : Laid source 0 ds source.length := by
  obtain ⟨c', hreads⟩ := reads_of_readSource h
  have hat : (Cursor.start source).At source := start_at source
  have hlaid := hreads.laid hat
  have hat' := hreads.reaches.at_of hat
  have hend : c'.rest = [] := by
    have := hreads.next?
    rwa [Cursor.next?, List.head?_eq_none_iff] at this
  have hpos := hat'.pos_add_length
  rw [hend, List.length_nil, Nat.add_zero] at hpos
  rw [← hpos]
  exact hlaid

/-- **Nothing is lost.** In a source that was read, the parts of every type are in place, the
declarations of every body and of the whole source follow one another with nothing but white space,
comments and semicolons in between, and whatever is kept as text is the text of its span. -/
theorem spans_of_readSource {limits : Limits} {ds : List Declaration}
    (h : readSource limits source = .ok ds) :
    Siblings source 0 source.length ds ∧
      (∀ t ∈ types ds, HeaderPlaced source t.toTypeHeader ∧
        Siblings source (t.body.start + 1) (t.body.stop - 1) t.members) ∧
      ∀ text attributes modifiers span,
        (.other text attributes modifiers span ∈ ds ∨
          ∃ t ∈ types ds, .other text attributes modifiers span ∈ t.members) →
        text = textOf source span := by
  have hlaid := laid_of_readSource h
  refine ⟨hlaid.siblings, fun t ht => ?_, fun text attributes modifiers span hmem => ?_⟩
  · obtain ⟨hheader, hmembers⟩ := hlaid.types t ht
    exact ⟨hheader, hmembers.siblings⟩
  · rcases hmem with hmem | ⟨t, ht, hmem⟩
    · exact hlaid.text_eq hmem
    · exact (hlaid.types t ht).2.text_eq hmem

/-- A type with two attributes, a comment, a semicolon and a function in its body. -/
def sparseSource : List Char :=
  "// keys\n@objc @L10n(1) enum A \x7b ; /* \x7d */ case a // \x7d\n func f() \x7b \x7d \n\x7d ;\n".toList

theorem spans_of_readSource_sparseSource :
    ∃ ds, readSource {} sparseSource = .ok ds ∧ ds.length = 1 ∧
      Siblings sparseSource 0 sparseSource.length ds ∧
      ∀ t ∈ types ds, HeaderPlaced sparseSource t.toTypeHeader := by
  have hchecked : (readSource {} sparseSource).toOption.any (·.length == 1) = true := by
    decide +kernel
  cases hread : readSource {} sparseSource with
  | error f => simp [hread, Except.toOption] at hchecked
  | ok ds =>
    obtain ⟨hsiblings, htypes, -⟩ := spans_of_readSource hread
    exact ⟨ds, rfl, by simpa [hread, Except.toOption] using hchecked, hsiblings,
      fun t ht => (htypes t ht).1⟩

end LocalizedKeys.Swift
