import ServiceCatalog.Proofs.Parse.Places

/-!
# Members at the beginning of a line

A class or a type alias is read alike whether it begins a line or not: the token that it begins with is a mark, a
modifier or a keyword, and no parser of one of them asks for the line it stands on.  What is behind that token is the
same in both files, so from there on the parsers do the same (`Follows`).

* `Seam.Starts`: two cursors at such tokens.  `Begins` says of a parser that it does the same at them.
* `Seam.reads_behind`: members are read alike where the ends of two files are all that they differ in.
* `Seam.Starts.reads`: so are the members from a class or a type alias on.
-/

namespace ServiceCatalog

open TokenParser

namespace Seam

variable {c c' k k' : Cursor} {e e' : Token}

/-- The ends of two files. -/
def ends (e e' : Token) : Seam := ⟨false, [], [], e, e'⟩

/-- Whether two cursors stand at the same token, at the beginning of a line or not, and the ends of the files are all
that they differ in behind it. -/
structure Starts (e e' : Token) (c c' : Cursor) : Prop where
  sound : c.Sound
  sound' : c'.Sound
  goes_on : c.kind ≠ .eof
  kind : c'.kind = c.kind
  lexeme : c'.peek.lexeme = c.peek.lexeme
  advance : (ends e e').Near c.advance c'.advance

theorem Near.starts (h : (ends e e').Near c c') (hend : c.kind ≠ .eof) : Starts e e' c c' := by
  rcases h.cases with hat | hbefore
  · refine absurd ?_ hend
    rw [Cursor.kind, Cursor.peek, Cursor.peekNth, hat.rest]
    exact h.sound.eof
  · exact ⟨h.sound, h.sound', hend, hbefore.same.kind, hbefore.same.lexeme, hbefore.advance (by simp [ends])⟩

theorem Near.size_eq (h : (ends e e').Near c c') : c'.size = c.size := h.size.1

theorem Near.sound_ends (h : (ends e e').Near c c') : (ends e e').Sound :=
  .atEnd ((congrArg Token.kind h.eof).symm.trans h.sound.eof) ((congrArg Token.kind h.eof').symm.trans h.sound'.eof)

namespace Starts

variable (h : Starts e e' c c')

include h

theorem size : c'.size = c.size := by
  have hsize := h.advance.size_eq
  have hpos := Cursor.size_advance_lt h.sound h.goes_on
  have hpos' := Cursor.size_advance_lt h.sound' (h.kind.trans_ne h.goes_on)
  rw [Cursor.size_advance] at hpos hpos'
  rw [Cursor.size_advance, Cursor.size_advance] at hsize
  omega

theorem secondKind : c'.secondKind = c.secondKind := by
  rw [← Cursor.kind_advance h.sound h.goes_on, ← Cursor.kind_advance h.sound' (h.kind.trans_ne h.goes_on)]
  refine (h.advance.kind h.advance.sound_ends).resolve_right ?_
  rintro ⟨-, -, hsize, hpos⟩
  rw [hsize] at hpos
  exact absurd hpos (Nat.lt_irrefl 0)

theorem isAt (kind : TokenKind) : c'.isAt kind = c.isAt kind := congrArg (· == kind) h.kind

theorem isAtModifier : isAtModifier c' = isAtModifier c := by
  rw [TokenParser.isAtModifier, TokenParser.isAtModifier, h.isAt, h.lexeme, h.secondKind]

theorem isAtItem (hc : c.IsAtItem) : c'.IsAtItem :=
  ⟨h.kind.trans_ne hc.not_eof, h.kind.trans_ne hc.not_brace, h.kind.trans_ne hc.not_semicolon⟩

end Starts

end Seam

/-! ## Parsers of what members begin with -/

namespace TokenParser

open Seam

/-- Whether a parser that is called at the same token, at the beginning of a line or not, and under a condition, does the
same and passes the token. -/
def Begins {α : Type} [HasPlaces α] (e e' : Token) (P : Cursor → Prop) (p p' : TokenParser α) : Prop :=
  ∀ c c', Starts e e' c c' → P c → ∀ a k, p c = .ok a k →
    ∃ a' k', p' c' = .ok a' k' ∧ unplaced a' = unplaced a ∧ (ends e e').Near k k'

namespace Begins

variable {α β : Type} [HasPlaces α] [HasPlaces β] {e e' : Token} {P : Cursor → Prop} {p p' : TokenParser α}
  {f f' : α → TokenParser β}

/-- Behind the token, what follows does the same. -/
theorem bind_of {Q : α → Cursor → Prop} (hp : Begins e e' P p p')
    (hmid : ∀ c, c.Sound → P c → ∀ a k, p c = .ok a k → Q a k)
    (hf : ∀ a a', unplaced a' = unplaced a → Follows (ends e e') (Q a) (f a) (f' a')) :
    Begins e e' P (p >>= f) (p' >>= f') := by
  intro c c' h hc b m hok
  obtain ⟨a, k, hfirst, hsecond⟩ := bind_eq_ok.mp hok
  obtain ⟨a', k', hfirst', ha, hnear⟩ := hp c c' h hc a k hfirst
  have hQ := hmid c h.sound hc a k hfirst
  obtain ⟨b', m', hsecond', hb, hnear'⟩ := ((hf a a' ha).tracks k k' hnear hQ).ok b m hsecond (.inr (Nat.zero_le _))
  exact ⟨b', m', bind_eq_ok.mpr ⟨a', k', hfirst', hsecond'⟩, hb, hnear'⟩

theorem bind (hp : Begins e e' P p p')
    (hf : ∀ a a', unplaced a' = unplaced a → Follows (ends e e') (fun _ => True) (f a) (f' a')) :
    Begins e e' P (p >>= f) (p' >>= f') :=
  bind_of hp (fun _ _ _ _ _ _ => trivial) hf

theorem ite_test {t : Cursor → Bool} {q q' : TokenParser α} (ht : ∀ c c', Starts e e' c c' → P c → t c' = t c)
    (hp : Begins e e' (fun c => P c ∧ t c = true) p p') (hq : Begins e e' (fun c => P c ∧ t c = false) q q') :
    Begins e e' P (test t >>= fun b => if b = true then p else q) (test t >>= fun b => if b = true then p' else q') := by
  intro c c' h hc a k hok
  change (if t c = true then p else q) c = .ok a k at hok
  show ∃ a' k', (if t c' = true then p' else q') c' = .ok a' k' ∧ _
  rw [ht c c' h hc]
  cases htest : t c with
  | true =>
    rw [htest] at hok
    exact hp c c' h ⟨hc, htest⟩ a k hok
  | false =>
    rw [htest] at hok
    exact hq c c' h ⟨hc, htest⟩ a k hok

theorem unplaced_peek {c c' : Cursor} (h : Starts e e' c c') : unplaced c'.peek = unplaced c.peek := by
  show (⟨_, _, _, _⟩ : Token) = ⟨_, _, _, _⟩
  rw [h.lexeme]
  exact congrArg (Token.mk · c.peek.lexeme default default) h.kind

theorem next : Begins e e' P TokenParser.next TokenParser.next := by
  intro c c' h _ t k hok
  cases hok
  exact ⟨_, _, rfl, unplaced_peek h, h.advance⟩

theorem expect {kind : TokenKind} : Begins e e' P (TokenParser.expect kind) (TokenParser.expect kind) := by
  intro c c' h _ t k hok
  obtain ⟨hkind, rfl, rfl⟩ := expect_eq_ok.mp hok
  exact ⟨_, _, expect_eq_ok.mpr ⟨h.kind.trans hkind, rfl, rfl⟩, unplaced_peek h, h.advance⟩

/-- Where the first turn passes the token, the others do the same. -/
theorem manyWhile {t : Cursor → Bool} (ht : ∀ c c', Starts e e' c c' → t c' = t c)
    (hp : Begins e e' (fun c => t c = true) p p')
    (hothers : Follows (ends e e') (fun _ => True) (TokenParser.manyWhile t p) (TokenParser.manyWhile t p')) :
    Begins e e' (fun c => t c = true) (TokenParser.manyWhile t p) (TokenParser.manyWhile t p') := by
  intro c c' h hc as k hok
  have hc' : t c' = true := (ht c c' h).trans hc
  rw [TokenParser.manyWhile, if_pos hc] at hok
  rw [TokenParser.manyWhile, if_pos hc']
  cases hturn : p c with
  | error error d =>
    rw [hturn] at hok
    contradiction
  | ok a d =>
    obtain ⟨a', d', hturn', ha, hnear⟩ := hp c c' h hc a d hturn
    rw [hturn] at hok
    rw [hturn']
    dsimp only at hok ⊢
    rw [hnear.size_eq, h.size]
    split at hok
    · next hless =>
      rw [if_pos hless]
      cases hrest : TokenParser.manyWhile t p d with
      | error error d =>
        rw [hrest] at hok
        contradiction
      | ok bs m =>
        rw [hrest] at hok
        cases hok
        obtain ⟨bs', m', hrest', hbs, hnear'⟩ := (hothers.tracks d d' hnear trivial).ok bs k hrest (.inr (Nat.zero_le _))
        rw [hrest']
        exact ⟨a' :: bs', m', rfl, congrArg₂ List.cons ha hbs, hnear'⟩
    · next hless =>
      rw [if_neg hless]
      cases hok
      exact ⟨[a'], d', rfl, congrArg (· :: []) ha, hnear⟩

section Members

variable (hs : (ends e e').Sound)

include hs

theorem annotationGroup : Begins e e' (fun c => c.isAt .at = true) (TokenParser.annotationGroup TokenParser.type value)
    (TokenParser.annotationGroup TokenParser.type value) := by
  unfold TokenParser.annotationGroup
  refine ite_test (fun c c' h _ => by rw [h.secondKind]) ?_ ?_
  · refine bind_of (Q := fun _ c => c.kind = .leftBracket) next (fun c hc hpre t k hok => ?_)
      fun mark mark' _ => .groupEntries hs mark mark'
    cases hok
    rw [Cursor.kind_advance hc (by rw [Cursor.isAt_iff.mp hpre.1]; nofun)]
    exact beq_iff_eq.mp hpre.2
  · have huse : ∀ {P : Cursor → Prop}, Begins e e' P TokenParser.annotationUse TokenParser.annotationUse :=
      bind expect fun mark mark' _ => .annotationTail hs (shifts_rest _) (typesFollow _ _) (valuesFollow _ _) mark mark'
    exact bind huse fun _ _ ha => .pure (congrArg (· :: []) ha)

theorem annotations : Begins e e' (fun c => c.isAt .at = true) TokenParser.annotations TokenParser.annotations := by
  unfold TokenParser.annotations TokenParser.annotationsWith
  refine bind (manyWhile (fun c c' h => h.isAt .at) (annotationGroup hs) ?_) fun as as' has => .pure ?_
  · exact .manyWhile (.isAt_at hs consumes_annotationGroup) (.annotationGroup hs)
  · show (as'.flatten).map unplaced = (as.flatten).map unplaced
    rw [List.map_flatten, List.map_flatten]
    exact congrArg List.flatten has

theorem preambleItem : Begins e e' P TokenParser.preambleItem TokenParser.preambleItem := by
  unfold TokenParser.preambleItem
  refine ite_test (fun c c' h _ => h.isAt .at) (bind ?_ fun as as' has => .pure ?_) (bind next fun t t' ht => .pure ?_)
  · exact fun c c' h hc => annotations hs c c' h hc.2
  · exact congrArg (Preamble.mk · []) has
  · have hlexeme : (unplaced t').lexeme = (unplaced t).lexeme := congrArg Token.lexeme ht
    change t'.lexeme = t.lexeme at hlexeme
    rw [hlexeme]

theorem preamble : Begins e e' (fun c => (c.isAt .at || isAtModifier c) = true) TokenParser.preamble
    TokenParser.preamble := by
  unfold TokenParser.preamble
  refine bind (manyWhile (fun c c' h => ?_) (preambleItem hs) (.preambleItems hs)) fun _ _ hitems =>
    .pure (Follows.unplaced_flatMap hitems)
  show (c'.isAt .at || isAtModifier c') = (c.isAt .at || isAtModifier c)
  rw [h.isAt, h.isAtModifier]

theorem typeAlias (start start' : Span) {as as' : List AnnotationUse} (has : unplaced as' = unplaced as) :
    Begins e e' P (TokenParser.typeAlias start as) (TokenParser.typeAlias start' as') := by
  rw [typeAlias_eq, typeAlias_eq]
  exact bind expect fun mark mark' _ => .aliasTail hs rfl start start' has mark mark'

theorem classNaming {modifiers : List String} {kind : ClassKind} :
    Begins e e' (fun c => classKind? modifiers c = some kind) (TokenParser.classNaming kind)
      (TokenParser.classNaming kind) := by
  rw [classNaming_eq]
  intro c c' h hc name k hok
  obtain ⟨found, d, heat, hnamed⟩ := bind_eq_ok.mp hok
  obtain ⟨-, before, -, -, -, hkeyword⟩ := eat_fun_ok h.sound hc heat
  have hd : d.kind.isSingle = true := hkeyword ▸ Follows.isSingle_keyword kind
  have hname : ∀ keyword keyword' : Token, unplaced keyword' = unplaced keyword →
      Follows (ends e e') (fun _ => True) _ _ := fun keyword keyword' _ => .nameBehind hs kind keyword keyword'
  by_cases hfun : c.isAt .fun = true
  · -- a function's keyword in front of that of an interface
    rw [eat, if_pos hfun] at heat
    cases heat
    obtain ⟨name', k', hnamed', hname, hnear⟩ := ((Follows.bind (.next hs fun d (hd : d.kind.isSingle = true) => hd)
      hname).tracks _ _ h.advance hd).ok name k hnamed (.inr (Nat.zero_le _))
    refine ⟨name', k', bind_eq_ok.mpr ⟨true, c'.advance, ?_, hnamed'⟩, hname, hnear⟩
    rw [eat, if_pos (by rw [h.isAt, hfun])]
  · rw [eat, if_neg hfun] at heat
    cases heat
    obtain ⟨name', k', hnamed', hname, hnear⟩ := bind (P := fun _ => True) next hname c c' h trivial name k hnamed
    refine ⟨name', k', bind_eq_ok.mpr ⟨false, c', ?_, hnamed'⟩, hname, hnear⟩
    rw [eat, if_neg (by rw [h.isAt]; exact hfun)]

end Members

end Begins

end TokenParser

/-! ## Members -/

namespace Seam

variable {c c' k k' : Cursor} {e e' : Token} {ms : List Member}

theorem not_doomed_of_end {s : Seam} (hk : k.kind = .eof ∨ k.kind = .rightBrace) : ¬s.Doomed k := by
  intro hdoomed
  rcases hk with hk | hk
  · have := hdoomed.idle.isAt (k := .eof) (by decide)
    rw [Cursor.isAt_iff.mpr hk] at this
    contradiction
  · exact hdoomed.not_brace hk

/-- Members are read alike where the ends of the files are all that they differ in. -/
theorem reads_behind (hs : (ends e e').Sound) (hothers : Reads c ms k)
    (hnear : (ends e e').Near c c') (hk : k.kind = .eof ∨ k.kind = .rightBrace) :
    ∃ ms' k', Reads c' ms' k' ∧ unplaced ms' = unplaced ms ∧ k'.kind = k.kind ∧
      (ends e e').Near k.advance k'.advance := by
  have hmoves := hothers.precedes hnear.sound
  obtain ⟨ms', k', hreads, hms, hparts | hlands⟩ := reads_of_near (q := c) hs rfl (fun hpos => absurd hpos (Nat.lt_irrefl 0))
    hothers hnear (Nat.zero_le _) (fun hsize hpos => absurd hpos (by rw [hsize]; exact Nat.lt_irrefl 0))
    (not_doomed_of_end hk)
  · refine ⟨ms', k', hreads, hms, ?_⟩
    rcases hparts.cases with hat | hbefore
    · rcases hat.kinds_of_open hs rfl with ⟨hend, hend'⟩ | ⟨-, -, hpos⟩
      · have hstays : ∀ {d : Cursor}, d.rest = [] → d.advance = d := fun {d} hrest => by
          obtain ⟨previous, rest, eof⟩ := d
          obtain rfl : rest = [] := hrest
          rfl
        rw [hstays hat.rest, hstays hat.rest']
        exact ⟨hend'.trans hend.symm, hparts⟩
      · rw [Cursor.size, hat.rest] at hpos
        exact absurd hpos (Nat.lt_irrefl 0)
    · exact ⟨hbefore.same.kind, hbefore.advance (by simp [ends])⟩
  · have := Cursor.size_advance_lt (hmoves.sound hnear.sound) (by rw [hlands.brace]; decide)
    rw [hlands.size] at this
    exact absurd this (Nat.not_lt_zero _)

namespace Starts

variable (h : Starts e e' c c')

include h

/-- In front of a class or a type alias, the annotations and modifiers are read alike. -/
theorem exists_preamble {before : Preamble} (hbefore : preamble c = .ok before k) (hend : k.kind ≠ .eof) :
    ∃ before' k', preamble c' = .ok before' k' ∧ unplaced before' = unplaced before ∧ Starts e e' k k' := by
  cases htest : c.isAt .at || TokenParser.isAtModifier c with
  | true =>
    obtain ⟨before', k', hbefore', hunplaced, hnear⟩ :=
      Begins.preamble h.advance.sound_ends c c' h htest before k hbefore
    exact ⟨before', k', hbefore', hunplaced, hnear.starts hend⟩
  | false =>
    rw [preamble_of_not htest] at hbefore
    cases hbefore
    refine ⟨_, c', preamble_of_not ?_, rfl, h⟩
    rw [h.isAt, h.isAtModifier, htest]

/-- A class or a type alias begins in both files. -/
theorem isAtKept (hkept : c.IsAtKept) : c'.IsAtKept := by
  obtain ⟨before, k, hbefore, hkept⟩ := hkept
  obtain ⟨before', k', hbefore', hunplaced, hk⟩ :=
    h.exists_preamble hbefore (ne_of_mem_of_not_mem (kind_of_kept hkept) (by decide))
  refine ⟨before', k', hbefore', ?_⟩
  rwa [(parts_of_unplaced hunplaced).2, classKind?_congr _ hk.kind hk.secondKind, hk.kind]

/-- The head of a class is read alike. -/
theorem exists_readsHead {as : List AnnotationUse} {kind : ClassKind} {name : Ident} {ts : List TypeRef}
    (hhead : ReadsHead c as kind name ts k) (hdoomed : ¬(ends e e').Doomed k) : ∃ as' name' ts' k',
      ReadsHead c' as' kind name' ts' k' ∧ unplaced as' = unplaced as ∧ unplaced name' = unplaced name ∧
        unplaced ts' = unplaced ts ∧ (ends e e').Near k k' := by
  have hs := h.advance.sound_ends
  cases hhead with | @mk c₁ _ before _ _ _ hc hbefore hkind hhead =>
  have hend : c₁.kind ≠ .eof := by
    have hkept := kind_of_classKind? (hkind ▸ rfl : (classKind? before.modifiers c₁).isSome = true)
    exact ne_of_mem_of_not_mem hkept (by decide)
  obtain ⟨before', c₁', hbefore', hunplaced, h₁⟩ := h.exists_preamble hbefore hend
  obtain ⟨has, hmodifiers⟩ := parts_of_unplaced hunplaced
  have hkind' : classKind? before'.modifiers c₁' = some kind := by
    rw [hmodifiers, classKind?_congr _ h₁.kind h₁.secondKind, hkind]
  rw [classHead_eq_behindName] at hhead
  obtain ⟨written, d, hnaming, hrest⟩ := bind_eq_ok.mp hhead
  obtain ⟨written', d', hnaming', hwritten, hnear⟩ := Begins.classNaming hs c₁ c₁' h₁ hkind written d hnaming
  have hheads : (ends e e').Heads (name, ts) k (behindName written' d') :=
    heads_behindName hs rfl hnear hwritten hrest (Nat.zero_le _)
      fun hsize hpos => absurd hpos (by rw [hsize]; exact Nat.lt_irrefl 0)
  obtain ⟨⟨name', ts'⟩, k', hrest', hr, hparts⟩ := hheads.resolve_left hdoomed
  have hhead' : classHead kind c₁' = .ok (name', ts') k' := by
    rw [classHead_eq_behindName]
    exact bind_eq_ok.mpr ⟨written', d', hnaming', hrest'⟩
  refine ⟨_, name', ts', k', ⟨h.isAtItem hc, hbefore', hkind', hhead'⟩, has, congrArg Prod.fst hr, congrArg Prod.snd hr, ?_⟩
  exact hparts.resolve_right fun hearly => absurd hearly.pos (Nat.lt_irrefl 0)

/-- Members from a class or a type alias on are read alike. -/
theorem reads (hkept : c.IsAtKept) (hreads : Reads c ms k) (hk : k.kind = .eof ∨ k.kind = .rightBrace) :
    ∃ ms' k', Reads c' ms' k' ∧ unplaced ms' = unplaced ms ∧ k'.kind = k.kind ∧
      (ends e e').Near k.advance k'.advance := by
  have hs := h.advance.sound_ends
  have hend : ¬(ends e e').Doomed k := not_doomed_of_end hk
  cases hreads with
  | nil =>
    rcases hk with hk | hk
    · exact absurd hk h.goes_on
    · exact absurd hk hkept.not_brace
  | mark hsemicolon => exact absurd hsemicolon hkept.not_semicolon
  | @typeAlias _ d₁ d₂ _ before _ _ hc hbefore hkeyword halias hothers =>
    obtain ⟨before', d₁', hbefore', hunplaced, h₁⟩ := h.exists_preamble hbefore (by rw [hkeyword]; decide)
    obtain ⟨a', d₂', halias', ha, hnear⟩ := Begins.typeAlias (P := fun _ => True) hs c.peek.span c'.peek.span
      (parts_of_unplaced hunplaced).1 d₁ d₁' h₁ trivial _ d₂ halias
    obtain ⟨ms', k', hothers', hms, hkind, hadvance⟩ := reads_behind hs hothers hnear hk
    exact ⟨.typeAlias a' :: ms', k', .typeAlias (h.isAtItem hc) hbefore' (h₁.kind.trans hkeyword) halias' hothers',
      congrArg₂ List.cons (congrArg Member.typeAlias ha) hms, hkind, hadvance⟩
  | @bodiless _ d₁ _ as kind name ts _ hhead hbrace hothers =>
    have hdoomed := not_doomed_of_reads hothers ((hhead.precedes h.sound).sound h.sound) (Nat.zero_le _) hend
    obtain ⟨as', name', ts', d₁', hhead', has, hname, hts, hnear⟩ := h.exists_readsHead hhead hdoomed
    have hbrace' : d₁'.kind ≠ .leftBrace := by
      have hsame : d₁'.isAt .leftBrace = _ := hnear.isAt hs (.inr (by decide))
      simpa [Cursor.isAt, hbrace] using hsame
    obtain ⟨ms', k', hothers', hms, hkind, hadvance⟩ := reads_behind hs hothers hnear hk
    exact ⟨_, k', .bodiless hhead' hbrace' hothers',
      congrArg₂ List.cons (unplaced_class kind hname has hts rfl) hms, hkind, hadvance⟩
  | @embodied _ d₁ d₂ _ as kind name ts inner _ hhead hbrace hinner hclose hothers =>
    have hdoomed : ¬(ends e e').Doomed d₁ := fun hdoomed => by
      have := hdoomed.idle.isAt (k := .leftBrace) (by decide)
      rw [Cursor.isAt_iff.mpr hbrace] at this
      contradiction
    obtain ⟨as', name', ts', d₁', hhead', has, hname, hts, hnear⟩ := h.exists_readsHead hhead hdoomed
    have h₁ := hnear.starts (by rw [hbrace]; decide)
    obtain ⟨inner', d₂', hinner', hinners, hclose', hnear₂⟩ := reads_behind hs hinner h₁.advance (.inr hclose)
    obtain ⟨ms', k', hothers', hms, hkind, hadvance⟩ := reads_behind hs hothers hnear₂ hk
    exact ⟨_, k', .embodied hhead' (h₁.kind.trans hbrace) hinner' (hclose'.trans hclose) hothers',
      congrArg₂ List.cons (unplaced_class kind hname has hts (unplaced_classes hinners)) hms, hkind, hadvance⟩
  | passed _ hbefore hkeyword hnone => exact absurd (hkept.keyword hbefore) (by simp [hkeyword, hnone])

end Starts

end Seam

end ServiceCatalog
