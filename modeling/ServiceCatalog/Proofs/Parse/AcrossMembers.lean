import ServiceCatalog.Proofs.Parse.AcrossClasses

/-!
# Members in front of a seam

Up to an open seam, members are read alike in both files.  At the seam, a function or a property begins in the second
file that its reader passes (`Seam.Skips`), and if a brace comes next in the first file, it may have been passed as a
part of what stands in front of it.
-/

namespace ServiceCatalog

open TokenParser

/-- In front of a token, the file does not end. -/
theorem Cursor.Sound.ne_eof {c : Cursor} (hc : c.Sound) (hpos : 0 < c.size) : c.kind ≠ .eof := by
  obtain ⟨previous, _ | ⟨t, ts⟩, eof⟩ := c
  · exact absurd hpos (Nat.lt_irrefl 0)
  · exact hc.rest t (List.mem_cons_self ..)

namespace TokenParser

variable {c k d : Cursor} {first : Bool}

/-- A member ends at the brace behind it and at the end of the file. -/
theorem skipMemberFrom_of_end (h : c.kind = .eof ∨ c.kind = .rightBrace) (first : Bool) :
    skipMemberFrom first c = ([], c) := by
  rw [skipMemberFrom.eq_def]
  rcases h with h | h <;> rw [h]

theorem skipMemberFrom_of_semicolon (h : c.kind = .semicolon) (first : Bool) :
    skipMemberFrom first c = ([], c.advance) := by
  rw [skipMemberFrom.eq_def, h]

/-- A member ends where the next one begins. -/
theorem skipMemberFrom_of_isAtMember (h : c.isAtMember = true) : skipMemberFrom false c = ([], c) := by
  rw [skipMemberFrom.eq_def]
  split
  · rfl
  · rfl
  · next hkind => simp [Cursor.isAtMember, hkind] at h
  · rw [if_pos (by simpa using h)]

/-- A token or group inside a member is passed, and then the rest of it. -/
theorem skipMemberFrom_of_skipOne (hend : c.kind ∉ [TokenKind.eof, .rightBrace, .semicolon, .rightParen, .rightBracket])
    (hmember : (!first && c.isAtMember) = false) (hone : skipOne c = .ok () d) (hless : d.size < c.size) :
    skipMemberFrom first c = skipMemberFrom false d := by
  simp only [List.mem_cons, List.not_mem_nil, or_false, not_or] at hend
  rw [skipMemberFrom.eq_def]
  split
  · exact absurd ‹_› hend.1
  · exact absurd ‹_› hend.2.1
  · exact absurd ‹_› hend.2.2.1
  · rw [if_neg (by rw [hmember]; decide), if_neg (by simp [hend.2.2.2]), hone]
    exact if_pos hless

/-- What is passed of a member without an error: nothing, if the next one begins, or a token or group and the rest. -/
theorem skipMemberFrom_inside (hc : c.Sound) (hok : skipMemberFrom first c = ([], k))
    (hend : c.kind ∉ [TokenKind.eof, .rightBrace, .semicolon]) : (!first && c.isAtMember) = true ∧ k = c ∨
      (!first && c.isAtMember) = false ∧ c.kind ∉ [TokenKind.eof, .rightBrace, .semicolon, .rightParen, .rightBracket] ∧
        ∃ d, skipOne c = .ok () d ∧ d.size < c.size ∧ skipMemberFrom false d = ([], k) := by
  simp only [List.mem_cons, List.not_mem_nil, or_false, not_or] at hend
  rw [skipMemberFrom.eq_def] at hok
  split at hok
  · exact absurd ‹_› hend.1
  · exact absurd ‹_› hend.2.1
  · exact absurd ‹_› hend.2.2
  · split at hok
    · next hmember =>
      cases hok
      exact .inl ⟨hmember, rfl⟩
    · next hmember =>
      split at hok
      · cases hok
      · next hclosing =>
        cases hone : skipOne c with
        | error e d =>
          rw [hone] at hok
          cases hok
        | ok u d =>
          have hless := size_skipOne_lt hc hend.1 hone
          rw [hone] at hok
          simp only [if_pos hless] at hok
          refine .inr ⟨Bool.eq_false_iff.mpr hmember, ?_, d, rfl, hless, hok⟩
          simp only [List.mem_cons, List.not_mem_nil, or_false, not_or]
          simp only [Bool.or_eq_true, decide_eq_true_eq, not_or] at hclosing
          exact ⟨hend.1, hend.2.1, hend.2.2, hclosing⟩

end TokenParser

namespace Seam

variable {s : Seam} {c c' k k' q : Cursor}

/-- Whether what begins at a seam in the second file is passed as a member up to a cursor. -/
structure Skips (s : Seam) (q : Cursor) : Prop where
  skip : ∀ c c', s.AtSeam c c' → skipMember c' = ([], q)
  second : ∀ c c', s.AtSeam c c' → c.kind ≠ .interface → c'.kind = .fun → c'.secondKind ≠ .interface

/-- Whether the members of the first file end at a seam, in front of a brace, and the second file is in front of the
member that is passed there or behind it. -/
structure Lands (s : Seam) (q k k' : Cursor) : Prop where
  brace : k.kind = .rightBrace
  size : k.size = s.rest.length
  reads : Reads k' [] q

/-- No class begins with a function or a property. -/
theorem classKind?_of_kind (modifiers : List String) (hkind : c.kind ∈ [TokenKind.fun, .val, .var])
    (hsecond : c.kind = .fun → c.secondKind ≠ .interface) : classKind? modifiers c = none := by
  simp only [List.mem_cons, List.not_mem_nil, or_false] at hkind
  rcases hkind with hkind | hkind | hkind <;> simp_all [classKind?]

section Passed

variable (hs : s.Sound) (hopen : s.isClosed = false) (hskips : s.Skips q)

include hs hopen hskips

/-- What begins at a seam in the second file is read as a member that is not kept. -/
theorem AtSeam.reads (h : s.AtSeam c c') (hend : c.kind ≠ .eof)
    (hsecond : c'.kind = .fun → c'.secondKind ≠ .interface) : Reads c' [] q := by
  obtain ⟨hmember, hkind, -⟩ := (h.kinds_of_open hs hopen).resolve_left fun hkinds => hend hkinds.1
  have hne : ∀ {k}, k ∉ [TokenKind.fun, .val, .var] → c'.kind ≠ k := fun hk => ne_of_mem_of_not_mem hkind hk
  refine .passed ⟨hne (by decide), hne (by decide), hne (by decide)⟩ (preamble_of_kind fun hmem => ?_) (hne (by decide))
    (classKind?_of_kind _ hkind hsecond) (hskips.skip c c' h) .nil
  have hnone : ∀ kind ∈ [TokenKind.fun, .val, .var], kind ∉ [TokenKind.at, .identifier] := by decide
  exact hnone _ hkind hmem

/-- A modifier in front of the seam is one of what begins there in the second file. -/
theorem Early.lands (h : s.Early k k') : s.Lands q k k' := by
  obtain ⟨t, hrest, hkind, hword⟩ := h.front'
  have hat : s.AtSeam k k'.advance :=
    ⟨h.rest, by simp [Cursor.advance, hrest], h.eof, by rw [Cursor.eof_advance, h.eof']⟩
  have hend : k.kind ≠ .eof := by rw [h.brace]; decide
  obtain ⟨-, hmember, -⟩ := (hat.kinds_of_open hs hopen).resolve_left fun hkinds => hend hkinds.1
  have hpeek : k'.kind = .identifier ∧ isModifier k'.peek.lexeme = true := by
    simp only [Cursor.kind, Cursor.peek, Cursor.peekNth, hrest]
    exact ⟨hkind, hword⟩
  have hne : ∀ {kind}, kind ∉ [TokenKind.fun, .val, .var] → k'.advance.kind ≠ kind := fun hk =>
    ne_of_mem_of_not_mem hmember hk
  have hmodifier : isAtModifier k' = true := by
    have hsecond := Cursor.kind_advance h.sound' (by rw [hpeek.1]; decide)
    simp [isAtModifier, Cursor.isAt, hpeek.1, hpeek.2, ← hsecond, hne]
  have hpreamble : preamble k' = .ok ⟨[], [k'.peek.lexeme]⟩ k'.advance := by
    refine bind_eq_ok.mpr ⟨[⟨[], [k'.peek.lexeme]⟩], k'.advance, ?_, rfl⟩
    have hitem : preambleItem k' = .ok ⟨[], [k'.peek.lexeme]⟩ k'.advance := by
      show (if k'.isAt .at = true then _ else _ : TokenParser Preamble) k' = _
      rw [if_neg (by simp [Cursor.isAt, hpeek.1])]
      rfl
    have hstop : ¬(k'.advance.isAt .at || isAtModifier k'.advance) = true := by
      simp [isAtModifier, Cursor.isAt, hne]
    rw [manyWhile, if_pos (by rw [hmodifier, Bool.or_true]), hitem]
    simp only [if_pos (Cursor.size_advance_lt h.sound' (by rw [hpeek.1]; decide))]
    rw [manyWhile, if_neg hstop]
  refine ⟨h.brace, by rw [Cursor.size, h.rest], .passed ?_ hpreamble (hne (by decide)) ?_ (hskips.skip k _ hat) .nil⟩
  · exact ⟨by rw [hpeek.1]; decide, by rw [hpeek.1]; decide, by rw [hpeek.1]; decide⟩
  · exact classKind?_of_kind _ hmember (hskips.second k _ hat (by rw [h.brace]; decide))

end Passed

section Members

variable (hs : s.Sound) (hopen : s.isClosed = false) (hskips : 0 < s.rest.length → s.Skips q)

include hs hopen hskips

/-- A member that is passed up to a place in front of an open seam is passed up to the same place in both files, or the
members end at the seam in the first one. -/
theorem tracks_skipMemberFrom {first : Bool} (h : s.Near c c') (hok : skipMemberFrom first c = ([], k))
    (hk : s.rest.length ≤ k.size) (hclear : s.Clear k) :
    s.Doomed k ∨ ∃ k', skipMemberFrom first c' = ([], k') ∧ (s.Near k k' ∨ s.Lands q k k') := by
  induction hsize : c.size using Nat.strongRecOn generalizing first c c' with
  | _ size ih =>
    rcases h.cases with hat | hbefore
    · have hlength : c.size = s.rest.length := by rw [Cursor.size, hat.rest]
      have hmoves : c.Precedes k := by
        have := precedes_skipMemberFrom first c
        rwa [hok] at this
      obtain rfl : k = c := hmoves.eq_of_size_le (by omega)
      rcases hat.kinds_of_open hs hopen with ⟨-, hend'⟩ | ⟨-, hmember', hpos⟩
      · exact .inr ⟨c', skipMemberFrom_of_end (.inl hend') first, .inl h⟩
      · cases first with
        | false =>
          have hselector : c'.isAfterSelector = false := h.selector.trans (hclear hlength hpos)
          exact .inr ⟨c', skipMemberFrom_of_isAtMember (isAtMember_of_kind hmember' hselector), .inl h⟩
        | true =>
          have hbrace : k.kind = .rightBrace := by
            by_contra hbrace
            exact absurd (size_skipMember_lt h.sound (h.sound.ne_eof hpos) hbrace hok) (Nat.lt_irrefl _)
          exact .inr ⟨q, (hskips (hlength ▸ hpos)).skip k c' hat, .inr ⟨hbrace, hlength, .nil⟩⟩
    · have hkind : c'.kind = c.kind := hbefore.same.kind
      by_cases hbrace : c.kind = .rightBrace
      · rw [skipMemberFrom_of_end (.inr hbrace)] at hok
        cases hok
        exact .inr ⟨c', skipMemberFrom_of_end (.inr (hkind.trans hbrace)) first, .inl h⟩
      by_cases hsemicolon : c.kind = .semicolon
      · rw [skipMemberFrom_of_semicolon hsemicolon] at hok
        cases hok
        refine .inr ⟨c'.advance, skipMemberFrom_of_semicolon (hkind.trans hsemicolon) first, .inl (hbefore.advance fun _ => ?_)⟩
        rw [hsemicolon]
        rfl
      have hinside : c.kind ∉ [TokenKind.eof, .rightBrace, .semicolon] := by
        simp only [List.mem_cons, List.not_mem_nil, or_false, not_or]
        exact ⟨hbefore.ne_eof, hbrace, hsemicolon⟩
      rcases skipMemberFrom_inside h.sound hok hinside with ⟨hmember, rfl⟩ | ⟨hmember, hend, d, hone, hless, hrest⟩
      · obtain ⟨rfl, hmember⟩ : first = false ∧ k.isAtMember = true := by
          simpa [Bool.and_eq_true] using hmember
        rcases isAtMember_of_before hs hopen h hbefore with heq | ⟨-, hdoomed⟩ | ⟨hmember', -⟩
        · exact .inr ⟨c', skipMemberFrom_of_isAtMember (heq.trans hmember), .inl h⟩
        · exact .inl hdoomed
        · exact .inr ⟨c', skipMemberFrom_of_isAtMember hmember', .inl h⟩
      · have hd : k.size ≤ d.size := by
          have := (precedes_skipMemberFrom false d).size_le
          rwa [hrest] at this
        have hfollows : Follows s (fun d => d = c) skipOne skipOne :=
          .skipOne hs fun d hd => ⟨hd ▸ hbefore.ne_eof, fun hclosed => by rw [hopen] at hclosed; contradiction⟩
        obtain ⟨_, d', hone', -, hnear⟩ := (hfollows.tracks c c' h rfl).ok () d hone (.inr (Nat.le_trans hk hd))
        -- where the second file passes the token, too, what comes behind it decides
        have hgo : (!first && c'.isAtMember) = false → s.Doomed k ∨ ∃ k', skipMemberFrom first c' = ([], k') ∧
            (s.Near k k' ∨ s.Lands q k k') := fun hmember' => by
          refine (ih d.size (hsize ▸ hless) hnear hrest rfl).imp_right ?_
          rintro ⟨k', hrest', hparts⟩
          refine ⟨k', ?_, hparts⟩
          rw [skipMemberFrom_of_skipOne (hkind ▸ hend) hmember' hone' ((h.size_lt_iff hnear).mpr hless), hrest']
        rcases isAtMember_of_before hs hopen h hbefore with heq | ⟨hmember', -⟩ | ⟨hmember', hidentifier, hclose, hearly⟩
        · exact hgo (by rw [heq, hmember])
        · cases first with
          | false =>
            rw [hmember'] at hmember
            contradiction
          | true => exact hgo rfl
        · cases first with
          | true => exact hgo rfl
          | false =>
            have hone₁ : skipOne c = .ok () c.advance := by
              unfold skipOne
              rw [hidentifier]
              rfl
            obtain rfl : d = c.advance := by
              rw [hone₁] at hone
              cases hone
              rfl
            rw [skipMemberFrom_of_end (.inr hclose)] at hrest
            cases hrest
            exact .inr ⟨c', skipMemberFrom_of_isAtMember hmember', .inr (hearly.lands hs hopen (hskips hearly.pos))⟩

end Members

/-! ## Classes -/

section Classes

variable (hs : s.Sound) (hopen : s.isClosed = false)

theorem isAtItem_of_before (hbefore : s.Before c c') (h : c.IsAtItem) : c'.IsAtItem :=
  have hkind : c'.kind = c.kind := hbefore.same.kind
  ⟨hkind.trans_ne h.not_eof, hkind.trans_ne h.not_brace, hkind.trans_ne h.not_semicolon⟩

include hs hopen

/-- The head of a class that ends in front of an open seam is read alike in both files. -/
theorem parts_of_readsHead {as : List AnnotationUse} {kind : ClassKind} {name : Ident} {ts : List TypeRef}
    (h : ReadsHead c as kind name ts k) (hnear : s.Near c c') (hk : s.rest.length ≤ k.size) (hclear : s.Clear k)
    (hdoomed : ¬s.Doomed k) : ∃ as' name' ts' k', ReadsHead c' as' kind name' ts' k' ∧ unplaced as' = unplaced as ∧
      unplaced name' = unplaced name ∧ unplaced ts' = unplaced ts ∧ s.Parts k k' := by
  cases h with | @mk c₁ _ before _ _ _ hc hbefore hkind hhead =>
  have hmoves : c.Precedes c₁ := precedes_of_ok forward_preamble hnear.sound hbefore
  have hless := size_classHead_lt (hmoves.sound hnear.sound) hkind hhead
  have hlength : s.rest.length < c₁.size := Nat.lt_of_le_of_lt hk hless
  obtain ⟨before', c₁', hbefore', hunplaced, hnear₁⟩ :=
    ((Follows.preamble (P := fun _ => True) hs).tracks c c' hnear trivial).ok before c₁ hbefore (.inr (Nat.le_of_lt hlength))
  obtain ⟨hannotations, hmodifiers⟩ := parts_of_unplaced hunplaced
  have hkind' : classKind? before'.modifiers c₁' = some kind := by
    rw [hmodifiers]
    rcases classKind?_of_before hs hopen hnear₁ (before_of_length_lt hnear₁ hlength) before.modifiers with heq | ⟨kind', hkind', hbeyond⟩
    · rw [heq, hkind]
    · obtain rfl := Option.some.inj (hkind'.symm.trans hkind)
      exact absurd (hbeyond _ k hhead) (Nat.not_lt.mpr hk)
  rcases heads_classHead hs hopen hnear₁ hkind hlength hhead hk hclear with hdoomed' | ⟨⟨name', ts'⟩, k', hhead', hr, hparts⟩
  · exact absurd hdoomed' hdoomed
  · have hc' : c'.IsAtItem :=
      isAtItem_of_before (before_of_length_lt hnear (Nat.lt_of_lt_of_le hlength hmoves.size_le)) hc
    exact ⟨_, name', ts', k', ⟨hc', hbefore', hkind', hhead'⟩, hannotations,
      congrArg Prod.fst hr, congrArg Prod.snd hr, hparts⟩

/-- A class in front of an open seam that has a body has one in both files. -/
theorem near_of_readsHead {as : List AnnotationUse} {kind : ClassKind} {name : Ident} {ts : List TypeRef}
    (h : ReadsHead c as kind name ts k) (hnear : s.Near c c') (hk : s.rest.length ≤ k.size) (hclear : s.Clear k)
    (hbrace : k.kind = .leftBrace) : ∃ as' name' ts' k', ReadsHead c' as' kind name' ts' k' ∧
      unplaced as' = unplaced as ∧ unplaced name' = unplaced name ∧ unplaced ts' = unplaced ts ∧ k'.kind = .leftBrace ∧
      s.Near k.advance k'.advance := by
  have hdoomed : ¬s.Doomed k := fun hdoomed => by
    have := hdoomed.idle.isAt (k := .leftBrace) (by decide)
    rw [Cursor.isAt_iff.mpr hbrace] at this
    contradiction
  obtain ⟨as', name', ts', k', hhead', has, hname, hts, hparts | hearly⟩ :=
    parts_of_readsHead hs hopen h hnear hk hclear hdoomed
  · have hpair : k.kind.closing? = some .rightBrace := by rw [hbrace]; rfl
    have hbefore := hparts.before_of_opening hs hpair
    exact ⟨as', name', ts', k', hhead', has, hname, hts, hbefore.same.kind.trans hbrace, hbefore.advance fun hclosed => by
      rw [hopen] at hclosed
      contradiction⟩
  · rw [hearly.brace] at hbrace
    contradiction

end Classes

/-! ## Members -/

theorem unplaced_class (kind : ClassKind) {name name' : Ident} {as as' : List AnnotationUse} {ts ts' : List TypeRef}
    {ds ds' : List ClassDecl} {span span' : Span} (hname : unplaced name' = unplaced name)
    (has : unplaced as' = unplaced as) (hts : unplaced ts' = unplaced ts) (hds : unplaced ds' = unplaced ds) :
    unplaced (Member.class ⟨kind, name', as', ts', ds', span'⟩) = unplaced (Member.class ⟨kind, name, as, ts, ds, span⟩) := by
  have hbare : ∀ (name : Ident) (as : List AnnotationUse) (ts : List TypeRef) (ds : List ClassDecl) (span : Span),
      ClassDecl.bare ⟨kind, name, as, ts, ds, span⟩ =
        ⟨kind, unplaced name, unplaced as, unplaced ts, unplaced ds, default⟩ := fun _ _ _ _ _ => by
    rw [ClassDecl.bare]
    rfl
  show Member.class (ClassDecl.bare _) = Member.class (ClassDecl.bare _)
  rw [hbare, hbare, hname, has, hts, hds]

/-- The classes among members that are the same apart from their places are so, too. -/
theorem unplaced_classes {ms ms' : List Member} (h : unplaced ms' = unplaced ms) :
    unplaced (ms'.filterMap Member.class?) = unplaced (ms.filterMap Member.class?) := by
  have hclasses : ∀ ms : List Member, unplaced (ms.filterMap Member.class?) = (unplaced ms).filterMap Member.class? := by
    intro ms
    show List.map unplaced _ = List.filterMap _ (List.map unplaced ms)
    rw [List.map_filterMap, List.filterMap_map]
    refine List.filterMap_congr fun m _ => ?_
    cases m <;> rfl
  rw [hclasses, hclasses, h]

section Reading

variable (hs : s.Sound) (hopen : s.isClosed = false) (hskips : 0 < s.rest.length → s.Skips q)

include hs hopen hskips

/-- Members that are read in front of an open seam are read alike in both files, by induction on how they are read. -/
theorem reads_of_near {ms : List Member} (h : Reads c ms k) (hnear : s.Near c c') (hk : s.rest.length ≤ k.size)
    (hclear : s.Clear k) (hend : ¬s.Doomed k) : ∃ ms' k', Reads c' ms' k' ∧ unplaced ms' = unplaced ms ∧
      (s.Near k k' ∨ s.Lands q k k') := by
  induction h generalizing c' with
  | nil => exact ⟨[], c', .nil, rfl, .inl hnear⟩
  | @mark c k ms hkind _ ih =>
    have hbefore := hnear.before_of_kind hs hkind rfl (by decide)
    have hnext := hbefore.advance fun _ => by rw [hkind]; rfl
    obtain ⟨ms', k', hothers', hms, hparts⟩ := ih hnext hk hclear hend
    exact ⟨ms', k', .mark (hbefore.same.kind.trans hkind) hothers', hms, hparts⟩
  | @typeAlias c c₁ c₂ k before a ms hc hbefore hkeyword halias hothers ih =>
    have hc₁ : c.Precedes c₁ := precedes_of_ok forward_preamble hnear.sound hbefore
    have hc₂ := precedes_of_ok (forward_typeAlias _ _) (hc₁.sound hnear.sound) halias
    have hsize := (hothers.precedes (hc₂.sound (hc₁.sound hnear.sound))).size_le
    have hlength : s.rest.length < c₁.size :=
      Nat.lt_of_le_of_lt (Nat.le_trans hk hsize) (size_typeAlias_lt (hc₁.sound hnear.sound) halias)
    obtain ⟨before', c₁', hbefore', hunplaced, hnear₁⟩ :=
      ((Follows.preamble (P := fun _ => True) hs).tracks c c' hnear trivial).ok before c₁ hbefore (.inr (Nat.le_of_lt hlength))
    have hfront := before_of_length_lt hnear₁ hlength
    obtain ⟨a', c₂', halias', ha, hnear₂⟩ := ((Follows.typeAlias (P := fun _ => True) hs hopen c.peek.span c'.peek.span
      (parts_of_unplaced hunplaced).1).tracks c₁ c₁' hnear₁ trivial).ok a c₂ halias (.inr (Nat.le_trans hk hsize))
    obtain ⟨ms', k', hothers', hms, hparts⟩ := ih hnear₂ hk hclear hend
    have hc' := isAtItem_of_before (before_of_length_lt hnear (Nat.lt_of_lt_of_le hlength hc₁.size_le)) hc
    exact ⟨.typeAlias a' :: ms', k', .typeAlias hc' hbefore' (hfront.same.kind.trans hkeyword) halias' hothers',
      congrArg₂ List.cons (congrArg Member.typeAlias ha) hms, hparts⟩
  | @bodiless c c₁ k as kind name ts ms hhead hbrace hothers ih =>
    have hc₁ := hhead.precedes hnear.sound
    have hmoves := hothers.precedes (hc₁.sound hnear.sound)
    have hdoomed := not_doomed_of_reads hothers (hc₁.sound hnear.sound) hk hend
    obtain ⟨as', name', ts', c₁', hhead', has, hname, hts, hnear₁ | hearly⟩ := parts_of_readsHead hs hopen hhead hnear
      (Nat.le_trans hk hmoves.size_le) (hclear.of_precedes hmoves hk) hdoomed
    · have hbrace' : c₁'.kind ≠ .leftBrace := by
        have hsame : c₁'.isAt .leftBrace = _ := hnear₁.isAt hs (.inr (by decide))
        simpa [Cursor.isAt, hbrace] using hsame
      obtain ⟨ms', k', hothers', hms, hparts⟩ := ih hnear₁ hk hclear hend
      exact ⟨_, k', .bodiless hhead' hbrace' hothers', congrArg₂ List.cons (unplaced_class kind hname has hts rfl) hms,
        hparts⟩
    · obtain ⟨rfl, rfl⟩ := hothers.eq_of_brace hearly.brace
      have hbrace' : c₁'.kind ≠ .leftBrace := fun hkind => by
        have := hearly.idle.2.isAt (k := .leftBrace) (by decide)
        rw [Cursor.isAt_iff.mpr hkind] at this
        contradiction
      exact ⟨_, c₁', .bodiless hhead' hbrace' .nil, congrArg (· :: []) (unplaced_class kind hname has hts rfl),
        .inr (hearly.lands hs hopen (hskips hearly.pos))⟩
  | @embodied c c₁ c₂ k as kind name ts inner ms hhead hbrace hinner hclose hothers ihinner ih =>
    have hc₁ := (hhead.precedes hnear.sound).sound hnear.sound
    have hc₂ := hinner.precedes hc₁.advance
    have hopening : c₁.Precedes c₂ := Cursor.Precedes.advance.trans hc₂
    have hmoves := hothers.precedes (hopening.sound hc₁).advance
    have hlength : s.rest.length < c₂.size :=
      Nat.lt_of_le_of_lt (Nat.le_trans hk hmoves.size_le) (Cursor.size_advance_lt (hopening.sound hc₁) (by rw [hclose]; decide))
    have hclear₁ : ∀ {d : Cursor}, c₂.size ≤ d.size → s.Clear d := fun hd hsize => by omega
    obtain ⟨as', name', ts', c₁', hhead', has, hname, hts, hbrace', hnear₁⟩ := near_of_readsHead hs hopen hhead hnear
      (Nat.le_trans (Nat.le_of_lt hlength) hopening.size_le) (hclear₁ hopening.size_le) hbrace
    obtain ⟨inner', c₂', hinner', hms₁, hnear₂ | hlands⟩ := ihinner hnear₁ (Nat.le_of_lt hlength) (hclear₁ (Nat.le_refl _))
      fun hdoomed => hdoomed.not_brace hclose
    · have hfront := before_of_length_lt hnear₂ hlength
      obtain ⟨ms', k', hothers', hms, hparts⟩ := ih (hfront.advance fun _ => by rw [hclose]; rfl) hk hclear hend
      exact ⟨_, k', .embodied hhead' hbrace' hinner' (hfront.same.kind.trans hclose) hothers',
        congrArg₂ List.cons (unplaced_class kind hname has hts (unplaced_classes hms₁)) hms, hparts⟩
    · have := hlands.size
      omega
  | @passed c c₁ c₂ k before ms hc hbefore hkeyword hkind hskip hothers ih =>
    have hc₁ : c.Precedes c₁ := precedes_of_ok forward_preamble hnear.sound hbefore
    have hc₂ := precedes_of_skipMember_eq hskip
    have hmoves := hothers.precedes (hc₂.sound (hc₁.sound hnear.sound))
    have hreached := Nat.le_trans hk hmoves.size_le
    obtain ⟨before', c₁', hbefore', hunplaced, hnear₁⟩ := ((Follows.preamble (P := fun _ => True) hs).tracks c c' hnear
      trivial).ok before c₁ hbefore (.inr (Nat.le_trans hreached hc₂.size_le))
    have hless : c₂.size < c.size := by
      rcases Nat.lt_or_ge c₁.size c.size with hless | hstays
      · exact Nat.lt_of_le_of_lt hc₂.size_le hless
      · obtain rfl : c₁ = c := hc₁.eq_of_size_le hstays
        exact size_skipMember_lt hnear.sound hc.not_eof hc.not_brace hskip
    have hc' := isAtItem_of_before (before_of_length_lt hnear (Nat.lt_of_le_of_lt hreached hless)) hc
    have hnone : c₁'.kind ≠ .typealias ∧ classKind? before'.modifiers c₁' = none := by
      rw [(parts_of_unplaced hunplaced).2]
      rcases hnear₁.cases with hat | hfront
      · have hsize : c₁.size = s.rest.length := by rw [Cursor.size, hat.rest]
        rcases hat.kinds_of_open hs hopen with ⟨-, hend'⟩ | ⟨-, hmember', hpos⟩
        · exact ⟨by rw [hend']; decide, by simp [classKind?, hend']⟩
        · refine ⟨ne_of_mem_of_not_mem hmember' (by decide), classKind?_of_kind _ hmember' ?_⟩
          -- what is passed at the seam without going beyond it is nothing, in front of a brace
          have hbrace : c₁.kind = .rightBrace := by
            by_contra hbrace
            have := size_skipMember_lt hnear₁.sound (hnear₁.sound.ne_eof hpos) hbrace hskip
            omega
          exact (hskips (hsize ▸ hpos)).second c₁ c₁' hat (by rw [hbrace]; decide)
      · refine ⟨hfront.same.kind.trans_ne hkeyword, ?_⟩
        rcases classKind?_of_before hs hopen hnear₁ hfront before.modifiers with heq | ⟨kind, hkind', -⟩
        · rw [heq, hkind]
        · rw [hkind] at hkind'
          contradiction
    rcases tracks_skipMemberFrom hs hopen hskips hnear₁ hskip hreached (hclear.of_precedes hmoves hk) with hdoomed |
      ⟨c₂', hskip', hnear₂ | hlands⟩
    · exact absurd hdoomed (not_doomed_of_reads hothers (hc₂.sound (hc₁.sound hnear.sound)) hk hend)
    · obtain ⟨ms', k', hothers', hms, hparts⟩ := ih hnear₂ hk hclear hend
      exact ⟨ms', k', .passed hc' hbefore' hnone.1 hnone.2 hskip' hothers', hms, hparts⟩
    · obtain ⟨rfl, rfl⟩ := hothers.eq_of_brace hlands.brace
      exact ⟨[], c₂', .passed hc' hbefore' hnone.1 hnone.2 hskip' .nil, rfl, .inr hlands⟩

end Reading

end Seam

end ServiceCatalog
