import ServiceCatalog.Proofs.Parse.AcrossHeads
import ServiceCatalog.Proofs.Parse.Reads

/-!
# Heads of classes in front of an open seam

A head of a class has no mark at its end, and so it is the one construct that may end differently where another token
comes next.  Up to an open seam it does the same in both files, but for two cases.

* What the first file goes on with is a member that reaches beyond the seam: an `object` that has its name behind the
  seam, or modifiers that a constructor might follow and that belong to a member (`Seam.Doomed`).
* A delegation or a list of constraints passes a modifier at the beginning of a line, since a brace closes behind it,
  and does not if a function comes next (`Seam.Early`).  The modifier is that of the function then.
-/

namespace ServiceCatalog

open TokenParser

/-- Whether the next token goes on with no head of a class. -/
def Cursor.IsIdle (c : Cursor) : Prop :=
  c.kind ∈ [TokenKind.object, .at, .rightBrace] ∨ c.kind = .identifier ∧ isModifier c.peek.lexeme = true

namespace Cursor

variable {c : Cursor}

theorem IsIdle.isAt (h : c.IsIdle) {k : TokenKind} (hk : k ∉ [TokenKind.object, .at, .rightBrace, .identifier]) :
    c.isAt k = false := by
  rw [Cursor.isAt, beq_eq_false_iff_ne]
  rintro rfl
  rcases h with h | ⟨h, -⟩
  · simp only [List.mem_cons, List.not_mem_nil, or_false] at h hk
    tauto
  · exact hk (by simp [h])

theorem IsIdle.isAtWord (h : c.IsIdle) {word : String} (hword : isModifier word = false) : c.isAtWord word = false := by
  rw [Cursor.isAtWord, Bool.and_eq_false_iff]
  rcases h with h | ⟨-, h⟩
  · left
    rw [Cursor.isAt, beq_eq_false_iff_ne]
    rintro hkind
    rw [hkind] at h
    simp at h
  · right
    rw [beq_eq_false_iff_ne]
    rintro rfl
    rw [h] at hword
    contradiction

end Cursor

namespace Seam

variable {s : Seam} {c c' k k' : Cursor}

/-- Whether a head of a class ends in front of a seam and what comes next there goes beyond the seam. -/
structure Doomed (s : Seam) (c : Cursor) : Prop where
  idle : c.IsIdle
  front : s.rest.length < c.size
  not_brace : c.kind ≠ .rightBrace
  beyond : ∀ before c₁, preamble c = .ok before c₁ → s.rest.length ≤ c₁.size →
    ∃ kind, classKind? before.modifiers c₁ = some kind ∧ ∀ r c₂, classHead kind c₁ = .ok r c₂ → c₂.size < s.rest.length

/-- Whether the second file is in front of a modifier at a seam, and the first one behind it, where a brace closes. -/
structure Early (s : Seam) (k k' : Cursor) : Prop where
  rest : k.rest = s.rest
  eof : k.eof = s.eof
  sound : k.Sound
  brace : k.kind = .rightBrace
  front' : ∃ t, k'.rest = t :: s.rest' ∧ t.kind = .identifier ∧ isModifier t.lexeme = true
  eof' : k'.eof = s.eof'
  sound' : k'.Sound

theorem Early.pos (h : s.Early k k') : 0 < s.rest.length := by
  rw [← h.rest]
  refine List.length_pos_of_ne_nil fun hnil => ?_
  have heof : k.kind = .eof := by
    rw [Cursor.kind, Cursor.peek, Cursor.peekNth, hnil]
    exact h.sound.eof
  rw [h.brace] at heof
  contradiction

theorem Early.idle (h : s.Early k k') : k.IsIdle ∧ k'.IsIdle := by
  obtain ⟨t, hrest, hkind, hword⟩ := h.front'
  refine ⟨.inl (by rw [h.brace]; decide), .inr ⟨?_, ?_⟩⟩
  · rw [Cursor.kind, Cursor.peek, Cursor.peekNth, hrest]
    exact hkind
  · rw [Cursor.peek, Cursor.peekNth, hrest]
    exact hword

/-- Whether no selector stands directly in front of a seam where a member begins. -/
def Clear (s : Seam) (k : Cursor) : Prop := k.size = s.rest.length → 0 < k.size → k.isAfterSelector = false

theorem Clear.of_precedes {d : Cursor} (h : s.Clear k) (hd : d.Precedes k) (hk : s.rest.length ≤ k.size) : s.Clear d := by
  intro hlength hpos
  obtain rfl : k = d := hd.eq_of_size_le (by omega)
  exact h hlength hpos

/-- Whether a head of a class ended at the same place in both files, or as early as it may in the second one. -/
def Parts (s : Seam) (k k' : Cursor) : Prop := s.Near k k' ∨ s.Early k k'

/-- What is known where a parser in the head of a class has succeeded in the first file. -/
def Heads {α : Type} [HasPlaces α] (s : Seam) (a : α) (k : Cursor) (r' : EStateM.Result ParseError Cursor α) : Prop :=
  s.Doomed k ∨ ∃ a' k', r' = .ok a' k' ∧ unplaced a' = unplaced a ∧ s.Parts k k'

/-! ## Members that go beyond a seam -/

/-- Where a class is read in front of a seam, none goes beyond it. -/
theorem not_doomed_of_head {as : List AnnotationUse} {kind : ClassKind} {name : Ident} {ts : List TypeRef}
    (h : ReadsHead c as kind name ts k) (hc : c.Sound) (hk : s.rest.length ≤ k.size) : ¬s.Doomed c := by
  obtain ⟨-, hbefore, hkind, hhead⟩ := h
  intro hdoomed
  have hc₁ := (precedes_of_ok forward_preamble hc hbefore).sound hc
  have hsize := (precedes_of_ok (forward_classHead kind) hc₁ hhead).size_le
  obtain ⟨kind', hkind', hbeyond⟩ := hdoomed.beyond _ _ hbefore (Nat.le_trans hk hsize)
  obtain rfl := Option.some.inj (hkind'.symm.trans hkind)
  exact absurd (hbeyond _ k hhead) (Nat.not_lt.mpr hk)

/-- Where members are read in front of a seam, none goes beyond it. -/
theorem not_doomed_of_reads {ms : List Member} (h : Reads c ms k) (hc : c.Sound) (hk : s.rest.length ≤ k.size)
    (hend : ¬s.Doomed k) : ¬s.Doomed c := by
  -- a preamble that no class follows is behind the seam
  have hpreamble : ∀ {before c₁ c₂ ms}, preamble c = .ok before c₁ → c₁.Precedes c₂ → Reads c₂ ms k →
      (∀ kind, classKind? before.modifiers c₁ ≠ some kind) → ¬s.Doomed c := fun hbefore hmoves hothers hnone hdoomed => by
    have hsound := (precedes_of_ok forward_preamble hc hbefore).sound hc
    have hsize := (hothers.precedes (hmoves.sound hsound)).size_le
    obtain ⟨kind, hkind, -⟩ := hdoomed.beyond _ _ hbefore (Nat.le_trans hk (Nat.le_trans hsize hmoves.size_le))
    exact hnone kind hkind
  cases h with
  | nil => exact hend
  | mark hkind =>
    intro hdoomed
    rw [← Cursor.isAt_iff, hdoomed.idle.isAt (by decide)] at hkind
    contradiction
  | typeAlias _ hbefore hkeyword halias hothers =>
    have hsound := (precedes_of_ok forward_preamble hc hbefore).sound hc
    refine hpreamble hbefore (precedes_of_ok (forward_typeAlias _ _) hsound halias) hothers fun kind hkind => ?_
    exact not_isAt_typealias hkind (Cursor.isAt_iff.mpr hkeyword)
  | bodiless hhead _ hothers =>
    have hsize := (hothers.precedes ((hhead.precedes hc).sound hc)).size_le
    exact not_doomed_of_head hhead hc (Nat.le_trans hk hsize)
  | embodied hhead _ hinner _ hothers =>
    have hc₁ := (hhead.precedes hc).sound hc
    have hbody := (Cursor.Precedes.advance.trans (hinner.precedes hc₁.advance)).trans .advance
    have hsize := (hbody.trans (hothers.precedes (hbody.sound hc₁))).size_le
    exact not_doomed_of_head hhead hc (Nat.le_trans hk hsize)
  | passed _ hbefore _ hkind hskip hothers =>
    exact hpreamble hbefore (precedes_of_skipMember_eq hskip) hothers fun kind hkind' => by
      rw [hkind] at hkind'
      contradiction

/-- An object in front of a seam that has its name behind the seam goes beyond it. -/
theorem doomed_of_object (hc : c.Sound) (hkind : c.kind = .object) (hsecond : c.secondKind = .identifier)
    (hsize : c.size = s.rest.length + 1) : s.Doomed c := by
  refine ⟨.inl (by rw [hkind]; decide), by omega, by rw [hkind]; decide, fun before c₁ hbefore _ => ?_⟩
  rw [preamble_of_kind (by rw [hkind]; decide)] at hbefore
  cases hbefore
  have hobject : classKind? [] c = some .object := by simp [classKind?, hkind, hsecond]
  refine ⟨.object, hobject, fun r c₂ hhead => ?_⟩
  have := size_classHead hc hobject (by decide) hhead
  omega

/-! ## Constructors -/

/-- Whether a seam is at a cursor of the first file or behind it. -/
structure Upto (s : Seam) (c : Cursor) : Prop where
  sound : c.Sound
  eof : c.eof = s.eof
  rest : s.rest <:+ c.rest

theorem Near.upto (h : s.Near c c') : s.Upto c := by
  obtain ⟨ts, -, hrest, -⟩ := h.front
  exact ⟨h.sound, h.eof, ts, hrest.symm⟩

theorem Upto.of_precedes (h : s.Upto c) (hk : c.Precedes k) (hsize : s.rest.length ≤ k.size) : s.Upto k := by
  refine ⟨hk.sound h.sound, ?_, ?_⟩
  · obtain ⟨n, rfl⟩ := hk
    exact h.eof
  · obtain ⟨n, rfl⟩ := hk
    exact List.suffix_of_suffix_length_le h.rest (List.drop_suffix n _) hsize

theorem Upto.rest_eq (h : s.Upto c) (hsize : c.size = s.rest.length) : c.rest = s.rest :=
  (h.rest.eq_of_length hsize.symm).symm

theorem Upto.isAtModifier (hs : s.Sound) (h : s.Upto c) (hsize : c.size = s.rest.length) (hkind : c.kind = .identifier) :
    TokenParser.isAtModifier c = true := by
  have hat : s.AtSeam c ⟨none, s.rest', s.eof'⟩ := ⟨h.rest_eq hsize, rfl, h.eof, rfl⟩
  rcases hat.kinds hs with ⟨-, hend⟩ | ⟨-, -, hmodifier, -⟩
  · rw [hkind] at hend
    rcases hend with hend | hend <;> contradiction
  · exact hmodifier hkind

/-- A modifier of a constructor that others follow, up to beyond a seam, is one of the annotations and modifiers of a
member. -/
theorem preambleItem_of_modifier (hs : s.Sound) (hc : s.Upto c) {c₂ d : Cursor} {us : List Unit}
    (htest : isAtConstructorModifier c = true) (hitem : skipConstructorModifier c = .ok () c₂)
    (hothers : manyWhile isAtConstructorModifier skipConstructorModifier c₂ = .ok us d) (hd : d.size < s.rest.length) :
    (c.isAt .at || isAtModifier c) = true ∧ ∃ item, preambleItem c = .ok item c₂ := by
  cases hat : c.isAt .at with
  | true =>
    have hannotations : (annotations >>= fun _ => pure ()) c = .ok () c₂ := by
      have : skipConstructorModifier c = (annotations >>= fun _ => pure ()) c := by
        show (if c.isAt .at = true then _ else _ : TokenParser Unit) c = _
        rw [if_pos hat]
      rwa [this] at hitem
    obtain ⟨as, c₃, has, hpure⟩ := bind_eq_ok.mp hannotations
    cases hpure
    refine ⟨rfl, ⟨as, []⟩, ?_⟩
    show (if c.isAt .at = true then _ else _ : TokenParser Preamble) c = _
    rw [if_pos hat]
    exact bind_eq_ok.mpr ⟨as, _, has, rfl⟩
  | false =>
    have hmodifier : c.kind = .identifier ∧ isModifier c.peek.lexeme = true := by
      simpa [isAtConstructorModifier, hat, Cursor.isAt_iff] using htest
    obtain rfl : c.advance = c₂ := by
      have : skipConstructorModifier c = .ok () c.advance := by
        show (if c.isAt .at = true then _ else _ : TokenParser Unit) c = _
        rw [if_neg (by rw [hat]; decide)]
        rfl
      rw [this] at hitem
      cases hitem
      rfl
    refine ⟨?_, ⟨[], [c.peek.lexeme]⟩, ?_⟩
    · rw [Bool.false_or]
      by_contra hnot
      -- no modifier of a constructor stands behind a name that is assigned to or given a type
      have hsecond : c.advance.kind = .equal ∨ c.advance.kind = .colon := by
        rw [Cursor.kind_advance hc.sound (by rw [hmodifier.1]; decide)]
        simp only [isAtModifier, Cursor.isAt_iff.mpr hmodifier.1, hmodifier.2, Bool.and_eq_true, bne_iff_ne, true_and,
          not_and_or, not_not] at hnot
        exact hnot
      have hstop : isAtConstructorModifier c.advance = false := by
        rcases hsecond with h | h <;> simp [isAtConstructorModifier, Cursor.isAt, h]
      rw [manyWhile, hstop] at hothers
      cases hothers
      have hlength := hc.rest.length_le
      rw [Cursor.size_advance] at hd
      refine hnot (hc.isAtModifier hs ?_ hmodifier.1)
      simp only [Cursor.size] at hd ⊢
      omega
    · show (if c.isAt .at = true then _ else _ : TokenParser Preamble) c = _
      rw [if_neg (by rw [hat]; decide)]
      rfl

/-- Where modifiers of a constructor reach beyond a seam, the annotations and modifiers of a member do. -/
theorem size_preambleItems_lt (hs : s.Sound) {d c₁ : Cursor} {us : List Unit} {items : List Preamble} (hc : s.Upto c)
    (hok : manyWhile isAtConstructorModifier skipConstructorModifier c = .ok us d) (hd : d.size < s.rest.length)
    (hitems : manyWhile (fun c => c.isAt .at || isAtModifier c) preambleItem c = .ok items c₁) :
    c₁.size < s.rest.length := by
  induction hsize : c.size using Nat.strongRecOn generalizing c us items with
  | _ size ih =>
    rw [manyWhile.eq_def] at hok hitems
    cases htest : isAtConstructorModifier c with
    | false =>
      rw [htest] at hok
      cases hok
      exact absurd hd (Nat.not_lt.mpr hc.rest.length_le)
    | true =>
      simp only [htest, if_true] at hok
      cases hitem : skipConstructorModifier c with
      | error e c₂ =>
        rw [hitem] at hok
        contradiction
      | ok u c₂ =>
        have hless := consumes_skipConstructorModifier c hc.sound htest u c₂ hitem
        have hmoves := precedes_of_ok forward_skipConstructorModifier hc.sound hitem
        simp only [hitem, if_pos hless] at hok
        cases hothers : manyWhile isAtConstructorModifier skipConstructorModifier c₂ with
        | error e d' =>
          rw [hothers] at hok
          contradiction
        | ok vs d' =>
          rw [hothers] at hok
          cases hok
          obtain ⟨htest', item, hitem'⟩ := preambleItem_of_modifier hs hc htest hitem hothers hd
          simp only [htest', if_true, hitem', if_pos hless] at hitems
          cases hothers' : manyWhile (fun c => c.isAt .at || isAtModifier c) preambleItem c₂ with
          | error e d' =>
            rw [hothers'] at hitems
            contradiction
          | ok items' d' =>
            rw [hothers'] at hitems
            cases hitems
            by_cases hfront : s.rest.length ≤ c₂.size
            · exact ih c₂.size (hsize ▸ hless) (hc.of_precedes hmoves hfront) hothers hothers' rfl
            · have := (precedes_of_ok (fun n => Alike.manyWhile (forward_preambleItem n)) (hmoves.sound hc.sound)
                hothers').size_le
              omega

/-- Whether modifiers of a constructor come next is the same near a seam, or what is passed goes beyond it. -/
theorem decides_isAtConstructorModifier (hs : s.Sound) {P : Cursor → Prop} :
    s.Decides P isAtConstructorModifier isAtConstructorModifier skipConstructorModifier := by
  refine .of_consumes hs (fun c h => ?_) consumes_skipConstructorModifier fun c c' hbefore _ => .inl ?_
  · simp only [isAtConstructorModifier, Bool.or_eq_true, Bool.and_eq_true, Cursor.isAt_iff] at h
    rcases h with ⟨h, -⟩ | ⟨h, -⟩ <;> rw [h] <;> decide
  · unfold isAtConstructorModifier
    rw [Cursor.isAt, Cursor.isAt, Cursor.isAt, Cursor.isAt, Cursor.kind, Cursor.kind, hbefore.same.kind,
      hbefore.same.lexeme, hbefore.same.newlineBefore]

theorem follows_constructorModifiers (hs : s.Sound) {P : Cursor → Prop} :
    Follows s P (manyWhile isAtConstructorModifier skipConstructorModifier)
      (manyWhile isAtConstructorModifier skipConstructorModifier) := by
  refine .manyWhile (decides_isAtConstructorModifier hs) ?_
  unfold skipConstructorModifier
  have hannotations : Consumes (fun c => c.isAt .at = true) (annotations >>= fun _ => (pure () : TokenParser Unit)) :=
    .bind consumes_annotations forward_annotations fun _ _ => .pure _
  refine .ite_test (Decides.isAt_at hs hannotations) (.bind (.annotations hs) fun _ _ _ => .pure rfl) ?_
  refine .bind (.next hs fun c h => ?_) fun _ _ _ => .pure rfl
  have hkind : c.kind = .identifier := by
    have := h.1
    simp only [isAtConstructorModifier, h.2, Bool.false_and, Bool.false_or, Bool.and_eq_true, Cursor.isAt_iff] at this
    exact this.1
  rw [hkind]
  rfl

/-- What stands behind the modifiers of a constructor. -/
def constructorTail (start : Cursor) : TokenParser Unit := do
  let hasKeyword ← eatWord "constructor"
  if ← test (fun c => c.isAt .leftParen && (hasKeyword || !c.peek.newlineBefore)) then skipGroup
  else if !hasKeyword then goBack start

theorem skipConstructor_eq (c : Cursor) : skipConstructor c =
    (manyWhile isAtConstructorModifier skipConstructorModifier >>= fun _ => constructorTail c) c := rfl

/-- A word that is no modifier is in front of a seam. -/
theorem Near.before_of_word (hs : s.Sound) (h : s.Near c c') {word : String} (hword : isModifier word = false)
    (hat : c.isAtWord word = true) : s.Before c c' := by
  rcases h.cases with hseam | hbefore
  · have hkind : c.kind = .identifier := Cursor.kind_of_isAtWord hat
    have hkind' : c'.kind = .identifier := Cursor.kind_of_isAtWord ((h.isAtWord hs hword).trans hat)
    rcases hseam.kinds hs with ⟨-, hend⟩ | ⟨-, -, -, hmember, -⟩
    · rw [hkind] at hend
      rcases hend with hend | hend <;> contradiction
    · rw [hkind'] at hmember
      contradiction
  · exact hbefore

/-- Whether the parameters of a constructor come next is the same near a seam. -/
theorem Near.isAtParameters (hs : s.Sound) (h : s.Near c c') (hasKeyword : Bool) :
    (c'.isAt .leftParen && (hasKeyword || !c'.peek.newlineBefore)) =
      (c.isAt .leftParen && (hasKeyword || !c.peek.newlineBefore)) := by
  rw [h.isAt hs (.inr (by decide))]
  cases hat : c.isAt .leftParen with
  | false => rfl
  | true =>
    have hpair : c.kind.closing? = some .rightParen := by rw [Cursor.isAt_iff.mp hat]; rfl
    have hbefore := h.before_of_opening hs hpair
    rw [hbefore.same.newlineBefore]

/-- Behind the modifiers of a constructor the same is done near a seam: its parameters are passed, or both cursors go
back. -/
theorem tracks_constructorTail (hs : s.Sound) {start start' : Cursor} (hstart : s.Near start start') (h : s.Near c c')
    (hok : constructorTail start c = .ok () k) (hk : s.Reached k) :
    ∃ k', constructorTail start' c' = .ok () k' ∧ s.Near k k' := by
  obtain ⟨hasKeyword, c₁, hword, hok⟩ := bind_eq_ok.mp hok
  have hrest : ∀ {d d' : Cursor} (hasKeyword : Bool), s.Near d d' → (do
      if ← test (fun c => c.isAt .leftParen && (hasKeyword || !c.peek.newlineBefore)) then skipGroup
      else if !hasKeyword then goBack start : TokenParser Unit) d = .ok () k → ∃ k', (do
      if ← test (fun c => c.isAt .leftParen && (hasKeyword || !c.peek.newlineBefore)) then skipGroup
      else if !hasKeyword then goBack start' : TokenParser Unit) d' = .ok () k' ∧ s.Near k k' := by
    intro d d' hasKeyword hd hok
    change (if (d.isAt .leftParen && (hasKeyword || !d.peek.newlineBefore)) = true then skipGroup
      else if (!hasKeyword) = true then goBack start else pure () : TokenParser Unit) d = .ok () k at hok
    change ∃ k', (if (d'.isAt .leftParen && (hasKeyword || !d'.peek.newlineBefore)) = true then skipGroup
      else if (!hasKeyword) = true then goBack start' else pure () : TokenParser Unit) d' = .ok () k' ∧ s.Near k k'
    rw [hd.isAtParameters hs]
    split at hok
    · next htest =>
      obtain ⟨_, k', hgroup, -, hnear⟩ := ((Follows.skipGroup (P := fun _ => True) hs).tracks d d' hd trivial).ok () k
        hok hk
      rw [if_pos htest]
      exact ⟨k', hgroup, hnear⟩
    · next htest =>
      rw [if_neg htest]
      split at hok
      · next hback =>
        cases hok
        exact ⟨start', by rw [if_pos hback]; rfl, hstart⟩
      · next hback =>
        cases hok
        exact ⟨d', by rw [if_neg hback]; rfl, hd⟩
  have hsame : c'.isAtWord "constructor" = c.isAtWord "constructor" := h.isAtWord hs (by decide)
  unfold eatWord at hword
  split at hword
  · next hat =>
    cases hword
    have hbefore := h.before_of_word hs (by decide) hat
    obtain ⟨k', hk', hnear⟩ := hrest true (hbefore.advance fun _ => by rw [Cursor.kind_of_isAtWord hat]; rfl) hok
    exact ⟨k', bind_eq_ok.mpr ⟨true, _, by rw [eatWord, hsame, hat]; rfl, hk'⟩, hnear⟩
  · next hat =>
    cases hword
    obtain ⟨k', hk', hnear⟩ := hrest false h hok
    exact ⟨k', bind_eq_ok.mpr ⟨false, _, by rw [eatWord, hsame, if_neg hat], hk'⟩, hnear⟩

/-- What stands behind the modifiers of a constructor is passed, or the cursor goes back. -/
theorem constructorTail_ok {start : Cursor} (hok : constructorTail start c = .ok () k) :
    k.size ≤ c.size ∨ k = start := by
  obtain ⟨hasKeyword, c₁, hword, hok⟩ := bind_eq_ok.mp hok
  have hsize : c₁.size ≤ c.size := by
    unfold eatWord at hword
    split at hword <;> cases hword
    · exact Cursor.Precedes.advance.size_le
    · exact Nat.le_refl _
  change (if (c₁.isAt .leftParen && (hasKeyword || !c₁.peek.newlineBefore)) = true then skipGroup
    else if (!hasKeyword) = true then goBack start else pure () : TokenParser Unit) c₁ = .ok () k at hok
  split at hok
  · have hmoves : c₁.Precedes (stop (skipGroup c₁)) := Cursor.Precedes.advance.trans (precedes_skipGroup c₁)
    rw [hok] at hmoves
    exact .inl (Nat.le_trans hmoves.size_le hsize)
  · split at hok
    · cases hok
      exact .inr rfl
    · cases hok
      exact .inl hsize

/-- What is neither an annotation, a name nor a parenthesis begins no constructor. -/
theorem skipConstructor_of_kind (hkind : c.kind ∉ [TokenKind.at, .identifier, .leftParen]) :
    skipConstructor c = .ok () c := by
  simp only [List.mem_cons, List.not_mem_nil, or_false, not_or] at hkind
  obtain ⟨hat, hidentifier, hparen⟩ := hkind
  rw [skipConstructor_eq]
  refine bind_eq_ok.mpr ⟨[], c, ?_, bind_eq_ok.mpr ⟨false, c, ?_, ?_⟩⟩
  · have htest : isAtConstructorModifier c = false := by simp [isAtConstructorModifier, Cursor.isAt, hat, hidentifier]
    rw [manyWhile, htest]
    rfl
  · have htest : c.isAtWord "constructor" = false := by simp [Cursor.isAtWord, Cursor.isAt, hidentifier]
    rw [eatWord, htest]
    rfl
  · have htest : c.isAt .leftParen = false := by simp [Cursor.isAt, hparen]
    show (if (c.isAt .leftParen && (false || !c.peek.newlineBefore)) = true then skipGroup
      else if (!false) = true then goBack c else pure () : TokenParser Unit) c = .ok () c
    rw [htest]
    rfl

/-- A primary constructor is passed near a seam in both files, or what comes next goes beyond the seam. -/
theorem tracks_skipConstructor (hs : s.Sound) (h : s.Near c c')
    (hok : skipConstructor c = .ok () k) (hk : s.rest.length ≤ k.size) :
    s.Doomed k ∨ ∃ k', skipConstructor c' = .ok () k' ∧ s.Near k k' := by
  rw [skipConstructor_eq] at hok
  obtain ⟨us, d, hmodifiers, htail⟩ := bind_eq_ok.mp hok
  by_cases hd : s.rest.length ≤ d.size
  · right
    obtain ⟨us', d', hmodifiers', -, hnear⟩ :=
      ((follows_constructorModifiers (P := fun _ => True) hs).tracks c c' h trivial).ok us d hmodifiers (.inr hd)
    obtain ⟨k', htail', hnear'⟩ := tracks_constructorTail hs h hnear htail (.inr hk)
    exact ⟨k', by rw [skipConstructor_eq]; exact bind_eq_ok.mpr ⟨us', d', hmodifiers', htail'⟩, hnear'⟩
  · -- modifiers beyond the seam are of the next member
    rw [Nat.not_le] at hd
    obtain rfl : k = c := (constructorTail_ok htail).resolve_left (by omega)
    rcases h.cases with hat | hbefore
    · refine .inr ⟨c', skipConstructor_of_kind ?_, h⟩
      rcases hat.kinds hs with ⟨hkind, hend⟩ | ⟨-, -, -, hkind, -⟩
      · rw [hkind]
        rcases hend with hend | hend
        · intro hmem
          have hnone : ∀ kind ∈ [TokenKind.at, .identifier, .leftParen], kind.isClosing = false := by decide
          rw [hnone _ hmem] at hend
          contradiction
        · rw [hend]
          decide
      · intro hmem
        have hnone : ∀ kind ∈ [TokenKind.fun, .val, .var], kind ∉ [TokenKind.at, .identifier, .leftParen] := by decide
        exact hnone _ hkind hmem
    · left
      have htest : isAtConstructorModifier k = true := by
        by_contra hnot
        rw [manyWhile, if_neg hnot] at hmodifiers
        cases hmodifiers
        omega
      have hidle : k.kind = .at ∨ k.kind = .identifier ∧ isModifier k.peek.lexeme = true := by
        simp only [isAtConstructorModifier, Bool.or_eq_true, Bool.and_eq_true, Cursor.isAt_iff] at htest
        exact htest.imp_left And.left
      refine ⟨hidle.imp_left fun h => by rw [h]; decide, hbefore.length_lt, ?_, fun before c₁ hpreamble hc₁ => ?_⟩
      · rcases hidle with h | ⟨h, -⟩ <;> rw [h] <;> decide
      · obtain ⟨items, c₂, hitems, hpure⟩ := bind_eq_ok.mp hpreamble
        cases hpure
        exact absurd (size_preambleItems_lt hs h.upto hmodifiers hd hitems) (Nat.not_lt.mpr hc₁)

/-! ## Where members begin -/

/-- What comes next at an open seam, in both files: the files end, or a member begins in the second one. -/
theorem AtSeam.kinds_of_open (hs : s.Sound) (hopen : s.isClosed = false) (h : s.AtSeam c c') :
    c.kind = .eof ∧ c'.kind = .eof ∨ c.kind ∈ memberKinds ∧ c'.kind ∈ [.fun, .val, .var] ∧ 0 < c.size := by
  obtain ⟨previous, rest, eof⟩ := c
  obtain ⟨previous', rest', eof'⟩ := c'
  obtain ⟨rfl, rfl, rfl, rfl⟩ := h
  cases hs with
  | closing => contradiction
  | atEnd heof heof' => exact .inl ⟨heof, heof'⟩
  | insertion hkind hword hkind' => exact .inr ⟨hkind, hkind', Nat.zero_lt_succ _⟩

/-- What begins a function or a property begins a member, unless it is a selector. -/
theorem isAtMember_of_kind (hkind : c.kind ∈ [TokenKind.fun, .val, .var]) (hselector : c.isAfterSelector = false) :
    c.isAtMember = true := by
  simp only [List.mem_cons, List.not_mem_nil, or_false] at hkind
  rcases hkind with hkind | hkind | hkind <;> simp [Cursor.isAtMember, hkind, hselector]

/-- In front of an open seam, a member begins in both files or in none, but for two cases: an object that has its name
behind the seam in the first file, and a modifier that a brace follows there. -/
theorem isAtMember_of_before (hs : s.Sound) (hopen : s.isClosed = false) (h : s.Near c c') (hbefore : s.Before c c') :
    c'.isAtMember = c.isAtMember ∨ c.isAtMember = true ∧ s.Doomed c ∨ c'.isAtMember = true ∧ c.kind = .identifier ∧
      c.advance.kind = .rightBrace ∧ s.Early c.advance c' := by
  have hkind : c'.kind = c.kind := hbefore.same.kind
  have hnear := hbefore.advance fun hclosed => by rw [hopen] at hclosed; contradiction
  have hcongr : c'.secondKind = c.secondKind → c'.isAtMember = c.isAtMember := fun hsecond => by
    simp only [Cursor.isAtMember, hkind, hsecond, h.selector, hbefore.same.newlineBefore, hbefore.same.lexeme]
  rcases hnear.cases with hat | hbehind
  · rcases hat.kinds_of_open hs hopen with ⟨hend, hend'⟩ | ⟨hmember, hmember', hpos⟩
    · rw [hbefore.secondKind] at hend
      rw [hbefore.secondKind'] at hend'
      exact .inl (hcongr (hend'.trans hend.symm))
    · -- the second token is the one at the seam
      have hsecond := hbefore.secondKind
      have hsecond' := hbefore.secondKind'
      have hsize : c.size = s.rest.length + 1 := by
        have : c.advance.size = s.rest.length := by rw [Cursor.size, hat.rest]
        rw [Cursor.size_advance] at this hpos
        omega
      by_cases hobject : c.kind = .object
      · have hfalse' : c'.isAtMember = false := by
          have : c'.secondKind ≠ .identifier := hsecond' ▸ ne_of_mem_of_not_mem hmember' (by decide)
          simp [Cursor.isAtMember, hkind, hobject, this]
        cases hfirst : c.isAtMember with
        | false => exact .inl hfalse'
        | true =>
          have hname : c.secondKind = .identifier := by
            simp only [Cursor.isAtMember, hobject, Bool.and_eq_true, beq_iff_eq] at hfirst
            exact hfirst.2
          exact .inr (.inl ⟨rfl, doomed_of_object h.sound hobject hname hsize⟩)
      by_cases hidentifier : c.kind = .identifier
      · have hfollows' : followsModifier c'.secondKind = true := by
          rw [← hsecond']
          simp only [List.mem_cons, List.not_mem_nil, or_false] at hmember'
          rcases hmember' with h | h | h <;> rw [h] <;> rfl
        have hmark' : c'.isAtMember = (c.peek.newlineBefore && isModifier c.peek.lexeme) := by
          simp [Cursor.isAtMember, hkind, hidentifier, hbefore.same.newlineBefore, hbefore.same.lexeme, hfollows']
        have hmark : c.isAtMember = (c.peek.newlineBefore && isModifier c.peek.lexeme && followsModifier c.secondKind) := by
          simp only [Cursor.isAtMember, hidentifier]
        by_cases hbrace : c.advance.kind = .rightBrace
        · cases hmodifier : c.peek.newlineBefore && isModifier c.peek.lexeme with
          | false => exact .inl (by rw [hmark', hmark, hmodifier, Bool.false_and])
          | true =>
            refine .inr (.inr ⟨hmark'.trans hmodifier, hidentifier, hbrace, hat.rest, hnear.eof, hnear.sound, hbrace,
              ?_, h.eof', h.sound'⟩)
            refine ⟨c'.peek, ?_, hkind.trans hidentifier, ?_⟩
            · have hend : c'.kind ≠ .eof := by
                rw [hkind, hidentifier]
                decide
              rw [rest_eq_cons h.sound' hend, hat.rest']
            · rw [hbefore.same.lexeme]
              exact (Bool.and_eq_true _ _ ▸ hmodifier).2
        · have hfollows : followsModifier c.secondKind = true := by
            have hall : ∀ k ∈ memberKinds, k ≠ .rightBrace → followsModifier k = true := by decide
            exact hsecond ▸ hall _ hmember hbrace
          exact .inl (by rw [hmark', hmark, hfollows, Bool.and_true])
      · left
        unfold Cursor.isAtMember
        rw [hkind]
        split <;> simp_all [h.selector, hbefore.same.newlineBefore]
  · refine .inl (hcongr ?_)
    rw [← hbefore.secondKind, ← hbefore.secondKind']
    exact hbehind.same.kind

/-! ## Delegations and constraints -/

/-- Where a delegation or constraints end, nothing is passed. -/
theorem skipUntil_of_stop {t : Cursor → Bool} (h : c.isAtEnd = true ∨ t c = true) : skipUntil t c = .ok () c := by
  have htest : ¬(!c.isAtEnd && !t c) = true := by rcases h with h | h <;> simp [h]
  rw [skipUntil, manyWhile, if_neg htest]

/-- Where a delegation or constraints go on, one token or group is passed and then the rest. -/
theorem skipUntil_of_go {t : Cursor → Bool} (hend : c.isAtEnd = false) (ht : t c = false) :
    skipUntil t c = match skipOne c with
      | .error e d => .error e d
      | .ok _ d => if d.size < c.size then skipUntil t d else .ok () d := by
  rw [skipUntil, manyWhile]
  simp only [hend, ht, Bool.not_false, Bool.and_self, if_true]
  cases hone : skipOne c with
  | error e d => rfl
  | ok a d =>
    by_cases hless : d.size < c.size
    · simp only [if_pos hless, skipUntil]
      cases manyWhile (fun c => !c.isAtEnd && !t c) skipOne d <;> rfl
    · simp only [if_neg hless]

/-- Whether a delegation or constraints end in front of an open seam is the same in both files, but for an object that
has its name behind the seam and a modifier that a brace follows. -/
theorem endsClause_of_before (hs : s.Sound) (hopen : s.isClosed = false) (h : s.Near c c') (hbefore : s.Before c c') :
    endsClause c' = endsClause c ∨ endsClause c = true ∧ s.Doomed c ∨ endsClause c' = true ∧ c.kind = .identifier ∧
      c.advance.kind = .rightBrace ∧ s.Early c.advance c' := by
  have hkind : ∀ k, c'.isAt k = c.isAt k := fun k => by rw [Cursor.isAt, Cursor.isAt, Cursor.kind, Cursor.kind, hbefore.same.kind]
  rcases isAtMember_of_before hs hopen h hbefore with heq | ⟨hmember, hdoomed⟩ | ⟨hmember, hearly⟩
  · exact .inl (by rw [endsClause, endsClause, hkind, hkind, heq])
  · exact .inr (.inl ⟨by rw [endsClause, hmember, Bool.or_true], hdoomed⟩)
  · exact .inr (.inr ⟨by rw [endsClause, hmember, Bool.or_true], hearly⟩)

/-- A delegation or constraints that end in front of an open seam end at the same place in both files, but for two
cases. -/
theorem tracks_skipUntil (hs : s.Sound) (hopen : s.isClosed = false) {t : Cursor → Bool}
    (ht : ∀ c c', s.Near c c' → t c' = t c) (h : s.Near c c')
    (hok : skipUntil (fun c => t c || endsClause c) c = .ok () k) (hk : s.rest.length ≤ k.size)
    (hclear : s.Clear k) :
    s.Doomed k ∨ ∃ k', skipUntil (fun c => t c || endsClause c) c' = .ok () k' ∧ s.Parts k k' := by
  induction hsize : c.size using Nat.strongRecOn generalizing c c' with
  | _ size ih =>
    have hbehind : ∀ {d}, c.Precedes d → (skipUntil (fun c => t c || endsClause c) d = .ok () k) → k.size ≤ d.size :=
      fun hmoves hrest => (precedes_of_ok (fun n => forward_skipUntil n _) (hmoves.sound h.sound) hrest).size_le
    rcases h.cases with hat | hbefore
    · -- at the seam the first file ends there, and the second one too
      have hlength : c.size = s.rest.length := by rw [Cursor.size, hat.rest]
      obtain rfl : k = c := (precedes_of_ok (fun n => forward_skipUntil n _) h.sound hok).eq_of_size_le (by omega)
      refine .inr ⟨c', skipUntil_of_stop ?_, .inl h⟩
      rcases hat.kinds_of_open hs hopen with ⟨-, hend'⟩ | ⟨-, hmember', hpos⟩
      · exact .inl (Cursor.isAt_iff.mpr hend')
      · right
        rw [endsClause, isAtMember_of_kind hmember' (h.selector.trans (hclear hlength hpos)), Bool.or_true, Bool.or_true]
    · have hend : c.isAtEnd = false := beq_eq_false_iff_ne.mpr hbefore.ne_eof
      have hend' : c'.isAtEnd = false := beq_eq_false_iff_ne.mpr (hbefore.same.kind.trans_ne hbefore.ne_eof)
      cases hstop : t c || endsClause c with
      | true =>
        rw [skipUntil_of_stop (.inr hstop)] at hok
        cases hok
        rcases endsClause_of_before hs hopen h hbefore with heq | ⟨-, hdoomed⟩ | ⟨hclause', -⟩
        · exact .inr ⟨c', skipUntil_of_stop (.inr (by rw [ht _ c' h, heq, hstop])), .inl h⟩
        · exact .inl hdoomed
        · exact .inr ⟨c', skipUntil_of_stop (.inr (by rw [hclause', Bool.or_true])), .inl h⟩
      | false =>
        rw [skipUntil_of_go hend hstop] at hok
        cases hone : skipOne c with
        | error e d =>
          rw [hone] at hok
          contradiction
        | ok u d =>
          have hless := size_skipOne_lt h.sound hbefore.ne_eof hone
          have hmoves : c.Precedes d := precedes_of_skipOne_eq hone
          simp only [hone, if_pos hless] at hok
          have hclause : endsClause c = false := (Bool.or_eq_false_iff.mp hstop).2
          rcases endsClause_of_before hs hopen h hbefore with heq | ⟨hclause', -⟩ | ⟨hclause', hkind, hbrace, hearly⟩
          · have hfollows : Follows s (fun d => d = c) skipOne skipOne :=
              .skipOne hs fun d hd => ⟨hd ▸ hbefore.ne_eof, fun hclosed => by rw [hopen] at hclosed; contradiction⟩
            obtain ⟨_, d', hone', -, hnear⟩ := (hfollows.tracks c c' h rfl).ok u d hone
              (.inr (Nat.le_trans hk (hbehind hmoves hok)))
            have hstop' : (t c' || endsClause c') = false := by rw [ht c c' h, heq, hstop]
            refine (ih d.size (hsize ▸ hless) hnear hok rfl).imp_right ?_
            rintro ⟨k', hrest', hparts⟩
            refine ⟨k', ?_, hparts⟩
            rw [skipUntil_of_go hend' hstop', hone']
            simp only [if_pos ((h.size_lt_iff hnear).mpr hless), hrest']
          · rw [hclause'] at hclause
            contradiction
          · -- the first file passes the modifier and ends at the brace
            have hone' : skipOne c = .ok () c.advance := by
              unfold skipOne
              rw [hkind]
              rfl
            rw [hone'] at hone
            cases hone
            rw [skipUntil_of_stop (.inr (by simp [endsClause, Cursor.isAt, hbrace]))] at hok
            cases hok
            exact .inr ⟨c', skipUntil_of_stop (.inr (by rw [hclause', Bool.or_true])), .inr hearly⟩

/-! ## Supertypes -/

section Heads

variable {α β : Type} [HasPlaces α] [HasPlaces β]

/-- What stands behind a parser that does the same in both files. -/
theorem Heads.bind {P : Cursor → Prop} {p p' : TokenParser α} {f f' : α → TokenParser β} {b : β}
    (hp : Follows s P p p') (h : s.Near c c') (hc : P c) (hok : (p >>= f) c = .ok b k) (hk : s.rest.length ≤ k.size) (hmoves : ∀ a n, Forward n (f a))
    (hf : ∀ a a' d d', unplaced a' = unplaced a → s.Near d d' → c.Precedes d → f a d = .ok b k → s.Heads b k (f' a' d')) :
    s.Heads b k ((p' >>= f') c') := by
  obtain ⟨a, d, hfirst, hrest⟩ := bind_eq_ok.mp hok
  have hd : c.Precedes d := precedes_of_ok hp.moves h.sound hfirst
  have hsize := (precedes_of_ok (hmoves a) (hd.sound h.sound) hrest).size_le
  obtain ⟨a', d', hfirst', ha, hnear⟩ := (hp.tracks c c' h hc).ok a d hfirst (.inr (Nat.le_trans hk hsize))
  rcases hf a a' d d' ha hnear hd hrest with hdoomed | ⟨b', k', hrest', hb, hparts⟩
  · exact .inl hdoomed
  · exact .inr ⟨b', k', bind_eq_ok.mpr ⟨a', d', hfirst', hrest'⟩, hb, hparts⟩

/-- What stands behind a part of a head goes on where that one ended alike, and does nothing where it did not. -/
theorem Heads.behind {p p' : TokenParser α} {f f' : α → TokenParser β} {b : β} (hok : (p >>= f) c = .ok b k)
    (hp : ∀ a d, p c = .ok a d → f a d = .ok b k → s.Heads a d (p' c'))
    (hidle : ∀ a a' d d', unplaced a' = unplaced a → d.IsIdle → d'.IsIdle →
      ∃ b b', f a d = .ok b d ∧ f' a' d' = .ok b' d' ∧ unplaced b' = unplaced b)
    (hf : ∀ a a' d d', unplaced a' = unplaced a → s.Near d d' → p c = .ok a d → p' c' = .ok a' d' → f a d = .ok b k →
      s.Heads b k (f' a' d')) : s.Heads b k ((p' >>= f') c') := by
  obtain ⟨a, d, hfirst, hrest⟩ := bind_eq_ok.mp hok
  rcases hp a d hfirst hrest with hdoomed | ⟨a', d', hfirst', ha, hnear | hearly⟩
  · obtain ⟨b₁, -, hstays, -⟩ := hidle a a d d rfl hdoomed.idle hdoomed.idle
    rw [hstays] at hrest
    cases hrest
    exact .inl hdoomed
  · rcases hf a a' d d' ha hnear hfirst hfirst' hrest with hdoomed | ⟨b', k', hrest', hb, hparts⟩
    · exact .inl hdoomed
    · exact .inr ⟨b', k', bind_eq_ok.mpr ⟨a', d', hfirst', hrest'⟩, hb, hparts⟩
  · obtain ⟨b₁, b', hstays, hstays', hb⟩ := hidle a a' d d' ha hearly.idle.1 hearly.idle.2
    rw [hstays] at hrest
    cases hrest
    exact .inr ⟨b', d', bind_eq_ok.mpr ⟨a', d', hfirst', hstays'⟩, hb, .inr hearly⟩

end Heads

/-- What may stand behind a supertype: a delegation. -/
def delegation (t : TypeRef) : TokenParser TypeRef := do
  if ← eatWord "by" then skipUntil fun c => c.isAt .comma || endsClause c
  return t

theorem supertype_eq : supertype = (do
    let t ← type
    if ← test isAtArguments then
      skipGroup
      delegation t
    else delegation t) := rfl

theorem forward_delegation (t : TypeRef) (n : ℕ) : Forward n (delegation t) :=
  .bind (.eatWord _) fun _ => .ite (.bind (forward_skipUntil n _) fun _ => .pure _) (.pure _)

/-- A delegation that ends in front of a seam. -/
theorem heads_delegation (hs : s.Sound) (hopen : s.isClosed = false) (h : s.Near c c') {t t' a : TypeRef}
    (ht : unplaced t' = unplaced t) (hok : delegation t c = .ok a k) (hk : s.rest.length ≤ k.size)
    (hclear : s.Clear k) : s.Heads a k (delegation t' c') := by
  unfold delegation at hok ⊢
  refine Heads.bind (P := fun _ => True) (.eatWord hs (by decide)) h trivial hok hk
    (fun _ n => .ite (.bind (forward_skipUntil n _) fun _ => .pure _) (.pure _)) fun found found' d d' hfound hnear _ hok => ?_
  obtain rfl : found' = found := hfound
  cases found' with
  | true =>
    obtain ⟨_, d₁, hclause, hpure⟩ := bind_eq_ok.mp hok
    cases hpure
    have hcomma : ∀ c c', s.Near c c' → c'.isAt .comma = c.isAt .comma := fun _ _ hnear => hnear.isAt hs (.inr (by decide))
    refine (tracks_skipUntil hs hopen hcomma hnear hclause hk hclear).imp_right ?_
    rintro ⟨k', hclause', hparts⟩
    exact ⟨t', k', bind_eq_ok.mpr ⟨(), k', hclause', rfl⟩, ht, hparts⟩
  | false =>
    cases hok
    exact .inr ⟨t', d', rfl, ht, .inl hnear⟩

theorem heads_supertype (hs : s.Sound) (hopen : s.isClosed = false) (h : s.Near c c') {a : TypeRef}
    (hok : supertype c = .ok a k) (hk : s.rest.length ≤ k.size)
    (hclear : s.Clear k) : s.Heads a k (supertype c') := by
  rw [supertype_eq] at hok ⊢
  have hmoves : ∀ (t : TypeRef) n, Forward n (do
      if ← test isAtArguments then
        skipGroup
        delegation t
      else delegation t) := fun t n =>
    .ite_test (.bind (forward_skipGroup n) fun _ => forward_delegation t n) (forward_delegation t n)
  refine Heads.bind (P := fun _ => True) (.type hs) h trivial hok hk hmoves fun t t' d d' ht hnear _ hok => ?_
  change (if isAtArguments d = true then (skipGroup >>= fun _ => delegation t) else delegation t) d = .ok a k at hok
  show s.Heads a k ((if isAtArguments d' = true then (skipGroup >>= fun _ => delegation t') else delegation t') d')
  have harguments : isAtArguments d' = isAtArguments d := by
    have := hnear.isAtParameters hs false
    simpa only [isAtArguments, Bool.false_or] using this
  rw [harguments]
  split at hok
  · next htest =>
    rw [if_pos htest]
    exact Heads.bind (P := fun _ => True) (.skipGroup hs) hnear trivial hok hk (fun _ n => forward_delegation t n)
      fun _ _ _ _ _ hnear _ hok => heads_delegation hs hopen hnear ht hok hk hclear
  · next htest =>
    rw [if_neg htest]
    exact heads_delegation hs hopen hnear ht hok hk hclear

/-- A supertype behind a comma. -/
def nextSupertype : TokenParser TypeRef := do
  let _ ← next
  supertype

theorem supertypes_eq : supertypes = (do
    let first ← supertype
    let others ← manyWhile (·.isAt .comma) nextSupertype
    return first :: others) := rfl

theorem forward_nextSupertype (n : ℕ) : Forward n nextSupertype := .bind .next fun _ => forward_supertype n

theorem consumes_nextSupertype : Consumes (fun c => c.isAt .comma = true) nextSupertype :=
  .bind (.next fun _ h => ne_eof_of_isAt h nofun) (fun _ => .next) fun _ => forward_supertype

/-- Where a head has ended, no comma comes next. -/
theorem manyWhile_of_idle (h : c.IsIdle) : manyWhile (·.isAt .comma) nextSupertype c = .ok [] c := by
  rw [manyWhile, h.isAt (by decide)]
  rfl

theorem heads_otherSupertypes (hs : s.Sound) (hopen : s.isClosed = false) (h : s.Near c c') {as : List TypeRef}
    (hok : manyWhile (·.isAt .comma) nextSupertype c = .ok as k) (hk : s.rest.length ≤ k.size)
    (hclear : s.Clear k) :
    s.Heads as k (manyWhile (·.isAt .comma) nextSupertype c') := by
  have hmany : ∀ n, Forward n (manyWhile (·.isAt .comma) nextSupertype) := fun n => .manyWhile (forward_nextSupertype n)
  induction hsize : c.size using Nat.strongRecOn generalizing c c' as with
  | _ size ih =>
    rw [manyWhile.eq_def] at hok ⊢
    rw [h.isAt hs (.inr (by decide))]
    cases htest : c.isAt .comma with
    | false =>
      rw [htest] at hok
      cases hok
      exact .inr ⟨[], c', rfl, rfl, .inl h⟩
    | true =>
      have htest' : c'.isAt .comma = true := (h.isAt hs (.inr (by decide))).trans htest
      simp only [htest, if_true] at hok ⊢
      cases hitem : nextSupertype c with
      | error e d =>
        rw [hitem] at hok
        contradiction
      | ok a d =>
        have hless := consumes_nextSupertype c h.sound htest a d hitem
        have hmoves : c.Precedes d := precedes_of_ok forward_nextSupertype h.sound hitem
        simp only [hitem, if_pos hless] at hok
        cases hothers : manyWhile (·.isAt .comma) nextSupertype d with
        | error e d' =>
          rw [hothers] at hok
          contradiction
        | ok bs d' =>
          rw [hothers] at hok
          cases hok
          have hd : d.Precedes k := precedes_of_ok hmany (hmoves.sound h.sound) hothers
          have hfirst : s.Heads a d (nextSupertype c') :=
            Heads.bind (P := fun d => d.isAt .comma = true) (.next hs fun _ h => Cursor.isAt_iff.mp h ▸ rfl) h htest hitem
              (Nat.le_trans hk hd.size_le) (fun _ => forward_supertype) fun _ _ _ _ _ hnear _ hok =>
                heads_supertype hs hopen hnear hok (Nat.le_trans hk hd.size_le) (hclear.of_precedes hd hk)
          rcases hfirst with hdoomed | ⟨a', d', hitem', ha, hparts⟩
          · rw [manyWhile_of_idle hdoomed.idle] at hothers
            cases hothers
            exact .inl hdoomed
          · have hless' := consumes_nextSupertype c' h.sound' htest' a' d' hitem'
            have hmore : s.Heads bs k (manyWhile (·.isAt .comma) nextSupertype d') := by
              rcases hparts with hnear | hearly
              · exact ih d.size (hsize ▸ hless) hnear hothers rfl
              · rw [manyWhile_of_idle hearly.idle.1] at hothers
                cases hothers
                exact .inr ⟨[], d', manyWhile_of_idle hearly.idle.2, rfl, .inr hearly⟩
            rcases hmore with hdoomed | ⟨bs', k', hothers', hbs, hparts⟩
            · exact .inl hdoomed
            · simp only [hitem', if_pos hless', hothers']
              exact .inr ⟨a' :: bs', k', rfl, congrArg₂ List.cons ha hbs, hparts⟩

theorem heads_supertypes (hs : s.Sound) (hopen : s.isClosed = false) (h : s.Near c c') {as : List TypeRef}
    (hok : supertypes c = .ok as k) (hk : s.rest.length ≤ k.size)
    (hclear : s.Clear k) : s.Heads as k (supertypes c') := by
  have hrest : ∀ (a : TypeRef) n, Forward n (do
      let others ← manyWhile (·.isAt .comma) nextSupertype
      return a :: others) := fun _ n => .bind (.manyWhile (forward_nextSupertype n)) fun _ => .pure _
  rw [supertypes_eq] at hok ⊢
  refine Heads.behind hok (fun a d hfirst hothers => ?_) (fun a a' d d' ha hd hd' => ?_)
    fun a a' d d' ha hnear _ _ hothers => ?_
  · have hmoves : c.Precedes d := precedes_of_ok forward_supertype h.sound hfirst
    have hd : d.Precedes k := precedes_of_ok (hrest a) (hmoves.sound h.sound) hothers
    exact heads_supertype hs hopen h hfirst (Nat.le_trans hk hd.size_le) (hclear.of_precedes hd hk)
  · exact ⟨[a], [a'], bind_eq_ok.mpr ⟨[], d, manyWhile_of_idle hd, rfl⟩,
      bind_eq_ok.mpr ⟨[], d', manyWhile_of_idle hd', rfl⟩, congrArg (· :: []) ha⟩
  · obtain ⟨bs, k₁, hothers, hpure⟩ := bind_eq_ok.mp hothers
    cases hpure
    rcases heads_otherSupertypes hs hopen hnear hothers hk hclear with hdoomed | ⟨bs', k', hothers', hbs, hparts⟩
    · exact .inl hdoomed
    · exact .inr ⟨a' :: bs', k', bind_eq_ok.mpr ⟨bs', k', hothers', rfl⟩, congrArg₂ List.cons ha hbs, hparts⟩

/-! ## Heads -/

/-- What may stand behind the supertypes of a class: constraints. -/
def constraints (name : Ident) (ts : List TypeRef) : TokenParser (Ident × List TypeRef) := do
  if ← test (·.isAtWord "where") then skipUntil endsClause
  return (name, ts)

/-- What stands behind the constructor of a class. -/
def behindConstructor (name : Ident) : TokenParser (Ident × List TypeRef) := do
  if ← eat .colon then supertypes >>= constraints name
  else constraints name []

theorem classTail_eq (name : Ident) : classTail name = (skipConstructor >>= fun _ => behindConstructor name) := by
  unfold classTail behindConstructor
  refine congrArg (skipConstructor >>= ·) (funext fun _ => congrArg (eat .colon >>= ·) (funext fun found => ?_))
  cases found <;> rfl

theorem forward_constraints (name : Ident) (ts : List TypeRef) (n : ℕ) : Forward n (constraints name ts) :=
  .ite_test (.bind (forward_skipUntil n _) fun _ => .pure _) (.pure _)

theorem forward_behindConstructor (name : Ident) (n : ℕ) : Forward n (behindConstructor name) :=
  .bind (.eat _) fun _ => .ite (.bind (forward_supertypes n) fun _ => forward_constraints name _ n)
    (forward_constraints name [] n)

/-- Where a head has ended, no constraints come next. -/
theorem constraints_of_idle (h : c.IsIdle) (name : Ident) (ts : List TypeRef) :
    constraints name ts c = .ok (name, ts) c := by
  show (if c.isAtWord "where" = true then _ else _ : TokenParser (Ident × List TypeRef)) c = _
  rw [h.isAtWord (by decide)]
  rfl

theorem unplaced_pair {name name' : Ident} {ts ts' : List TypeRef} (hname : unplaced name' = unplaced name)
    (hts : unplaced ts' = unplaced ts) : unplaced (name', ts') = unplaced (name, ts) :=
  congrArg₂ Prod.mk hname hts

section Head

variable (hs : s.Sound) (hopen : s.isClosed = false) (h : s.Near c c') {name name' : Ident} {r : Ident × List TypeRef}
  (hname : unplaced name' = unplaced name) (hk : s.rest.length ≤ k.size)
  (hclear : s.Clear k)

include hs hopen h hname hk hclear

theorem heads_constraints {ts ts' : List TypeRef} (hts : unplaced ts' = unplaced ts)
    (hok : constraints name ts c = .ok r k) : s.Heads r k (constraints name' ts' c') := by
  change (if c.isAtWord "where" = true then skipUntil endsClause >>= fun _ => pure (name, ts)
    else pure (name, ts) : TokenParser (Ident × List TypeRef)) c = .ok r k at hok
  show s.Heads r k ((if c'.isAtWord "where" = true then skipUntil endsClause >>= fun _ => pure (name', ts')
    else pure (name', ts') : TokenParser (Ident × List TypeRef)) c')
  rw [h.isAtWord hs (by decide)]
  split at hok
  · next htest =>
    rw [if_pos htest]
    obtain ⟨_, d₁, hclause, hpure⟩ := bind_eq_ok.mp hok
    cases hpure
    refine (tracks_skipUntil (t := fun _ => false) hs hopen (fun _ _ _ => rfl) h hclause hk hclear).imp_right ?_
    rintro ⟨k', hclause', hparts⟩
    exact ⟨_, k', bind_eq_ok.mpr ⟨(), k', hclause', rfl⟩, unplaced_pair hname hts, hparts⟩
  · next htest =>
    rw [if_neg htest]
    cases hok
    exact .inr ⟨_, c', rfl, unplaced_pair hname hts, .inl h⟩

theorem heads_behindConstructor (hok : behindConstructor name c = .ok r k) :
    s.Heads r k (behindConstructor name' c') := by
  refine Heads.bind (P := fun _ => True) (.eat hs rfl (.inr (by decide))) h trivial hok hk
    (fun _ n => .ite (.bind (forward_supertypes n) fun _ => forward_constraints name _ n) (forward_constraints name [] n))
    fun found found' d d' hfound hnear _ hok => ?_
  obtain rfl : found' = found := hfound
  cases found' with
  | false => exact heads_constraints hs hopen hnear hname hk hclear rfl hok
  | true =>
    refine Heads.behind hok (fun ts d₁ hts hrest => ?_) (fun ts ts' d d' hts hd hd' => ?_)
      fun ts ts' d d' hts hnear _ _ hok => heads_constraints hs hopen hnear hname hk hclear hts hok
    · have hd : d.Precedes d₁ := precedes_of_ok forward_supertypes hnear.sound hts
      have hd₁ : d₁.Precedes k := precedes_of_ok (forward_constraints name ts) (hd.sound hnear.sound) hrest
      exact heads_supertypes hs hopen hnear hts (Nat.le_trans hk hd₁.size_le) (hclear.of_precedes hd₁ hk)
    · exact ⟨_, _, constraints_of_idle hd name ts, constraints_of_idle hd' name' ts', unplaced_pair hname hts⟩

theorem heads_classTail (hok : classTail name c = .ok r k) : s.Heads r k (classTail name' c') := by
  rw [classTail_eq] at hok ⊢
  refine Heads.behind hok (fun u d hconstructor hrest => ?_) (fun _ _ d d' _ hd hd' => ?_)
    fun _ _ d d' _ hnear _ _ hok => heads_behindConstructor hs hopen hnear hname hk hclear hok
  · have hd : c.Precedes d := precedes_of_ok forward_skipConstructor h.sound hconstructor
    have hsize := (precedes_of_ok (forward_behindConstructor name) (hd.sound h.sound) hrest).size_le
    refine (tracks_skipConstructor hs h hconstructor (Nat.le_trans hk hsize)).imp_right ?_
    rintro ⟨d', hconstructor', hnear⟩
    exact ⟨(), d', hconstructor', rfl, .inl hnear⟩
  · have hnone : ∀ {d : Cursor} (name : Ident), d.IsIdle → behindConstructor name d = .ok (name, []) d := fun {d} name hd =>
      bind_eq_ok.mpr ⟨false, d, by rw [eat, hd.isAt (by decide)]; rfl, constraints_of_idle hd name []⟩
    exact ⟨_, _, hnone name hd, hnone name' hd', unplaced_pair hname rfl⟩

end Head

/-- What is behind the name of a class, in its head. -/
def behindName (name : Ident) : TokenParser (Ident × List TypeRef) := do
  if ← test (·.isAt .less) then skipAngles
  classTail name

theorem classHead_eq_behindName (kind : ClassKind) : classHead kind = (classNaming kind >>= behindName) := classHead_eq kind

theorem forward_behindName (name : Ident) (n : ℕ) : Forward n (behindName name) :=
  .ite_test (.bind (forward_skipAngles n) fun _ => forward_classTail name n) (forward_classTail name n)

theorem heads_behindName (hs : s.Sound) (hopen : s.isClosed = false) (h : s.Near c c') {name name' : Ident}
    (hname : unplaced name' = unplaced name) {r : Ident × List TypeRef} (hok : behindName name c = .ok r k)
    (hk : s.rest.length ≤ k.size) (hclear : s.Clear k) : s.Heads r k (behindName name' c') := by
  change (if c.isAt .less = true then (skipAngles >>= fun _ => classTail name) else classTail name) c = .ok r k at hok
  show s.Heads r k ((if c'.isAt .less = true then (skipAngles >>= fun _ => classTail name') else classTail name') c')
  rw [h.isAt hs (.inr (by decide))]
  split at hok
  · next htest =>
    rw [if_pos htest]
    exact Heads.bind (P := fun _ => True) (.skipAngles hs hopen) h trivial hok hk (fun _ => forward_classTail name)
      fun _ _ _ _ _ hnear _ hok => heads_classTail hs hopen hnear hname hk hclear hok
  · next htest =>
    rw [if_neg htest]
    exact heads_classTail hs hopen h hname hk hclear hok

/-- The head of a class that ends in front of an open seam ends at the same place in both files, but for two cases. -/
theorem heads_classHead (hs : s.Sound) (hopen : s.isClosed = false) (h : s.Near c c') {modifiers : List String}
    {kind : ClassKind} {r : Ident × List TypeRef} (hkind : classKind? modifiers c = some kind)
    (hlength : s.rest.length < c.size) (hok : classHead kind c = .ok r k) (hk : s.rest.length ≤ k.size)
    (hclear : s.Clear k) : s.Heads r k (classHead kind c') := by
  rw [classHead_eq_behindName] at hok ⊢
  exact Heads.bind (.classNaming hs) h ⟨hkind, hlength⟩ hok hk forward_behindName
    fun _ _ _ _ hname hnear _ hok => heads_behindName hs hopen hnear hname hok hk hclear

end Seam

end ServiceCatalog
