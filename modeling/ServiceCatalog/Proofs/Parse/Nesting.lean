import ServiceCatalog.Proofs.Parse.Layout
import ServiceCatalog.Proofs.Token.Recognition

/-!
# Classes are nested as braces are

A file that is read without an error is laid out as its tree says, up to the end of its tokens.

The readers of members never fail but record errors, so "without an error" is said of the end:
`Parser.Lays p p' ds` is what holds between two places of a reading at the second of which no error is
recorded.  `memberStep_lays` shows it for one member, given it for the body of a class, and `members_lays`,
by induction on the number of tokens to come, for all of them.

* `SourceFile.standsIn_of_parse`: the braces of a file that is read are balanced, and the open ones in front of
  the keyword of a class are those of the bodies around it.
-/

namespace ServiceCatalog

/-! ## The tokens of a text -/

/-- The tokens of a text end with the end of the file, which no other token is. -/
theorem lexemesFrom_tokens (p : Position) (cs : List Char) :
    ∃ ts e, (lexemesFrom p cs).filterMap Lexeme.token? = ts ++ [e] ∧ e.kind = .eof ∧ ∀ t ∈ ts, t.kind ≠ .eof := by
  fun_induction lexemesFrom p cs with
  | case1 => exact ⟨[], _, rfl, rfl, List.forall_mem_nil _⟩
  | case2 => exact ⟨[], _, rfl, rfl, List.forall_mem_nil _⟩
  | case3 p cs between p' c rest h hclosed found taken ih =>
    obtain ⟨ts, e, hts, he, hne⟩ := ih
    cases hkind : found.kind with
    | error fault => exact ⟨ts, e, hts, he, hne⟩
    | ok kind =>
      refine ⟨_ :: ts, e, congrArg (_ :: ·) hts, he, ?_⟩
      rintro t (_ | ⟨_, ht⟩)
      · exact fun h => recognize_ne_eof c rest (hkind.trans (congrArg _ h))
      · exact hne t ht

/-- The tokens of a source text, the end of the file among them. -/
def tokensOf (source : String) : List Token := (lexemes source).filterMap Lexeme.token?

namespace Parser

/-- A reading begins where the end of the file can be told, with all tokens to come. -/
theorem ofSource_cursor (source : String) :
    (ofSource source).cursor.Sound ∧
      tokensOf source = (ofSource source).cursor.rest ++ [(ofSource source).cursor.eof] := by
  obtain ⟨ts, e, hts, he, hne⟩ := lexemesFrom_tokens (Position.start.after (source.toList.take (headerLength source.toList)))
    (source.toList.drop (headerLength source.toList))
  have htokens : (lexemes source).filterMap Lexeme.token? = ts ++ [e] := hts
  simp only [tokensOf, ofSource, Cursor.ofLexemes, htokens, List.dropLast_concat, List.getLastD_concat]
  exact ⟨⟨he, hne⟩, trivial⟩

/-- A reading of a text without errors begins in front of its tokens. -/
theorem ofSource_of_lexemes {source : String} {ts : List Token} {e : Token}
    (h : lexemes source = (ts ++ [e]).map .token) : ofSource source = ⟨⟨none, ts, e⟩, []⟩ := by
  rw [ofSource, h]
  simp [Cursor.ofLexemes, List.filterMap_append, List.filterMap_map, Function.comp_def, Lexeme.token?, Lexeme.error?]

/-- Whether the classes of a forest are laid out between two places of a reading, with no error recorded up to
the first one. -/
def Lays (p p' : Parser) (ds : List ClassDecl) : Prop :=
  p.errors = [] ∧ ∃ ts, p.cursor.rest = ts ++ p'.cursor.rest ∧ p'.cursor.eof = p.cursor.eof ∧ Layout ts ds

namespace Lays

variable {p p' p'' : Parser} {ds es : List ClassDecl}

theorem refl (h : p.errors = []) : Lays p p [] := ⟨h, [], rfl, rfl, .nil⟩

theorem trans (h : Lays p p' ds) (h' : Lays p' p'' es) : Lays p p'' (ds ++ es) := by
  obtain ⟨herrors, ts, hts, heof, hlayout⟩ := h
  obtain ⟨-, us, hus, heof', hlayout'⟩ := h'
  exact ⟨herrors, ts ++ us, by rw [hts, hus, List.append_assoc], heof'.trans heof, hlayout.append hlayout'⟩

/-- A balanced run holds no classes. -/
theorem of_leads {loose braces : Bool} (h : p.errors = []) (hlead : p.cursor.Leads loose braces p'.cursor) :
    Lays p p' [] := by
  obtain ⟨ts, hts, heof, hrun⟩ := hlead
  exact ⟨h, ts, hts, heof, by simpa using Layout.passed hrun.balanced .nil⟩

theorem size_le (h : Lays p p' ds) : p'.cursor.size ≤ p.cursor.size := by
  obtain ⟨-, ts, hts, -, -⟩ := h
  rw [Cursor.size, Cursor.size, hts, List.length_append]
  omega

theorem sound (h : Lays p p' ds) (hp : p.cursor.Sound) : p'.cursor.Sound := by
  obtain ⟨-, ts, hts, heof, -⟩ := h
  exact ⟨heof ▸ hp.eof, fun t ht => hp.rest t (hts ▸ List.mem_append_right _ ht)⟩

end Lays

theorem reading_eq_ok {α : Type} {t : TokenParser α} {p p' : Parser} {a : α} :
    reading t p = .ok a p' ↔ t p.cursor = .ok a p'.cursor ∧ p'.errors = p.errors := by
  obtain ⟨c', errors⟩ := p'
  unfold reading
  cases t p.cursor with
  | ok a' c => simp [eq_comm (a := errors), and_assoc]
  | error e c => simp

/-- A token parser followed by a parser of members succeeds where both do, and records nothing. -/
theorem reading_bind_eq_ok {α β : Type} {t : TokenParser α} {f : α → MemberParser β} {p p' : Parser} {b : β} :
    (reading t >>= f) p = .ok b p' ↔ ∃ a c, t p.cursor = .ok a c ∧ f a ⟨c, p.errors⟩ = .ok b p' := by
  rw [TokenParser.bind_eq_ok]
  unfold reading
  cases t p.cursor with
  | ok a c => simp
  | error e c => simp

/-- Where a member is passed without an error, no class is; it has a token, unless the members end there. -/
theorem passMember_lays {p : Parser} (hp : p.cursor.Sound) (h : p.passMember.errors = []) :
    Lays p p.passMember [] ∧ (p.cursor.kind ≠ .eof → p.cursor.kind ≠ .rightBrace →
      p.passMember.cursor.size < p.cursor.size) := by
  unfold passMember at *
  rcases hskip : skipMember p.cursor with ⟨errors, stop⟩
  simp only [hskip, List.append_eq_nil_iff] at h ⊢
  obtain ⟨herrors, rfl⟩ := h
  exact ⟨.of_leads herrors (TokenParser.leads_skipMemberFrom hp hskip), fun hend hbrace =>
    TokenParser.size_skipMember_lt hp hend hbrace hskip⟩

/-! ## Errors stay recorded -/

/-- Whether a parser of members forgets no error. -/
def Keeps {α : Type} (m : MemberParser α) : Prop := ∀ p a p', m p = .ok a p' → p'.errors = [] → p.errors = []

namespace Keeps

variable {α β : Type} {m n : MemberParser α}

theorem pure (a : α) : Keeps (Pure.pure a) := fun _ _ _ hok h => by cases hok; exact h

theorem bind {f : α → MemberParser β} (hm : Keeps m) (hf : ∀ a, Keeps (f a)) : Keeps (m >>= f) := by
  intro p b p' hok h
  obtain ⟨a, q, ha, hb⟩ := TokenParser.bind_eq_ok.mp hok
  exact hm p a q ha (hf a q b p' hb h)

theorem reading {t : TokenParser α} : Keeps (Parser.reading t) := by
  intro p a p' hok h
  unfold Parser.reading at hok
  split at hok
  · cases hok
    exact h
  · contradiction

theorem always {f : Parser → α × Parser} (hf : ∀ p, (f p).2.errors = [] → p.errors = []) : Keeps (Parser.always f) :=
  fun p _ _ hok h => by cases hok; exact hf p h

theorem ite {b : Bool} (hm : Keeps m) (hn : Keeps n) : Keeps (if b = true then m else n) := by
  cases b
  · exact hn
  · exact hm

end Keeps

theorem errors_passMember {p : Parser} (h : p.passMember.errors = []) : p.errors = [] := by
  unfold passMember at h
  rcases skipMember p.cursor with ⟨errors, stop⟩
  exact (List.append_eq_nil_iff.mp h).1

theorem errors_recover_ne_nil (p : Parser) (e : ParseError) : (p.recover e).errors ≠ [] := fun h => by
  simpa [record] using errors_passMember h

section Errors

variable {body : Parser → List Member × Parser} (hbody : ∀ p, (body p).2.errors = [] → p.errors = [])

include hbody

theorem keeps_member : Keeps (member body) := by
  have hclassBody : Keeps (classBody body) :=
    .bind .reading fun _ => .ite (.bind .reading fun _ => .bind (.always hbody) fun _ => .bind .reading fun _ =>
      .pure _) (.pure _)
  have hclass : ∀ start kind annotations, Keeps (classFrom body start kind annotations) := fun _ _ _ =>
    .bind .reading fun ⟨_, _⟩ => .bind hclassBody fun _ => .bind .reading fun _ => .pure _
  refine .bind .reading fun start => .bind .reading fun preamble => .bind .reading fun here => .ite ?_ ?_
  · exact .bind .reading fun _ => .pure _
  · cases TokenParser.classKind? preamble.modifiers here with
    | some kind => exact .bind (hclass _ _ _) fun _ => .pure _
    | none => exact .bind (.always fun _ => errors_passMember) fun _ => .pure _

theorem errors_memberStep {p : Parser} (h : (memberStep body p).2.errors = []) : p.errors = [] := by
  unfold memberStep at h
  split at h
  · simp [record] at h
  · split at h
    · exact h
    · split at h
      · next found q hmember => exact keeps_member hbody p found q hmember h
      · next e q hmember => exact absurd h (errors_recover_ne_nil q e)

end Errors

theorem errors_members (inBody : Bool) (p : Parser) (h : (members inBody p).2.errors = []) : p.errors = [] := by
  induction hn : p.cursor.size using Nat.strongRecOn generalizing inBody p with
  | ind n ih =>
    subst hn
    have hbody : ∀ q : Parser, ((fun q => if q.cursor.size < p.cursor.size then members true q else ([], q)) q).2.errors =
        [] → q.errors = [] := by
      intro q hq
      dsimp only at hq
      split at hq
      · next hless => exact ih _ hless true q hq rfl
      · exact hq
    rw [members] at h
    split at h
    · exact h
    · dsimp only at h
      split at h
      · next hless => exact errors_memberStep hbody (ih _ hless inBody _ h rfl)
      · exact errors_memberStep hbody h

/-! ## What is laid out -/

section Body

variable {body : Parser → List Member × Parser} {p : Parser}

/-- A body is read as it should be where the classes of the members in it are laid out. -/
def ReadsBody (body : Parser → List Member × Parser) (p : Parser) : Prop :=
  ∀ q : Parser, q.cursor.size < p.cursor.size → q.cursor.Sound → (body q).2.errors = [] →
    Lays q (body q).2 ((body q).1.filterMap Member.class?)

/-- The body of a class is a forest in braces. -/
theorem classBody_ok {p' : Parser} {ds : List ClassDecl} (hp : p.cursor.Sound) (hbody : ReadsBody body p)
    (hok : classBody body p = .ok ds p') (herrors : p'.errors = []) :
    p.errors = [] ∧ p'.cursor.eof = p.cursor.eof ∧ (p'.cursor.rest = p.cursor.rest ∧ ds = [] ∨
      ∃ opening inner closing, p.cursor.rest = opening :: inner ++ closing :: p'.cursor.rest ∧
        opening.kind = .leftBrace ∧ closing.kind = .rightBrace ∧ Layout inner ds) := by
  unfold classBody at hok
  obtain ⟨hasBody, c, htest, hok⟩ := reading_bind_eq_ok.mp hok
  cases htest
  split at hok
  · next hbrace =>
    have hkind : p.cursor.kind = .leftBrace := Cursor.isAt_iff.mp hbrace
    obtain ⟨_, c, hnext, hok⟩ := reading_bind_eq_ok.mp hok
    cases hnext
    obtain ⟨members, q, hmembers, hok⟩ := TokenParser.bind_eq_ok.mp hok
    cases hmembers
    obtain ⟨closing, c, hexpect, hok⟩ := reading_bind_eq_ok.mp hok
    obtain ⟨hkind', rfl, rfl⟩ := TokenParser.expect_eq_ok.mp hexpect
    cases hok
    have hend : p.cursor.kind ≠ .eof := by rw [hkind]; nofun
    have hlays := hbody ⟨p.cursor.advance, p.errors⟩ (Cursor.size_advance_lt hp hend) hp.advance herrors
    have hq := hlays.sound hp.advance
    obtain ⟨herrors', inner, hinner, heof, hlayout⟩ := hlays
    refine ⟨herrors', ?_, .inr ⟨p.cursor.peek, inner, _, ?_, hkind, hkind', hlayout⟩⟩
    · rw [Cursor.eof_advance, heof, Cursor.eof_advance]
    · rw [TokenParser.rest_eq_cons hp hend, hinner, TokenParser.rest_eq_cons hq (by rw [hkind']; nofun)]
      rfl
  · cases hok
    exact ⟨herrors, rfl, .inl ⟨rfl, rfl⟩⟩

/-- A class is laid out from its keyword to the end of its body. -/
theorem classFrom_lays {p' : Parser} {start : Span} {kind : ClassKind} {modifiers : List String}
    {annotations : List AnnotationUse} {d : ClassDecl} (hp : p.cursor.Sound)
    (hbody : ∀ q : Parser, q.cursor.size < p.cursor.size → ReadsBody body q)
    (hkind : TokenParser.classKind? modifiers p.cursor = some kind)
    (hok : classFrom body start kind annotations p = .ok d p') (herrors : p'.errors = []) :
    Lays p p' [d] ∧ p'.cursor.size < p.cursor.size := by
  unfold classFrom at hok
  obtain ⟨⟨name, supertypes⟩, c, hhead, hok⟩ := reading_bind_eq_ok.mp hok
  obtain ⟨ds, q, hdeclarations, hok⟩ := TokenParser.bind_eq_ok.mp hok
  obtain ⟨_, c', hspan, hok⟩ := reading_bind_eq_ok.mp hok
  cases hspan
  cases hok
  obtain ⟨before, first, head, hrest, heof, hbefore, hishead⟩ := TokenParser.classHead_ok hp hkind hhead
  have hc : c.Sound := ⟨heof ▸ hp.eof, fun t ht => hp.rest t (hrest ▸ List.mem_append_right _ ht)⟩
  have hsize : c.size < p.cursor.size := by
    simp only [Cursor.size, hrest, List.length_append, List.length_cons]
    omega
  obtain ⟨herrors', heof', hends⟩ := classBody_ok hc (hbody ⟨c, p.errors⟩ hsize) hdeclarations herrors
  rcases hends with ⟨hrest', rfl⟩ | ⟨opening, inner, closing, hrest', hopening, hclosing, hinner⟩
  · refine ⟨⟨herrors', before ++ (first :: head ++ []), ?_, heof'.trans heof, ?_⟩, ?_⟩
    · rw [hrest, ← hrest']
      simp
    · exact .passed hbefore.balanced (.bodiless hishead rfl .nil)
    · rw [Cursor.size, hrest']
      exact hsize
  · refine ⟨⟨herrors', before ++ (first :: head ++ opening :: inner ++ closing :: []), ?_, heof'.trans heof, ?_⟩, ?_⟩
    · rw [hrest, hrest']
      simp
    · exact .passed hbefore.balanced (.embodied hishead hopening hclosing hinner .nil)
    · refine Nat.lt_of_le_of_lt ?_ hsize
      show q.cursor.rest.length ≤ c.rest.length
      rw [hrest', List.length_append, List.length_cons, List.length_cons]
      omega

/-- A member that is read without an error is laid out as it is kept, and it has a token. -/
theorem member_lays {p' : Parser} {found : Option Member} (hp : p.cursor.Sound)
    (hbody : ∀ q : Parser, q.cursor.size ≤ p.cursor.size → ReadsBody body q) (hend : p.cursor.kind ≠ .eof)
    (hbrace : p.cursor.kind ≠ .rightBrace) (hok : member body p = .ok found p') (herrors : p'.errors = []) :
    Lays p p' (found.toList.filterMap Member.class?) ∧ p'.cursor.size < p.cursor.size := by
  unfold member at hok
  obtain ⟨start, c, hspan, hok⟩ := reading_bind_eq_ok.mp hok
  cases hspan
  obtain ⟨preamble, c, hpreamble, hok⟩ := reading_bind_eq_ok.mp hok
  obtain ⟨_, _, hhere, hok⟩ := reading_bind_eq_ok.mp hok
  cases hhere
  have hlead : p.cursor.Leads false false c :=
    TokenParser.passes_preamble (P := fun _ => True) p.cursor hp trivial _ c hpreamble
  have hc : c.Sound := hlead.sound hp
  have hsize : c.size ≤ p.cursor.size := hlead.size_le
  have hpassed : p.errors = [] → Lays p ⟨c, p.errors⟩ [] := fun h => .of_leads h hlead
  dsimp only at hok
  split at hok
  · obtain ⟨a, c', halias, hok⟩ := reading_bind_eq_ok.mp hok
    cases hok
    obtain ⟨hlead', hless⟩ := TokenParser.leads_typeAlias hc halias
    exact ⟨(hpassed herrors).trans (.of_leads herrors hlead'), Nat.lt_of_lt_of_le hless hsize⟩
  · generalize hkind : TokenParser.classKind? preamble.modifiers c = kind at hok
    cases kind with
    | some kind =>
      obtain ⟨d, q, hclass, hok⟩ := TokenParser.bind_eq_ok.mp hok
      cases hok
      obtain ⟨hlays, hless⟩ := classFrom_lays (p := ⟨c, p.errors⟩) hc
        (fun q hq => hbody q (Nat.le_trans (Nat.le_of_lt hq) hsize)) hkind hclass herrors
      exact ⟨(hpassed hlays.1).trans hlays, Nat.lt_of_lt_of_le hless hsize⟩
    | none =>
      obtain ⟨_, q, hpass, hok⟩ := TokenParser.bind_eq_ok.mp hok
      cases hpass
      cases hok
      obtain ⟨hlays, hless⟩ := passMember_lays (p := ⟨c, p.errors⟩) hc herrors
      refine ⟨(hpassed hlays.1).trans hlays, ?_⟩
      by_cases hstart : c.kind = p.cursor.kind
      · exact Nat.lt_of_lt_of_le (hless (by rwa [hstart]) (by rwa [hstart])) hsize
      · exact Nat.lt_of_le_of_lt hlays.size_le (hlead.size_lt fun h => hstart h)

/-- What comes next among members is laid out as it is kept, if no error is recorded, and it has a token. -/
theorem memberStep_lays {p' : Parser} {found : Option Member} (hp : p.cursor.Sound)
    (hbody : ∀ q : Parser, q.cursor.size ≤ p.cursor.size → ReadsBody body q) (hend : p.cursor.kind ≠ .eof)
    (hstep : memberStep body p = (found, p')) (herrors : p'.errors = []) :
    Lays p p' (found.toList.filterMap Member.class?) ∧ p'.cursor.size < p.cursor.size := by
  unfold memberStep at hstep
  split at hstep
  · cases hstep
    simp [record] at herrors
  · next hbrace =>
    split at hstep
    · next hsemicolon =>
      cases hstep
      have hkind := Cursor.isAt_iff.mp hsemicolon
      have hlead : p.cursor.Leads false false p.cursor.advance :=
        Cursor.leads_advance (by rw [hkind]; rfl) (by rw [hkind]; rfl)
      exact ⟨.of_leads herrors hlead, Cursor.size_advance_lt hp hend⟩
    · cases hmember : member body p with
      | ok found' q =>
        simp only [hmember] at hstep
        cases hstep
        exact member_lays hp hbody hend (fun h => hbrace (Cursor.isAt_iff.mpr h)) hmember herrors
      | error e q =>
        simp only [hmember] at hstep
        cases hstep
        exact absurd herrors (errors_recover_ne_nil q e)

end Body

/-- Members that are read without an error are laid out as they are kept, up to the end of their body or of the
file. -/
theorem members_lays (inBody : Bool) (p : Parser) (hp : p.cursor.Sound) (h : (members inBody p).2.errors = []) :
    Lays p (members inBody p).2 ((members inBody p).1.filterMap Member.class?) ∧
      endsMembers inBody (members inBody p).2.cursor = true := by
  induction hn : p.cursor.size using Nat.strongRecOn generalizing inBody p with
  | ind n ih =>
    subst hn
    -- within the bodies of this member fewer tokens are to come
    have hbody : ∀ q : Parser, q.cursor.size ≤ p.cursor.size → ReadsBody
        (fun q => if q.cursor.size < p.cursor.size then members true q else ([], q)) q := by
      intro q hq r hr hsound hclean
      have hless := Nat.lt_of_lt_of_le hr hq
      dsimp only at hclean ⊢
      rw [if_pos hless] at hclean ⊢
      exact (ih _ hless true r hsound hclean rfl).1
    rw [members] at h ⊢
    split
    · next hends =>
      rw [if_pos hends] at h
      exact ⟨.refl h, hends⟩
    · next hends =>
      rw [if_neg hends] at h
      have hend : p.cursor.kind ≠ .eof := fun hkind => hends (by simp [endsMembers, Cursor.isAtEnd, Cursor.isAt, hkind])
      rcases hstep : memberStep (fun q => if q.cursor.size < p.cursor.size then members true q else ([], q)) p with
        ⟨found, q⟩
      simp only [hstep] at h ⊢
      split
      · next hless =>
        rw [if_pos hless] at h
        obtain ⟨hlays, -⟩ := memberStep_lays hp hbody hend hstep (errors_members inBody q h)
        obtain ⟨hlays', hstop⟩ := ih _ hless inBody q (hlays.sound hp) h rfl
        refine ⟨?_, hstop⟩
        rw [List.filterMap_append]
        exact hlays.trans hlays'
      · next hmore =>
        rw [if_neg hmore] at h
        exact absurd (memberStep_lays hp hbody hend hstep h).2 hmore

/-! ## Whole files -/

section Headers

variable {α : Type} {t : Cursor → Bool} {header : TokenParser α} {p q : Parser} {found : Option α}

/-- Where no error is recorded behind a header, it has been read. -/
theorem exists_reading_eq_ok (hstep : (match reading header p with
      | .ok a p' => (some a, p')
      | .error e p' => (none, p'.recover e)) = (found, q)) (h : q.errors = []) :
    ∃ a, found = some a ∧ reading header p = .ok a q := by
  cases hread : reading header p with
  | ok a q' =>
    rw [hread] at hstep
    cases hstep
    exact ⟨a, rfl, rfl⟩
  | error e q' =>
    rw [hread] at hstep
    cases hstep
    exact absurd h (errors_recover_ne_nil q' e)

theorem reading_lays {a : α} (hheader : TokenParser.Passes false false (fun _ => True) header)
    (hp : p.cursor.Sound) (hok : reading header p = .ok a q) (h : q.errors = []) : Lays p q [] := by
  obtain ⟨hok, herrors⟩ := reading_eq_ok.mp hok
  exact .of_leads (herrors ▸ h) (hheader p.cursor hp trivial a q.cursor hok)

theorem errors_headers (p : Parser) (h : (headers t header p).2.errors = []) : p.errors = [] := by
  fun_induction headers t header p with
  | case1 p ht found q hstep hless others q' hothers ih =>
    rw [hothers] at ih
    obtain ⟨a, -, hok⟩ := exists_reading_eq_ok hstep (ih h)
    exact Keeps.reading p a q hok (ih h)
  | case2 p ht found q hstep hless =>
    obtain ⟨a, -, hok⟩ := exists_reading_eq_ok hstep h
    exact Keeps.reading p a q hok h
  | case3 p ht => exact h

/-- What each header of a kind passes and answers, a repetition of them does. -/
theorem headers_leads {S : List α → List Token → Prop} (hnil : S [] [])
    (hcons : ∀ a as ts us, S [a] ts → S as us → S (a :: as) (ts ++ us))
    (hheader : ∀ c a c', c.Sound → header c = .ok a c' → c.LeadsBy (S [a]) c') (p : Parser) (hp : p.cursor.Sound)
    (h : (headers t header p).2.errors = []) :
    p.cursor.LeadsBy (S (headers t header p).1) (headers t header p).2.cursor := by
  fun_induction headers t header p with
  | case1 p ht found q hstep hless others q' hothers ih =>
    rw [hothers] at ih
    have hq : q.errors = [] := errors_headers q (by rw [hothers]; exact h)
    obtain ⟨a, rfl, hok⟩ := exists_reading_eq_ok hstep hq
    have hfirst := hheader p.cursor a q.cursor hp (reading_eq_ok.mp hok).1
    obtain ⟨us, hus, heof', hrun'⟩ := ih (hfirst.sound hp) h
    obtain ⟨ts, hts, heof, hrun⟩ := hfirst
    exact ⟨ts ++ us, by rw [hts, hus, List.append_assoc], heof'.trans heof, hcons a others ts us hrun hrun'⟩
  | case2 p ht found q hstep hless =>
    obtain ⟨a, rfl, hok⟩ := exists_reading_eq_ok hstep h
    exact hheader p.cursor a q.cursor hp (reading_eq_ok.mp hok).1
  | case3 p ht => exact ⟨[], rfl, rfl, hnil⟩

/-- A repetition of headers that all have a token ends where its test fails. -/
theorem test_of_headers {S : List Token → Prop}
    (hheader : ∀ c a c', c.Sound → header c = .ok a c' → c.LeadsBy S c' ∧ c'.size < c.size) (p : Parser)
    (hp : p.cursor.Sound) (h : (headers t header p).2.errors = []) : t (headers t header p).2.cursor = false := by
  fun_induction headers t header p with
  | case1 p ht found q hstep hless others q' hothers ih =>
    rw [hothers] at ih
    have hq : q.errors = [] := errors_headers q (by rw [hothers]; exact h)
    obtain ⟨a, rfl, hok⟩ := exists_reading_eq_ok hstep hq
    exact ih ((hheader p.cursor a q.cursor hp (reading_eq_ok.mp hok).1).1.sound hp) h
  | case2 p ht found q hstep hless =>
    obtain ⟨a, rfl, hok⟩ := exists_reading_eq_ok hstep h
    exact absurd (hheader p.cursor a q.cursor hp (reading_eq_ok.mp hok).1).2 hless
  | case3 p ht => exact Bool.eq_false_iff.mpr ht

/-- The headers of a file hold no classes. -/
theorem headers_lays (hheader : TokenParser.Passes false false (fun _ => True) header) (p : Parser)
    (hp : p.cursor.Sound) (h : (headers t header p).2.errors = []) : Lays p (headers t header p).2 [] :=
  .of_leads (errors_headers p h) (headers_leads (S := fun _ => Run false false) .nil (fun _ _ _ _ => .append)
    (fun c a c' hc hok => hheader c hc trivial a c' hok) p hp h)

/-- The package header is read where there is one. -/
theorem package?_reads (p : Parser) (h : p.package?.2.errors = []) :
    (p.cursor.kind ≠ .package ∧ p.package? = (none, p)) ∨
      ∃ path q, p.package? = (some path, q) ∧ reading TokenParser.packageHeader p = .ok path q := by
  unfold package? at *
  by_cases hat : p.cursor.isAt .package = true
  · rw [if_pos hat] at h ⊢
    cases hread : reading TokenParser.packageHeader p with
    | ok path q => exact .inr ⟨path, q, rfl, rfl⟩
    | error e q =>
      rw [hread] at h
      exact absurd h (errors_recover_ne_nil q e)
  · exact .inl ⟨fun hkind => hat (Cursor.isAt_iff.mpr hkind), if_neg hat⟩

theorem errors_package? (p : Parser) (h : p.package?.2.errors = []) : p.errors = [] := by
  rcases package?_reads p h with ⟨-, hsame⟩ | ⟨path, q, hpackage, hok⟩
  · rwa [hsame] at h
  · rw [hpackage] at h
    exact Keeps.reading p path q hok h

theorem package?_lays (p : Parser) (hp : p.cursor.Sound) (h : p.package?.2.errors = []) : Lays p p.package?.2 [] := by
  rcases package?_reads p h with ⟨-, hsame⟩ | ⟨path, q, hpackage, hok⟩
  · rw [hsame] at h ⊢
    exact .refl h
  · rw [hpackage] at h ⊢
    exact reading_lays TokenParser.passes_packageHeader hp hok h

end Headers

/-- A file that is read without an error is laid out in all its tokens. -/
theorem file_layout {p p' : Parser} {name : String} {f : SourceFile} (hp : p.cursor.Sound)
    (hfile : p.file name = (f, p')) (h : p'.errors = []) : Layout p.cursor.rest f.declarations := by
  let p₁ := (headers isAtFileAnnotation TokenParser.annotationUse p).2
  let p₂ := p₁.package?.2
  let p₃ := (headers (·.isAt .import) TokenParser.importHeader p₂).2
  let p₄ := (members false p₃).2
  obtain ⟨rfl, rfl⟩ := Prod.mk.inj hfile
  have h₃ : p₃.errors = [] := errors_members false p₃ h
  have h₂ : p₂.errors = [] := errors_headers p₂ h₃
  have h₁ : p₁.errors = [] := errors_package? p₁ h₂
  have hlays₁ : Lays p p₁ [] := headers_lays TokenParser.takes_annotationUse p hp h₁
  have hsound₁ := hlays₁.sound hp
  have hlays₂ : Lays p₁ p₂ [] := package?_lays p₁ hsound₁ h₂
  have hlays₃ : Lays p₂ p₃ [] := headers_lays TokenParser.passes_importHeader p₂ (hlays₂.sound hsound₁) h₃
  have hsound₃ := hlays₃.sound (hlays₂.sound hsound₁)
  obtain ⟨hlays₄, hend⟩ := members_lays false p₃ hsound₃ h
  have hsound₄ : p₄.cursor.Sound := hlays₄.sound hsound₃
  -- the members end where the tokens do
  have hrest : p₄.cursor.rest = [] := by
    refine hsound₄.rest_eq_nil (Cursor.isAt_iff.mp ?_)
    simpa [endsMembers, Cursor.isAtEnd] using hend
  obtain ⟨-, ts, hts, -, hlayout⟩ := ((hlays₁.trans hlays₂).trans hlays₃).trans hlays₄
  have hts : p.cursor.rest = ts := by rw [hts]; simpa using hrest
  rw [hts]
  exact hlayout

end Parser

/-- The braces of a file that is read are balanced, and every class in it stands in the bodies of the classes
around it: the braces that are open in front of its keyword are those that open these bodies. -/
theorem SourceFile.standsIn_of_parse {name source : String} {f : SourceFile}
    (h : SourceFile.parse name source = .ok f) :
    openBraces 0 [] (tokensOf source) = some [] ∧ ∀ p ∈ f.placed, p.StandsIn (tokensOf source) := by
  unfold SourceFile.parse at h
  rcases hfile : (Parser.ofSource source).file name with ⟨f', p'⟩
  simp only [hfile] at h
  split at h
  · next herrors =>
    cases h
    obtain ⟨hsound, htokens⟩ := Parser.ofSource_cursor source
    have hlayout := Parser.file_layout hsound hfile (List.isEmpty_iff.mp herrors)
    have heof : Balanced [(Parser.ofSource source).cursor.eof] :=
      .cons (by rw [hsound.eof]; nofun) (by rw [hsound.eof]; nofun) .nil
    refine ⟨?_, fun p hp => ?_⟩
    · rw [htokens]
      exact (hlayout.balanced.append heof) 0 []
    · obtain ⟨q, hq, hreach⟩ := Placed.mem_levels_iff.mp hp
      obtain ⟨d, hd, rfl⟩ := List.mem_map.mp hq
      have hall : tokensOf source =
          [] ++ (Parser.ofSource source).cursor.rest ++ [(Parser.ofSource source).cursor.eof] := htokens
      have hopened : openBraces 0 [] [] = some [] := rfl
      exact hlayout.standsIn hall hopened .nil hd hreach
  · contradiction

/-! ## A local class among the members -/

/-- Whether the brace that opens the body of an anonymous object stands at a place: the first one behind `object`
and a colon that is in no group in round and square brackets. -/
def OpensObjectAt (ts : List Token) (place : Nat) : Prop :=
  ∃ before first colon head opening after, ts = before ++ first :: colon :: head ++ opening :: after ∧
    (before ++ first :: colon :: head).length = place ∧ first.kind = .object ∧ colon.kind = .colon ∧
    Run true false head ∧ opening.kind = .leftBrace

namespace LocalClass

/-- A class whose body has a function with a class of its own, and a nested object. -/
def nested : String := "class Outer \x7b\n  fun f() \x7b class Local \x7d\n  object Inner\n\x7d\n"

/-- The class in the function is not among the declarations. -/
theorem standsIn_nested : ∃ f, SourceFile.parse "T.kt" nested = .ok f ∧
    openBraces 0 [] (tokensOf nested) = some [] ∧ ∀ p ∈ f.placed, p.StandsIn (tokensOf nested) := by
  have hparse : (SourceFile.parse "T.kt" nested).toBool = true := by decide +kernel
  cases h : SourceFile.parse "T.kt" nested with
  | ok f => exact ⟨f, rfl, SourceFile.standsIn_of_parse h⟩
  | error es =>
    rw [h] at hparse
    contradiction

/-- A class that delegates to an anonymous object with a class of its own. -/
def delegating : String := "class Foo : I by object : I \x7b class Local \x7d\n"

/-- A token of the first line. -/
def tokenAt (kind : TokenKind) (lexeme : String) (column : Nat) : Token :=
  ⟨kind, lexeme, ⟨1, column, lexeme.utf8ByteSize⟩, false⟩

/-- The tokens up to the body of the object, and those behind its brace. -/
theorem tokensOf_delegating : tokensOf delegating =
    [tokenAt .class "class" 1, tokenAt .identifier "Foo" 7, tokenAt .colon ":" 11, tokenAt .identifier "I" 13,
      tokenAt .identifier "by" 15] ++ tokenAt .object "object" 18 :: tokenAt .colon ":" 25 ::
      [tokenAt .identifier "I" 27] ++ tokenAt .leftBrace "\x7b" 29 :: [tokenAt .class "class" 31,
      tokenAt .identifier "Local" 37, tokenAt .rightBrace "\x7d" 43, ⟨.eof, "", ⟨2, 1, 0⟩, true⟩] := by
  with_unfolding_all rfl

/-- The class in the object is declared in the class that delegates. -/
theorem declarations_delegating : (SourceFile.parse "T.kt" delegating).toOption.map (fun f =>
      f.declarations.map fun d => (d.name.name, d.declarations.map fun e => (e.kind, e.name))) =
    some [("Foo", [(.class, ⟨"Local", ⟨1, 37, 5⟩⟩)])] := by
  with_unfolding_all rfl

/-- A declaration is reported in front of whose keyword the body of an anonymous object is open, and nothing
else. -/
theorem stands_in_anonymous_object : ∃ f p place brace, SourceFile.parse "T.kt" delegating = .ok f ∧
    p ∈ f.placed ∧ p.decl.BeginsAt (tokensOf delegating) place ∧
    openBraces 0 [] ((tokensOf delegating).take place) = some [brace] ∧
    OpensObjectAt (tokensOf delegating) brace := by
  have hdeclarations := declarations_delegating
  cases h : SourceFile.parse "T.kt" delegating with
  | error es =>
    rw [h] at hdeclarations
    contradiction
  | ok f =>
    rw [h] at hdeclarations
    simp only [Except.toOption, Option.map_some, Option.some.injEq, List.map_eq_singleton_iff, Prod.mk.injEq]
      at hdeclarations
    obtain ⟨foo, hfoo, -, inner, hinner, hkind, hname⟩ := hdeclarations
    have hplaced : ⟨[foo], inner⟩ ∈ f.placed := by
      rw [SourceFile.placed, Placed.mem_levels_iff, hfoo]
      exact ⟨.top foo, List.mem_singleton_self _, .single (List.mem_map.mpr ⟨inner, by simp [Placed.top, hinner], rfl⟩)⟩
    refine ⟨f, _, 9, 8, rfl, hplaced, ?_, by rw [tokensOf_delegating]; rfl, ?_⟩
    · refine ⟨(tokensOf delegating).take 9, tokenAt .class "class" 31, [tokenAt .identifier "Local" 37],
        (tokensOf delegating).drop 11, ?_, ?_, ?_, .inl ⟨_, [], rfl, rfl, hname⟩, .plain rfl rfl⟩
      · rw [tokensOf_delegating]
        rfl
      · rw [tokensOf_delegating]
        rfl
      · rw [hkind]
        rfl
    · exact ⟨_, _, _, _, _, _, tokensOf_delegating, rfl, rfl, rfl, .plain rfl rfl, rfl⟩

end LocalClass

end ServiceCatalog
