import ServiceCatalog.Proofs.Parse.AnchoredHeads

/-!
# Spans point at tokens

Every span in the tree of a source file begins with a token of the file, at which the node of the span is read, and
every error is about a piece of the file: a token, the end of the file among them, or a piece that is no token.

The tree is that of a file without errors, so its members are those of a reading (`Reads`), and the span of each begins
where it is read.  Errors are recorded by the readers of members, which go on behind them: `Parser.Fits` says that a
parser stands in the file and its errors are about pieces of it, and `Parser.Records` that a parser of members keeps this.

* `SourceFile.spans_point_at_tokens`: the spans of the tree, and those of the errors.
-/

namespace ServiceCatalog

open TokenParser

open Node (Anchored IsBuiltAt)

/-! ## Members -/

/-- The node of a member that is kept. -/
def Member.node : Member → Node
  | .class d => .class d
  | .typeAlias a => .typeAlias a

theorem Cursor.IsAtKept.isAtDeclaration {c : Cursor} (h : c.IsAtKept) : Node.IsAtDeclaration c := by
  rcases h.cases with hat | ⟨hmodifier, -⟩ | ⟨hkeyword, -⟩
  · exact .inl hat
  · exact .inr (.inl hmodifier)
  · exact .inr (.inr hkeyword)

section Readings

variable {b : Cursor} (hb : b.Sound) (ho : b.Ordered)

include hb ho

/-- A class begins with its head, and the nodes in it are those of the head and of the body. -/
theorem anchored_class {c k : Cursor} {as : List AnnotationUse} {kind : ClassKind} {name : Ident} {ts : List TypeRef}
    {span : Span} {inner : List Member} (hc : b.Precedes c) (hhead : ReadsHead c as kind name ts k)
    (hstart : span.start = c.peek.span.start) (hinner : ∀ m ∈ inner, Anchored b m.node) :
    Anchored b (.class ⟨kind, name, as, ts, inner.filterMap Member.class?, span⟩) := by
  refine IsBuiltAt.anchored ⟨fun _ hs => Option.some.inj hs ▸ hstart, ?_⟩ hc ⟨hhead.isAtKept.isAtDeclaration, k, hhead⟩
  obtain ⟨-, hbefore, -, hhead⟩ := hhead
  obtain ⟨hmoves, hannotations⟩ := (yields_preamble hb ho hc).reads _ _ hbefore
  obtain ⟨-, hname, hts⟩ := (yields_classHead hb ho (hc.trans hmoves) kind).reads _ _ hhead
  refine List.forall_mem_cons.mpr ⟨hname, ?_⟩
  simp only [List.forall_mem_append, List.forall_mem_map]
  exact ⟨⟨hannotations, hts⟩, fun d hd => hinner _ (Member.mem_of_class? hd)⟩

/-- **The members of a reading are anchored.** -/
theorem Reads.anchored {c k : Cursor} {ms : List Member} (h : Reads c ms k) (hc : b.Precedes c) :
    ∀ m ∈ ms, Anchored b m.node := by
  induction h with
  | nil => exact List.forall_mem_nil _
  | mark _ _ ih => exact ih (hc.trans .advance)
  | @passed c c₁ c₂ k before ms _ hbefore _ _ hskip _ ih =>
    have hmoves := precedes_of_ok forward_preamble (hc.sound hb) hbefore
    have hpassed := precedes_skipMemberFrom true c₁
    rw [show skipMemberFrom true c₁ = ([], c₂) from hskip] at hpassed
    exact ih ((hc.trans hmoves).trans hpassed)
  | @typeAlias c c₁ c₂ k before a ms hitem hbefore hkeyword halias hothers ih =>
    obtain ⟨hmoves, hannotations⟩ := (yields_preamble hb ho hc).reads _ _ hbefore
    obtain ⟨hbehind, hsame, hname, htarget⟩ := (yields_typeAlias hb ho (hc.trans hmoves) _ _).reads _ _ halias
    have hkept : c.IsAtKept := ⟨before, c₁, hbefore, .inl hkeyword⟩
    refine List.forall_mem_cons.mpr ⟨?_, ih ((hc.trans hmoves).trans hbehind)⟩
    have hstart := (Reads.typeAlias hitem hbefore hkeyword halias hothers).start_span hkept (hc.sound hb) (hc.ordered ho)
    refine IsBuiltAt.anchored ⟨fun _ hs => Option.some.inj hs ▸ hstart, ?_⟩ hc
      ⟨hkept.isAtDeclaration, before, c₁, c₂, hbefore, hkeyword, halias⟩
    refine List.forall_mem_cons.mpr ⟨hname, List.forall_mem_cons.mpr ⟨htarget, List.forall_mem_map.mpr ?_⟩⟩
    exact hsame ▸ hannotations
  | bodiless hhead hbrace hothers ih =>
    refine List.forall_mem_cons.mpr ⟨?_, ih (hc.trans (hhead.precedes (hc.sound hb)))⟩
    have hstart := (Reads.bodiless hhead hbrace hothers).start_span hhead.isAtKept (hc.sound hb) (hc.ordered ho)
    exact anchored_class hb ho hc hhead hstart (List.forall_mem_nil _)
  | embodied hhead hbrace hinner hclose hothers ihinner ih =>
    have hopening := hc.trans ((hhead.precedes (hc.sound hb)).trans .advance)
    have hclosing := hopening.trans (hinner.precedes (hopening.sound hb))
    refine List.forall_mem_cons.mpr ⟨?_, ih (hclosing.trans .advance)⟩
    have hstart := (Reads.embodied hhead hbrace hinner hclose hothers).start_span hhead.isAtKept (hc.sound hb)
      (hc.ordered ho)
    exact anchored_class hb ho hc hhead hstart (ihinner hopening)

namespace Parser

/-! ## Errors -/

/-- Whether a parser stands in a file, and the errors recorded so far have a property. -/
structure Fits (b : Cursor) (E : ParseError → Prop) (p : Parser) : Prop where
  place : b.Precedes p.cursor
  errors : ∀ e ∈ p.errors, E e

/-- Whether a parser of members stays in a file, records errors that have a property, and fails with errors about the
file. -/
structure Records (b : Cursor) (E : ParseError → Prop) {α : Type} (m : MemberParser α) : Prop where
  ok : ∀ p a p', p.Fits b E → m p = .ok a p' → p'.Fits b E
  error : ∀ p e p', p.Fits b E → m p = .error e p' → p'.Fits b E ∧ e.IsAbout b

namespace Records

variable {E : ParseError → Prop} {α β : Type} {m k : MemberParser α}

omit hb ho

theorem pure (a : α) : Records b E (Pure.pure a : MemberParser α) where
  ok p a' p' hp hok := by
    cases hok
    exact hp
  error p e p' hp herror := by contradiction

theorem bind {f : α → MemberParser β} (hm : Records b E m) (hf : ∀ a, Records b E (f a)) : Records b E (m >>= f) where
  ok p b p' hp hok := by
    obtain ⟨a, q, hfirst, hsecond⟩ := bind_eq_ok.mp hok
    exact (hf a).ok q b p' (hm.ok p a q hp hfirst) hsecond
  error p e p' hp herror := by
    rw [bind_eq_match] at herror
    split at herror
    · next a q hfirst => exact (hf a).error q e p' (hm.ok p a q hp hfirst) herror
    · next hfirst =>
      cases herror
      exact hm.error p _ _ hp hfirst

theorem reading {t : TokenParser α} {Q : α → Cursor → Prop} (ht : ∀ c, b.Precedes c → Yields b c t Q) :
    Records b E (Parser.reading t) where
  ok p a p' hp hok := by
    obtain ⟨hread, herrors⟩ := reading_eq_ok.mp hok
    exact ⟨hp.place.trans ((ht _ hp.place).reads _ _ hread).1, herrors ▸ hp.errors⟩
  error p e p' hp herror := by
    unfold Parser.reading at herror
    split at herror
    · contradiction
    · next e' c hread =>
      cases herror
      obtain ⟨hmoves, he⟩ := (ht _ hp.place).blames _ _ hread
      exact ⟨⟨hp.place.trans hmoves, hp.errors⟩, he⟩

theorem always {f : Parser → α × Parser} (hf : ∀ p, p.Fits b E → (f p).2.Fits b E) : Records b E (Parser.always f) where
  ok p a p' hp hok := by
    cases hok
    exact hf p hp
  error p e p' hp herror := by contradiction

theorem ite {found : Bool} (hm : Records b E m) (hk : Records b E k) :
    Records b E (if found = true then m else k) := by
  cases found
  · exact hk
  · exact hm

end Records

section Errors

variable {E : ParseError → Prop} (hE : ∀ e : ParseError, e.IsAbout b → E e)

include hE

omit ho

theorem fits_passMember {p : Parser} (hp : p.Fits b E) : p.passMember.Fits b E where
  place := hp.place.trans (precedes_passMember p)
  errors := List.forall_mem_append.mpr
    ⟨hp.errors, fun e he => hE e (isAbout_of_mem_skipMemberFrom hb hp.place he)⟩

omit hb in
theorem fits_record {p : Parser} {e : ParseError} (hp : p.Fits b E) (he : e.IsAbout b) : (p.record e).Fits b E where
  place := hp.place
  errors := List.forall_mem_append.mpr ⟨hp.errors, List.forall_mem_singleton.mpr (hE e he)⟩

theorem fits_recover {p : Parser} {e : ParseError} (hp : p.Fits b E) (he : e.IsAbout b) : (p.recover e).Fits b E :=
  fits_passMember hb hE (fits_record hE hp he)

include ho

section Body

variable {body : Parser → List Member × Parser} (hbody : ∀ p, p.Fits b E → (body p).2.Fits b E)

include hbody

omit hb ho hE in
theorem records_classBody : Records b E (classBody body) := by
  unfold classBody
  refine .bind (.reading (Q := fun _ _ => True) fun _ _ => .of_ok rfl .refl trivial) fun _ => .ite ?_ (.pure _)
  refine .bind (.reading (Q := fun _ _ => True) fun _ _ => .next trivial) fun _ => .bind (.always hbody) fun _ => ?_
  exact .bind (.reading (Q := fun _ _ => True) fun _ hc => .expect hc fun _ => trivial) fun _ => .pure _

theorem records_member : Records b E (member body) := by
  have hhere : ∀ {α : Type} {t : TokenParser α}, (∀ c, ∃ a, t c = .ok a c) → Records b E (reading t) := fun ht =>
    .reading (Q := fun _ _ => True) fun c _ => .of_ok (ht c).choose_spec .refl trivial
  have hclass : ∀ start kind annotations, Records b E (classFrom body start kind annotations) := by
    intro start kind annotations
    unfold classFrom
    refine .bind (.reading fun c hc => yields_classHead hb ho hc kind) fun ⟨name, supertypes⟩ => ?_
    exact .bind (records_classBody hbody) fun _ => .bind (hhere fun _ => ⟨_, rfl⟩) fun _ => .pure _
  unfold member
  refine .bind (hhere fun _ => ⟨_, rfl⟩) fun start => .bind (.reading fun c hc => yields_preamble hb ho hc) fun before => ?_
  refine .bind (hhere fun _ => ⟨_, rfl⟩) fun here => .ite ?_ ?_
  · exact .bind (.reading fun c hc => yields_typeAlias hb ho hc start before.annotations) fun _ => .pure _
  · cases classKind? before.modifiers here with
    | some kind => exact .bind (hclass start kind before.annotations) fun _ => .pure _
    | none => exact .bind (.always fun p hp => fits_passMember hb hE hp) fun _ => .pure _

/-- One turn among members keeps a parser in the file, with errors about it. -/
theorem fits_memberStep {p : Parser} (hp : p.Fits b E) : (memberStep body p).2.Fits b E := by
  unfold memberStep
  split
  · exact ⟨hp.place.trans .advance, (fits_record hE hp ⟨p.cursor, hp.place, rfl⟩).errors⟩
  · split
    · exact ⟨hp.place.trans .advance, hp.errors⟩
    · split
      · next found q hmember => exact (records_member hb ho hE hbody).ok p found q hp hmember
      · next e q hmember =>
        obtain ⟨hq, he⟩ := (records_member hb ho hE hbody).error p e q hp hmember
        exact fits_recover hb hE hq he

end Body

/-- So do the members up to the end of their body or of the file. -/
theorem fits_members (inBody : Bool) {p : Parser} (hp : p.Fits b E) : (members inBody p).2.Fits b E := by
  induction hsize : p.cursor.size using Nat.strongRecOn generalizing inBody p with
  | _ size ih =>
    subst hsize
    have hbody : ∀ q : Parser, q.Fits b E →
        ((fun q => if q.cursor.size < p.cursor.size then members true q else ([], q)) q).2.Fits b E := by
      intro q hq
      dsimp only
      split
      · next hless => exact ih _ hless true hq rfl
      · exact hq
    have hstep := fits_memberStep hb ho hE hbody hp
    rw [members]
    split
    · exact hp
    · dsimp only
      split
      · next hless => exact ih _ hless inBody hstep rfl
      · exact hstep

section Headers

variable {α : Type} {t : Cursor → Bool} {header : TokenParser α} {R : α → Prop}
  (hheader : ∀ c, b.Precedes c → Yields b c header fun a _ => R a)

include hheader

omit ho in
/-- One turn at the headers of a file, in which a header is read or its error is recorded. -/
theorem fits_header {p q : Parser} {found : Option α} (hp : p.Fits b E) (hstep : (match reading header p with
      | .ok a p' => (some a, p')
      | .error e p' => (none, p'.recover e)) = (found, q)) : q.Fits b E ∧ ∀ a ∈ found.toList, R a := by
  have hrecords : Records b E (reading header) := .reading hheader
  split at hstep
  · next a p' hread =>
    cases hstep
    exact ⟨hrecords.ok p a _ hp hread, List.forall_mem_singleton.mpr
      ((hheader _ hp.place).reads _ _ (reading_eq_ok.mp hread).1).2⟩
  · next e p' hread =>
    cases hstep
    obtain ⟨hq, he⟩ := hrecords.error p e p' hp hread
    exact ⟨fits_recover hb hE hq he, List.forall_mem_nil _⟩

omit ho in
/-- The headers that are read have what their parser yields. -/
theorem fits_headers {p : Parser} (hp : p.Fits b E) :
    (headers t header p).2.Fits b E ∧ ∀ a ∈ (headers t header p).1, R a := by
  fun_induction headers t header p with
  | case1 p ht found q hstep hless others q' hothers ih =>
    obtain ⟨hq, hfound⟩ := fits_header hb hE hheader hp hstep
    obtain ⟨hq', hall⟩ := ih hq
    rw [hothers] at hq' hall
    exact ⟨hq', List.forall_mem_append.mpr ⟨hfound, hall⟩⟩
  | case2 p ht found q hstep hless => exact fits_header hb hE hheader hp hstep
  | case3 p ht => exact ⟨hp, List.forall_mem_nil _⟩

end Headers

theorem fits_package? {p : Parser} (hp : p.Fits b E) :
    (package? p).2.Fits b E ∧ ∀ path ∈ (package? p).1.toList, Anchored b (.path path) := by
  have hheader : ∀ c, b.Precedes c → Yields b c packageHeader fun p _ => Anchored b (.path p) :=
    fun _ hc => yields_packageHeader hb ho hc
  have hrecords : Records b E (reading packageHeader) := .reading hheader
  unfold package?
  split
  · split
    · next path p' hread =>
      exact ⟨hrecords.ok p path p' hp hread, List.forall_mem_singleton.mpr
        ((hheader _ hp.place).reads _ _ (reading_eq_ok.mp hread).1).2⟩
    · next e p' hread =>
      obtain ⟨hq, he⟩ := hrecords.error p e p' hp hread
      exact ⟨fits_recover hb hE hq he, List.forall_mem_nil _⟩
  · exact ⟨hp, List.forall_mem_nil _⟩

/-- Every error that is recorded in a file is about a piece of it. -/
theorem fits_file {p : Parser} (hp : p.Fits b E) (name : String) : (p.file name).2.Fits b E := by
  have h₁ := (fits_headers hb hE (t := isAtFileAnnotation) (fun _ hc => yields_fileAnnotation hb ho hc) hp).1
  have h₂ := (fits_package? hb ho hE h₁).1
  have h₃ := (fits_headers hb hE (t := (·.isAt .import)) (fun _ hc => yields_importHeader hb ho hc) h₂).1
  exact fits_members hb ho hE false h₃

end Errors

end Parser

end Readings

/-! ## Source files -/

/-- **The tree of a file that is read without an error is anchored in it.** -/
theorem Parser.anchored_file {p : Parser} (hsound : p.cursor.Sound) (hordered : p.cursor.Ordered)
    (hprevious : p.cursor.previous = none) {name : String} (herrors : (p.file name).2.errors = []) :
    Anchored p.cursor (.file (p.file name).1) := by
  have hE : ∀ e : ParseError, e.IsAbout p.cursor → True := fun _ _ => trivial
  have hp : p.Fits p.cursor fun _ => True := ⟨.refl, fun _ _ => trivial⟩
  obtain ⟨h₁, hannotations⟩ := Parser.fits_headers hsound hE (t := Parser.isAtFileAnnotation)
    (fun _ hc => yields_fileAnnotation hsound hordered hc) hp
  obtain ⟨h₂, hpackage⟩ := Parser.fits_package? hsound hordered hE h₁
  obtain ⟨h₃, himports⟩ := Parser.fits_headers hsound hE (t := (·.isAt .import))
    (fun _ hc => yields_importHeader hsound hordered hc) h₂
  have hmembers := (Parser.reads_of_file hsound herrors).2.anchored hsound hordered h₃.place
  have hend := (Parser.fits_file hsound hordered hE hp name).place
  have hstart : ((p.file name).2.cursor.spanFrom p.cursor.peek.span).start = p.cursor.peek.span.start := by
    by_cases hless : (p.file name).2.cursor.size < p.cursor.size
    · exact Cursor.start_spanFrom hordered hend hless
    · rw [hend.eq_of_size_le (Nat.le_of_not_lt hless), Cursor.spanFrom, hprevious]
  refine IsBuiltAt.anchored ⟨fun _ hs => Option.some.inj hs ▸ hstart, ?_⟩ .refl trivial
  simp only [Node.parts, List.forall_mem_append, List.forall_mem_map]
  exact ⟨⟨⟨⟨hannotations, hpackage⟩, himports⟩, fun d hd => hmembers _ (Member.mem_of_class? hd)⟩,
    fun a ha => hmembers _ (Member.mem_of_typeAlias? ha)⟩

namespace SourceFile

/-- A place of a source file is in front of one of its tokens. -/
theorem peek_mem_tokensOf {source : String} {c : Cursor} (h : (Parser.ofSource source).cursor.Precedes c) :
    c.peek ∈ tokensOf source := by
  obtain ⟨n, rfl⟩ := h
  rw [(Parser.ofSource_cursor source).2, Cursor.peek, Cursor.peekNth, List.getD_eq_getElem?_getD]
  cases hnext : ((Parser.ofSource source).cursor.skip n).rest[0]? with
  | none => exact List.mem_append_right _ (List.mem_singleton_self _)
  | some t => exact List.mem_append_left _ (List.mem_of_mem_drop (List.mem_of_getElem? hnext))

/-- Every error of a file begins with a piece of it. -/
theorem exists_lexeme_of_error {name source : String} {e : ParseError}
    (he : e ∈ ((Parser.ofSource source).file name).2.errors) : ∃ x ∈ lexemes source, e.span.start = x.start := by
  have hE : ∀ e : ParseError, e.IsAbout (Parser.ofSource source).cursor → ∃ x ∈ lexemes source, e.span.start = x.start := by
    rintro e ⟨d, hd, hspan⟩
    exact ⟨.token d.peek, token_mem_of_mem_filterMap (peek_mem_tokensOf hd), by rw [hspan]; rfl⟩
  have hlexical : ∀ e ∈ (Parser.ofSource source).errors, ∃ x ∈ lexemes source, e.span.start = x.start := by
    intro e he
    obtain ⟨fault, hfault, rfl⟩ := List.mem_map.mp he
    obtain ⟨x, hx, hsome⟩ := List.mem_filterMap.mp hfault
    cases x with
    | token t => contradiction
    | invalid fault' newline =>
      cases hsome
      exact ⟨_, hx, rfl⟩
  exact (Parser.fits_file (Parser.ofSource_cursor source).1 (Parser.ordered_ofSource source) hE ⟨.refl, hlexical⟩ name).errors
    e he

/-- **Spans point at tokens.**  In the tree of a file that is read, the span of every node at any depth begins with a
token of the file, and the node is what is read at this token; and every error of a file that is not read begins with a
token of the file, the end of the file among them, or with a piece of it that is no token. -/
theorem spans_point_at_tokens (name source : String) :
    (∀ f, SourceFile.parse name source = .ok f → ∀ n, (Node.file f).Holds n → ∀ s, n.span? = some s →
      ∃ c, (Parser.ofSource source).cursor.Precedes c ∧ c.peek ∈ tokensOf source ∧ s.start = c.peek.span.start ∧
        n.IsReadAt c) ∧
      ∀ es, SourceFile.parse name source = .error es → ∀ e ∈ es, ∃ x ∈ lexemes source, e.span.start = x.start := by
  constructor
  · intro f hf n hn s hs
    obtain ⟨rfl, herrors⟩ := parse_eq_ok.mp hf
    obtain ⟨c, hc, hstart, hread⟩ := Parser.anchored_file (Parser.ofSource_cursor source).1
      (Parser.ordered_ofSource source) rfl herrors n hn s hs
    exact ⟨c, hc, peek_mem_tokensOf hc, hstart, hread⟩
  · intro es hes e he
    unfold SourceFile.parse at hes
    dsimp only at hes
    split at hes
    · contradiction
    · cases hes
      exact exists_lexeme_of_error he

end SourceFile

namespace SplitDeclaration

/-- A class with an annotation, a modifier and its keyword on lines of their own.  The argument of the annotation begins
as a class literal does, and is none. -/
def source : String := "@A(B.C + 1)\nenum\nclass E\n"

/-- The class is read at its annotation. -/
theorem exists_declaration_anchored : ∃ f d c, SourceFile.parse "T.kt" source = .ok f ∧ f.declarations = [d] ∧
    c.peek ∈ tokensOf source ∧ d.span.start = c.peek.span.start ∧ (Node.class d).IsReadAt c := by
  have hone : (SourceFile.parse "T.kt" source).toOption.map (fun f => f.declarations.length) = some 1 := by decide +kernel
  cases h : SourceFile.parse "T.kt" source with
  | error es =>
    rw [h] at hone
    contradiction
  | ok f =>
    rw [h] at hone
    obtain ⟨d, hd⟩ := List.length_eq_one_iff.mp (Option.some.inj hone)
    have hpart : Node.class d ∈ (Node.file f).parts := by simp [Node.parts, hd]
    obtain ⟨c, -, hc, hstart, hread⟩ := (SourceFile.spans_point_at_tokens "T.kt" source).1 f h (.class d)
      (.part hpart (.self _)) d.span rfl
    exact ⟨f, d, c, rfl, hd, hc, hstart, hread⟩

end SplitDeclaration

end ServiceCatalog
