import ServiceCatalog.Proofs.Parse.Insertion
import ServiceCatalog.Proofs.Parse.Termination

/-!
# A function or a property in a file

The headers of a file stand in front of all members, so they are read alike where a function or a property is inserted
between the members.
-/

namespace ServiceCatalog

open TokenParser

/-! ## Headers in front of a seam -/

theorem Cursor.peekNth_succ {c : Cursor} (hc : c.Sound) (hend : c.kind ≠ .eof) (n : ℕ) :
    c.peekNth (n + 1) = c.advance.peekNth n := by
  obtain ⟨t, ts, hrest, -⟩ := hc.exists_cons hend
  obtain ⟨previous, rest, eof⟩ := c
  subst hrest
  rfl

namespace TokenParser

theorem consumes_annotationTail {P : Cursor → Prop} (mark : Token) : Consumes P (annotationTail type value mark) := by
  have hbody : ∀ {P : Cursor → Prop} (start : Span) (useSite : Option Ident),
      Consumes P (annotationBody type value start useSite) := fun start useSite =>
    .of_strict fun n => strict_annotationBody (forward_type n) (forward_value n) start useSite
  unfold annotationTail
  refine .ite_test (.bind .identifier (fun _ => .identifier) fun _ n => ?_) fun c hc _ a k hok => ?_
  · exact .bind .next fun _ => .bind (.pure _) fun _ =>
      (strict_annotationBody (forward_type n) (forward_value n) _ _).fewer
  · obtain ⟨_, c₁, hpure, hok⟩ := bind_eq_ok.mp hok
    cases hpure
    exact hbody (P := fun _ => True) _ _ c hc trivial a k hok

/-- An annotation has a mark and a name. -/
theorem size_annotationUse {c k : Cursor} {a : AnnotationUse} (hc : c.Sound) (hok : annotationUse c = .ok a k) :
    k.size + 2 ≤ c.size :=
  have hmark : Consumes (fun _ => True) (expect .at) := .expect nofun
  size_of_bind hmark (fun _ => .expect _) consumes_annotationTail hc trivial hok

end TokenParser

namespace Seam

variable {s : Seam} {c c' : Cursor}

/-- Whether the next two tokens aim an annotation at the file. -/
def aimsAtFile (c : Cursor) : Bool := c.peek.lexeme == "file" && c.secondKind == .colon

theorem isAtFileAnnotation_eq (hc : c.Sound) :
    Parser.isAtFileAnnotation c = (c.isAt .at && aimsAtFile c.advance) := by
  unfold Parser.isAtFileAnnotation aimsAtFile
  cases hat : c.isAt .at with
  | false => rfl
  | true =>
    have hend : c.kind ≠ .eof := ne_eof_of_isAt hat nofun
    rw [Cursor.peekNth_succ hc hend 0, Cursor.peekNth_succ hc hend 1, Bool.true_and, Bool.true_and]
    rfl

/-- Whether an annotation is aimed at the file is the same near a seam where no such word begins the second file, unless
it is so behind the seam. -/
theorem aimsAtFile_of_near (hs : s.Sound) (hopen : s.isClosed = false)
    (hlexeme : ∀ t ts, s.rest' = t :: ts → t.lexeme ≠ "file") (hnear : s.Near c c') :
    aimsAtFile c' = aimsAtFile c ∨ aimsAtFile c = true ∧ c.size = s.rest.length := by
  rcases hnear.cases with hat | hbefore
  · have hfalse' : aimsAtFile c' = false := by
      obtain ⟨previous', rest', eof'⟩ := c'
      obtain rfl : rest' = s.rest' := hat.rest'
      cases hrest' : s.rest' with
      | nil =>
        have hsecond : (⟨previous', [], eof'⟩ : Cursor).secondKind = .eof := hnear.sound'.eof
        rw [aimsAtFile, hsecond]
        exact Bool.and_false _
      | cons t ts =>
        have hword : (t.lexeme == "file") = false := beq_eq_false_iff_ne.mpr (hlexeme t ts hrest')
        rw [aimsAtFile, Cursor.peek_cons, hword]
        rfl
    cases hfirst : aimsAtFile c with
    | false => exact .inl hfalse'
    | true => exact .inr ⟨rfl, by rw [Cursor.size, hat.rest]⟩
  · left
    have hadvance := hbefore.advance fun hclosed => by rw [hopen] at hclosed; contradiction
    have hnext : c'.advance.isAt .colon = c.advance.isAt .colon := hadvance.isAt hs (.inr (by decide))
    rw [Cursor.isAt, Cursor.isAt, hbefore.secondKind, hbefore.secondKind'] at hnext
    rw [aimsAtFile, aimsAtFile, hbefore.same.lexeme, hnext]

/-- Whether an annotation of the file comes next is the same near a seam, or the annotation goes beyond it. -/
theorem decides_aimedAtFile (hs : s.Sound) (hopen : s.isClosed = false)
    (hlexeme : ∀ t ts, s.rest' = t :: ts → t.lexeme ≠ "file") :
    s.Decides (fun _ => True) Parser.isAtFileAnnotation Parser.isAtFileAnnotation annotationUse := by
  intro c c' hnear _
  by_cases hfar : c.kind ≠ .at ∨ c.size ≤ s.rest.length
  · refine Decides.of_first (P := fun c => c.kind ≠ .at ∨ c.size ≤ s.rest.length) hs .at rfl (by decide)
      (fun c htest => ?_) (fun c hc _ a k hok => ?_) (fun c c' hbefore hkind hfar => ?_) c c' hnear hfar
    · simp only [Parser.isAtFileAnnotation, Bool.and_eq_true] at htest
      exact Cursor.isAt_iff.mp htest.1.1
    · have := size_annotationUse hc hok
      omega
    · have := hbefore.length_lt
      exact hfar.elim (absurd hkind) fun hsize => by omega
  · rw [not_or, not_not, Nat.not_le] at hfar
    have hbefore := before_of_length_lt hnear hfar.2
    have hsame : c'.isAt .at = c.isAt .at := congrArg (· == TokenKind.at) hbefore.same.kind
    have hadvance := hbefore.advance fun hclosed => by rw [hopen] at hclosed; contradiction
    rw [DecidesAt, isAtFileAnnotation_eq hnear.sound, isAtFileAnnotation_eq hnear.sound', hsame,
      Cursor.isAt_iff.mpr hfar.1, Bool.true_and, Bool.true_and]
    refine (aimsAtFile_of_near hs hopen hlexeme hadvance).imp_right ?_
    rintro ⟨haims, hsize⟩
    refine ⟨hopen, haims, fun a k hok => ?_⟩
    have := size_annotationUse hnear.sound hok
    rw [Cursor.size_advance] at hsize
    omega

/-- Headers that end in front of a seam are read alike in both files, by induction on how they are read. -/
theorem headers_of_near {α : Type} [HasPlaces α] {t : Cursor → Bool} {header : TokenParser α}
    (ht : s.Decides (fun _ => True) t t header) (hp : Follows s (fun _ => True) header header)
    (hpassed : ∀ c : Cursor, c.Sound → t c = true → (stop (header c)).size < c.size) {p : Parser}
    (hnear : s.Near p.cursor c') (herrors : (Parser.headers t header p).2.errors = [])
    (hk : s.rest.length ≤ (Parser.headers t header p).2.cursor.size) :
    ∃ as' k', Parser.headers t header ⟨c', []⟩ = (as', ⟨k', []⟩) ∧
      unplaced as' = unplaced (Parser.headers t header p).1 ∧ s.Near (Parser.headers t header p).2.cursor k' := by
  fun_induction Parser.headers t header p generalizing c' with
  | case1 p htest found q hstep hless others q' hothers ih =>
    rw [hothers] at ih
    have hq : q.errors = [] := Parser.errors_headers q (by rw [hothers]; exact herrors)
    obtain ⟨a, rfl, hok⟩ := Parser.exists_reading_eq_ok hstep hq
    have hok := (Parser.reading_eq_ok.mp hok).1
    have hmoves := precedes_of_ok hp.moves hnear.sound hok
    have hsize : q'.cursor.size ≤ q.cursor.size := by
      have := (Parser.precedes_headers hp.moves hpassed (p := q) (hmoves.sound hnear.sound)).size_le
      rwa [hothers] at this
    have hreached := Nat.le_trans hk hsize
    have htest' : t c' = true := by
      rcases ht p.cursor c' hnear trivial with heq | ⟨-, -, hbeyond⟩
      · exact heq.trans htest
      · exact absurd (hbeyond a q.cursor hok) (Nat.not_lt.mpr hreached)
    obtain ⟨a', d', hok', ha, hnear₁⟩ := (hp.tracks p.cursor c' hnear trivial).ok a q.cursor hok (.inr hreached)
    obtain ⟨as', k', hothers', has, hnear₂⟩ := ih hnear₁ herrors hk
    refine ⟨a' :: as', k', ?_, congrArg₂ List.cons ha has, hnear₂⟩
    have hless' := (hnear.size_lt_iff hnear₁).mpr hless
    rw [Parser.headers, if_pos htest']
    simp only [Parser.reading, hok', hless', if_true, hothers', Option.toList_some, List.singleton_append]
  | case2 p htest found q hstep hless =>
    exact absurd (Parser.passed_header hp.moves hpassed hnear.sound htest hstep).2 hless
  | case3 p htest =>
    have htest' : ¬t c' = true := by
      rcases ht p.cursor c' hnear trivial with heq | ⟨-, htrue, -⟩
      · rwa [heq]
      · exact absurd htrue htest
    exact ⟨[], c', by rw [Parser.headers, if_neg htest'], rfl, hnear⟩

/-- The package header that ends in front of a seam is read alike in both files. -/
theorem package?_of_near (hs : s.Sound) {p : Parser} (hnear : s.Near p.cursor c') (herrors : p.package?.2.errors = [])
    (hk : s.rest.length ≤ p.package?.2.cursor.size) : ∃ path' k', Parser.package? ⟨c', []⟩ = (path', ⟨k', []⟩) ∧
      unplaced path' = unplaced p.package?.1 ∧ s.Near p.package?.2.cursor k' := by
  have hat : c'.isAt .package = p.cursor.isAt .package := hnear.isAt hs (.inr (by decide))
  rcases p.package?_reads herrors with ⟨hkind, hnone⟩ | ⟨path, q, hsome, hok⟩
  · rw [hnone]
    refine ⟨none, c', ?_, rfl, hnear⟩
    rw [Parser.package?, if_neg]
    rw [hat, Cursor.isAt_iff]
    exact hkind
  · have hok := (Parser.reading_eq_ok.mp hok).1
    rw [hsome] at hk ⊢
    obtain ⟨path', d', hok', hpath, hnear'⟩ := ((Follows.packageHeader (P := fun _ => True) hs).tracks p.cursor c' hnear
      trivial).ok path q.cursor hok (.inr hk)
    refine ⟨some path', d', ?_, congrArg some hpath, hnear'⟩
    have hpackage : c'.isAt .package = true := by
      rw [hat, Cursor.isAt_iff]
      exact (expect_eq_ok.mp (bind_eq_ok.mp hok).choose_spec.choose_spec.1).1
    rw [Parser.package?, if_pos hpackage]
    simp only [Parser.reading, hok']

end Seam

/-! ## Files -/

namespace Parser

/-- The parser behind the headers of a file. -/
def behindHeaders (p : Parser) : Parser :=
  (headers (·.isAt .import) importHeader (headers isAtFileAnnotation annotationUse p).2.package?.2).2

/-- Whether a class or a type alias begins at a cursor among the members of a file or in a body, or a body ends there. -/
def HasBoundary (p : Parser) (q : Cursor) : Prop :=
  Boundary q p.behindHeaders.cursor (members false p.behindHeaders).1 (members false p.behindHeaders).2.cursor

end Parser

theorem unplaced_typeAliases {ms ms' : List Member} (h : unplaced ms' = unplaced ms) :
    unplaced (ms'.filterMap Member.typeAlias?) = unplaced (ms.filterMap Member.typeAlias?) := by
  have haliases : ∀ ms : List Member,
      unplaced (ms.filterMap Member.typeAlias?) = (unplaced ms).filterMap Member.typeAlias? := by
    intro ms
    show List.map unplaced _ = List.filterMap _ (List.map unplaced ms)
    rw [List.map_filterMap, List.filterMap_map]
    refine List.filterMap_congr fun m _ => ?_
    cases m <;> rfl
  rw [haliases, haliases, h]

theorem unplaced_file {name : String} {as as' : List AnnotationUse} {package package' : Option Path}
    {imports imports' : List Import} {ms ms' : List Member} {span span' : Span} (has : unplaced as' = unplaced as)
    (hpackage : unplaced package' = unplaced package) (himports : unplaced imports' = unplaced imports)
    (hms : unplaced ms' = unplaced ms) :
    unplaced (⟨name, as', package', imports', ms'.filterMap Member.class?, ms'.filterMap Member.typeAlias?, span'⟩ :
      SourceFile) = unplaced ⟨name, as, package, imports, ms.filterMap Member.class?, ms.filterMap Member.typeAlias?, span⟩ := by
  show SourceFile.mk _ _ _ _ _ _ _ = SourceFile.mk _ _ _ _ _ _ _
  rw [has, hpackage, himports, Seam.unplaced_classes hms, unplaced_typeAliases hms]

/-- Where a function or a property is inserted between the members of a file that is read without an error, the file is
read without an error, and as the same file apart from places. -/
theorem Seam.Inserts.exists_file {s : Seam} {q q' c' : Cursor} (h : s.Inserts q q')
    (hlexeme : ∀ t ts, s.rest' = t :: ts → t.lexeme ≠ "file") {name : String} {p : Parser} (hnear : s.Near p.cursor c')
    (herrors : (p.file name).2.errors = []) (hplace : p.HasBoundary q) :
    ∃ f' k', Parser.file name ⟨c', []⟩ = (f', ⟨k', []⟩) ∧ unplaced f' = unplaced (p.file name).1 := by
  let p₁ := (Parser.headers Parser.isAtFileAnnotation annotationUse p).2
  let p₂ := p₁.package?.2
  let p₃ := (Parser.headers (·.isAt .import) importHeader p₂).2
  let p₄ := (Parser.members false p₃).2
  have herrors₃ : p₃.errors = [] := Parser.errors_members false p₃ herrors
  have herrors₂ : p₂.errors = [] := Parser.errors_headers p₂ herrors₃
  have herrors₁ : p₁.errors = [] := Parser.errors_package? p₁ herrors₂
  have h₁ : p.cursor.Precedes p₁.cursor :=
    Parser.precedes_headers forward_annotationUse Parser.passed_fileAnnotation hnear.sound
  have h₂ : p₁.cursor.Precedes p₂.cursor := Parser.precedes_package? (h₁.sound hnear.sound)
  have hp₂ := h₂.sound (h₁.sound hnear.sound)
  have h₃ : p₂.cursor.Precedes p₃.cursor := Parser.precedes_headers forward_importHeader Parser.passed_import hp₂
  have hp₃ := h₃.sound hp₂
  have hk₃ : s.rest.length ≤ p₃.cursor.size := by
    have := (hplace.precedes hp₃).size_le
    rwa [h.size] at this
  have hk₂ := Nat.le_trans hk₃ h₃.size_le
  have hk₁ := Nat.le_trans hk₂ h₂.size_le
  obtain ⟨as', c₁', has', has, hnear₁⟩ := headers_of_near (decides_aimedAtFile h.sound h.isOpen hlexeme)
    (.annotationUse h.sound) Parser.passed_fileAnnotation hnear herrors₁ hk₁
  obtain ⟨package', c₂', hpackage', hpackage, hnear₂⟩ := package?_of_near h.sound hnear₁ herrors₂ hk₂
  obtain ⟨imports', c₃', himports', himports, hnear₃⟩ := headers_of_near
    (Decides.isAt h.sound (.inr (by decide))) (.importHeader h.sound) Parser.passed_import hnear₂ herrors₃ hk₃
  have hends : p₄.cursor.kind = .eof := by
    have := Parser.endsMembers_members false hp₃
    simpa [Parser.endsMembers, Cursor.isAtEnd, Cursor.isAt] using this
  obtain ⟨ms', k', hreads, hms, hkind, -⟩ := h.exists_reads hplace hnear₃ (.inl hends)
  have hends' : Parser.endsMembers false k' = true := by
    have hend' : k'.kind = .eof := hkind.trans hends
    simp [Parser.endsMembers, Cursor.isAtEnd, Cursor.isAt, hend']
  have hmembers' := hreads.members_eq hnear₃.sound' hends'
  have hfile' : Parser.file name ⟨c', []⟩ = (⟨name, as', package', imports', ms'.filterMap Member.class?,
      ms'.filterMap Member.typeAlias?, k'.spanFrom c'.peek.span⟩, ⟨k', []⟩) := by
    simp only [Parser.file, has', hpackage', himports', hmembers']
  exact ⟨_, k', hfile', unplaced_file has hpackage himports hms⟩

end ServiceCatalog
