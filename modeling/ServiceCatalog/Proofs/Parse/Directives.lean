import Mathlib.Data.List.Forall2
import ServiceCatalog.Proofs.Parse.Nesting
import ServiceCatalog.Proofs.Token.Order

/-!
# Directives

The header of a file is read up to the first token that goes on with it.  What is behind is read as members, and a
member that is not kept is passed whatever it is made of, so a directive there is passed as well.

* `outside`: the tokens of a run that stand outside all brackets.
* `HasDirectives`: a run of tokens with just given directives, one behind the other.
* `Parser.file_header`: the header that is read of a file, by way of what each directive passes.
* `SourceFile.keepsDirectives_iff`: no directive is lost exactly if none stands behind the header.
-/

namespace ServiceCatalog

/-! ## Outside all brackets -/

/-- The brackets that are due behind a token, the innermost first.  One that closes nothing does not matter. -/
def dueBehind (due : List TokenKind) (k : TokenKind) : List TokenKind :=
  match k.closing? with
  | some closing => closing :: due
  | none => if k.isClosing = true ∧ due.head? = some k then due.tail else due

/-- The tokens of a run that stand outside all brackets, if given ones are due in front of it. -/
def outsideFrom (due : List TokenKind) : List Token → List Token
  | [] => []
  | t :: ts =>
    let others := outsideFrom (dueBehind due t.kind) ts
    if due = [] then t :: others else others

/-- The tokens of a run that stand outside all brackets. -/
def outside (ts : List Token) : List Token := outsideFrom [] ts

theorem dueBehind_plain {k : TokenKind} (hopening : k.isOpening = false) (hclosing : k.isClosing = false)
    (due : List TokenKind) : dueBehind due k = due := by
  cases k <;> first | rfl | contradiction

theorem dueBehind_closing {k : TokenKind} (h : k.isClosing = true) (due : List TokenKind) :
    dueBehind (k :: due) k = due := by
  cases k <;> first | rfl | contradiction

/-- Where no bracket may close nothing, a single token is no closing bracket. -/
theorem isClosing_eq_false {loose : Bool} {k : TokenKind}
    (h : k.isClosing = true → loose = true ∧ k ≠ .rightBrace) (hloose : loose = false) : k.isClosing = false := by
  by_contra hclosing
  have hloose' := (h (Bool.not_eq_false _ ▸ hclosing)).1
  exact Bool.false_ne_true (hloose.symm.trans hloose')

section Runs

variable {braces : Bool} {ts us inner : List Token} {t opening closing : Token}

theorem outside_cons (hopening : t.kind.isOpening = false) (hclosing : t.kind.isClosing = false) (ts : List Token) :
    outside (t :: ts) = t :: outside ts := by
  rw [outside, outsideFrom, dueBehind_plain hopening hclosing]
  rfl

theorem outsideFrom_cons (k : TokenKind) (due : List TokenKind) (t : Token) (ts : List Token) :
    outsideFrom (k :: due) (t :: ts) = outsideFrom (dueBehind (k :: due) t.kind) ts := rfl

/-- Inside brackets a run has no token outside, and closes none of them. -/
theorem outsideFrom_append {loose : Bool} (h : Run loose braces ts) (hloose : loose = false) (k : TokenKind)
    (due : List TokenKind) (us : List Token) : outsideFrom (k :: due) (ts ++ us) = outsideFrom (k :: due) us := by
  induction h generalizing k due us with
  | nil => rfl
  | @single loose braces t ts hopening hclosing _ ih =>
    have hplain := isClosing_eq_false hclosing hloose
    rw [List.cons_append, outsideFrom_cons, dueBehind_plain hopening hplain, ih hloose]
  | @group loose braces opening closing inner ts hpair _ _ _ ihinner ih =>
    have hopens : dueBehind (k :: due) opening.kind = closing.kind :: k :: due := by rw [dueBehind, hpair]
    rw [List.append_assoc, List.cons_append, List.cons_append, outsideFrom_cons, hopens, ihinner rfl, outsideFrom_cons,
      dueBehind_closing (TokenKind.isClosing_of_closing? hpair), ih hloose]

/-- Of a group only the bracket that opens it stands outside. -/
theorem outside_group (hpair : opening.kind.closing? = some closing.kind) (hinner : Run false true inner)
    (ts : List Token) : outside (opening :: inner ++ closing :: ts) = opening :: outside ts := by
  have hopens : dueBehind [] opening.kind = [closing.kind] := by rw [dueBehind, hpair]
  rw [outside, List.cons_append, outsideFrom, hopens, outsideFrom_append hinner rfl, outsideFrom_cons,
    dueBehind_closing (TokenKind.isClosing_of_closing? hpair)]
  rfl

/-- Behind a run nothing is due. -/
theorem outside_append {loose : Bool} (h : Run loose braces ts) (hloose : loose = false) (us : List Token) :
    outside (ts ++ us) = outside ts ++ outside us := by
  induction h with
  | nil => rfl
  | @single loose braces t ts hopening hclosing _ ih =>
    have hplain := isClosing_eq_false hclosing hloose
    rw [List.cons_append, outside_cons hopening hplain, outside_cons hopening hplain, ih hloose]
    rfl
  | @group loose braces opening closing inner ts hpair _ hinner _ _ ih =>
    have hsplit : opening :: inner ++ closing :: ts ++ us = opening :: inner ++ closing :: (ts ++ us) :=
      List.append_assoc ..
    rw [hsplit, outside_group hpair hinner, outside_group hpair hinner, ih hloose, List.cons_append]

theorem mem_of_mem_outsideFrom {due : List TokenKind} (h : t ∈ outsideFrom due ts) : t ∈ ts := by
  induction ts generalizing due with
  | nil => exact h
  | cons u us ih =>
    rw [outsideFrom] at h
    split at h
    · rcases List.mem_cons.mp h with rfl | h
      · exact List.mem_cons_self ..
      · exact List.mem_cons_of_mem _ (ih h)
    · exact List.mem_cons_of_mem _ (ih h)

end Runs

/-! ## Directives -/

/-- The directives of a file header. -/
inductive Directive where
  | «package»
  | «import»
  deriving DecidableEq, Repr

namespace Directive

/-- The keyword that a directive begins with. -/
def keyword : Directive → TokenKind
  | «package» => .package
  | «import» => .import

/-- The keywords of a directive that stand outside all brackets. -/
def among (d : Directive) (ts : List Token) : List Token := (outside ts).filter (·.kind = d.keyword)

/-- Paths of directives of one kind. -/
def only (d : Directive) (ps : List Path) : Directive → List Path := fun e => if e = d then ps else []

theorem only_self (d : Directive) (ps : List Path) : d.only ps d = ps := if_pos rfl

theorem only_of_ne {d e : Directive} (h : e ≠ d) (ps : List Path) : d.only ps e = [] := if_neg h

theorem only_nil (d : Directive) : d.only [] = fun _ => [] := by
  ext1 e
  rw [only, ite_self]

theorem only_append (d : Directive) (ps qs : List Path) :
    (fun e => d.only ps e ++ d.only qs e) = d.only (ps ++ qs) := by
  ext1 e
  by_cases he : e = d <;> simp [only, he]

theorem among_append {braces : Bool} {ts : List Token} (d : Directive) (h : Run false braces ts) (us : List Token) :
    d.among (ts ++ us) = d.among ts ++ d.among us := by
  rw [among, outside_append h rfl, List.filter_append]
  rfl

theorem mem_of_mem_among {d : Directive} {ts : List Token} {t : Token} (h : t ∈ d.among ts) : t ∈ ts :=
  mem_of_mem_outsideFrom (List.mem_of_mem_filter h)

end Directive

/-- Whether a token stands in front of a path: the one behind it is the first of the path. -/
def Token.Opens (ts : List Token) (t : Token) (path : Path) : Prop :=
  ∃ before first behind, ts = before ++ t :: first :: behind ∧ path.segments.head? = some ⟨first.lexeme, first.span⟩

theorem Token.Opens.append {ts : List Token} {t : Token} {path : Path} (h : t.Opens ts path)
    (before behind : List Token) : t.Opens (before ++ ts ++ behind) path := by
  obtain ⟨earlier, first, later, rfl, hpath⟩ := h
  exact ⟨before ++ earlier, first, later ++ behind, by simp, hpath⟩

/-- Whether a run of tokens has just directives with given paths, in their order. -/
structure HasDirectives (paths : Directive → List Path) (ts : List Token) : Prop where
  run : Run false false ts
  opens (d : Directive) : List.Forall₂ (Token.Opens ts) (d.among ts) (paths d)

namespace HasDirectives

variable {paths paths' : Directive → List Path} {ts us : List Token}

theorem append (h : HasDirectives paths ts) (h' : HasDirectives paths' us) :
    HasDirectives (fun d => paths d ++ paths' d) (ts ++ us) where
  run := h.run.append h'.run
  opens d := by
    rw [d.among_append h.run]
    refine List.rel_append ((h.opens d).imp fun t path ht => ?_) ((h'.opens d).imp fun t path ht => ?_)
    · exact ht.append [] us
    · have hopens := ht.append ts []
      rwa [List.append_nil] at hopens

/-- A run without directives in which no directive can begin. -/
theorem of_among (hrun : Run false false ts) (h : ∀ d : Directive, d.among ts = []) :
    HasDirectives (fun _ => []) ts :=
  ⟨hrun, fun d => (h d) ▸ .nil⟩

instance : AdmitsTypes (HasDirectives fun _ => []) where
  nil := .of_among .nil fun _ => rfl
  append h h' := h.append h'
  single {t} h := by
    obtain ⟨hopening, hclosing⟩ := TokenKind.not_isOpening_of_isPlain h
    refine .of_among (.plain hopening hclosing) fun d => ?_
    have hkind : t.kind ≠ d.keyword := by
      intro hkind
      rw [hkind] at h
      cases d <;> contradiction
    rw [Directive.among, outside_cons hopening hclosing]
    simp [outside, outsideFrom, hkind]
  group {opening closing inner} hpair hbrace hinner := by
    refine .of_among (.groupOf hpair (fun h => absurd h hbrace) hinner) fun d => ?_
    have hkind : opening.kind ≠ d.keyword := by
      intro hkind
      rw [hkind] at hpair
      cases d <;> contradiction
    rw [Directive.among, outside_group hpair hinner]
    simp [outside, outsideFrom, hkind]
  run h := h.run.mono id fun _ => rfl

/-- A directive begins with its keyword and the first identifier of its path. -/
theorem cons {d : Directive} {t first : Token} {path : Path} (hkind : t.kind = d.keyword)
    (hpath : path.segments.head? = some ⟨first.lexeme, first.span⟩) (h : HasDirectives (fun _ => []) (first :: ts)) :
    HasDirectives (d.only [path]) (t :: first :: ts) := by
  have hopening : t.kind.isOpening = false := by
    rw [hkind]
    cases d <;> rfl
  have hclosing : t.kind.isClosing = false := by
    rw [hkind]
    cases d <;> rfl
  have hrun : Run false false [t] := .plain hopening hclosing
  refine ⟨hrun.append h.run, fun e => ?_⟩
  have hothers : e.among (first :: ts) = [] := List.forall₂_nil_right_iff.mp (h.opens e)
  rw [← List.singleton_append, e.among_append hrun, hothers, List.append_nil, Directive.among,
    outside_cons hopening hclosing]
  by_cases he : e = d
  · subst he
    have hamong : (t :: outside []).filter (·.kind = e.keyword) = [t] := by simp [outside, outsideFrom, hkind]
    rw [hamong, e.only_self]
    exact .cons ⟨[], first, ts, rfl, hpath⟩ .nil
  · rw [Directive.only_of_ne he]
    have hne : t.kind ≠ e.keyword := by
      rw [hkind]
      cases d <;> cases e <;> first | exact absurd rfl he | nofun
    simp [outside, outsideFrom, hne]

end HasDirectives

/-! ## Headers -/

namespace TokenParser

open Cursor

variable {c c' : Cursor}

/-- A directive is read with its path, and has a token. -/
theorem leadsBy_directive {d : Directive} {path : Path} (hc : c.Sound) (hkind : c.kind = d.keyword)
    (hname : c.advance.kind = .identifier)
    (hpath : path.segments.head? = some ⟨c.advance.peek.lexeme, c.advance.peek.span⟩)
    (h : c.advance.advance.LeadsBy (HasDirectives fun _ => []) c') :
    c.LeadsBy (HasDirectives (d.only [path])) c' ∧ c'.size < c.size := by
  have hstart : c.kind ≠ .eof := by
    rw [hkind]
    cases d <;> nofun
  obtain ⟨ts, hts, heof, hrest⟩ := h
  have hall : c.rest = c.peek :: c.advance.peek :: ts ++ c'.rest := by
    rw [rest_eq_cons hc hstart, rest_eq_cons hc.advance (by rw [hname]; nofun), hts]
    rfl
  have hfirst : HasDirectives (fun _ => []) [c.advance.peek] := AdmitsTypes.of_kind rfl _ hname
  refine ⟨⟨_, hall, by rw [heof, eof_advance, eof_advance], .cons hkind hpath (hfirst.append hrest)⟩, ?_⟩
  rw [size, size, hall, List.length_append, List.length_cons]
  omega

/-- The package header is a directive. -/
theorem packageHeader_ok {path : Path} (hc : c.Sound) (hok : packageHeader c = .ok path c') :
    c.LeadsBy (HasDirectives (Directive.package.only [path])) c' := by
  unfold packageHeader TokenParser.path at hok
  obtain ⟨_, c₁, hkeyword, hok⟩ := bind_eq_ok.mp hok
  obtain ⟨hkind, -, rfl⟩ := expect_eq_ok.mp hkeyword
  obtain ⟨path', c₂, hpath, hok⟩ := bind_eq_ok.mp hok
  obtain ⟨start, _, hstart, hpath⟩ := bind_eq_ok.mp hpath
  cases hstart
  obtain ⟨first, c₃, hfirst, hpath⟩ := bind_eq_ok.mp hpath
  obtain ⟨hname, rfl, rfl⟩ := identifier_eq_ok.mp hfirst
  obtain ⟨others, c₄, hothers, hpath⟩ := bind_eq_ok.mp hpath
  obtain ⟨span, _, hspan, hpath⟩ := bind_eq_ok.mp hpath
  cases hspan
  cases hpath
  obtain ⟨_, c₅, hend, hok⟩ := bind_eq_ok.mp hok
  cases hok
  have hdots := takes_dotIdentifiers (S := HasDirectives fun _ => []) (P := fun _ => True) _ hc.advance.advance trivial
    others _ hothers
  have hbehind := Takes.eat (S := HasDirectives fun _ => []) (P := fun _ => True) (AdmitsTypes.of_kind rfl) _
    (hdots.sound hc.advance.advance) trivial _ c' hend
  exact (leadsBy_directive (d := .package) hc hkind hname rfl (hdots.trans hbehind)).1

/-- The path of an import begins with its first identifier. -/
theorem answers_importRest (mark start : Span) (first : Ident) :
    Answers (fun i : Import => i.path.segments.head? = some first) (importRest mark start first) := by
  have hpath : ∀ others isWildcard, Answers (fun i : Import => i.path.segments.head? = some first) (do
      let path : Path := ⟨first :: others, ← spanFrom start⟩
      let localName ← if isWildcard then pure none else importAlias
      let _ ← eat .semicolon
      return (⟨path, isWildcard, localName, ← spanFrom mark⟩ : Import)) := by
    intro others isWildcard
    refine .bind fun span => .ite (.bind fun _ => ?_) (.bind fun _ => ?_) <;>
      exact .bind fun _ => .bind fun _ => .pure rfl
  refine .bind fun others => .bind fun isWildcard => .ite (.bind fun _ => ?_) ?_ <;> exact hpath others isWildcard

/-- An import is a directive. -/
theorem importHeader_ok {i : Import} (hc : c.Sound) (hok : importHeader c = .ok i c') :
    c.LeadsBy (HasDirectives (Directive.import.only [i.path])) c' ∧ c'.size < c.size := by
  rw [importHeader_eq] at hok
  obtain ⟨_, c₁, hkeyword, hok⟩ := bind_eq_ok.mp hok
  obtain ⟨hkind, -, rfl⟩ := expect_eq_ok.mp hkeyword
  obtain ⟨start, _, hstart, hok⟩ := bind_eq_ok.mp hok
  cases hstart
  obtain ⟨first, c₂, hfirst, hok⟩ := bind_eq_ok.mp hok
  obtain ⟨hname, rfl, rfl⟩ := identifier_eq_ok.mp hfirst
  have hrest := takes_importRest (S := HasDirectives fun _ => []) (P := fun _ => True) _ _ _ _ hc.advance.advance
    trivial i c' hok
  exact leadsBy_directive (d := .import) hc hkind hname (answers_importRest _ _ _ _ i c' hok) hrest

end TokenParser

namespace SourceFile

/-- The paths of the directives of a file. -/
def paths (f : SourceFile) : Directive → List Path
  | .package => f.package.toList
  | .import => f.imports.map Import.path

/-- Whether a directive could still follow those of a file. -/
def MayHave (f : SourceFile) : Directive → Prop
  | .package => f.package = none ∧ f.imports = []
  | .import => True

end SourceFile

namespace Parser

/-- The package header of a file is a directive, if there is one. -/
theorem package_header {p q : Parser} {found : Option Path} (hp : p.cursor.Sound) (hread : p.package? = (found, q))
    (h : q.errors = []) : p.cursor.LeadsBy (HasDirectives (Directive.package.only found.toList)) q.cursor ∧
      (found = none → q.cursor.kind ≠ .package) := by
  rcases package?_reads p (by rw [hread]; exact h) with ⟨hkind, hsame⟩ | ⟨path, q', hpackage, hok⟩
  · obtain ⟨rfl, rfl⟩ := Prod.mk.inj (hread.symm.trans hsame)
    rw [Option.toList_none, Directive.only_nil]
    exact ⟨.refl, fun _ => hkind⟩
  · obtain ⟨rfl, rfl⟩ := Prod.mk.inj (hread.symm.trans hpackage)
    exact ⟨TokenParser.packageHeader_ok hp (reading_eq_ok.mp hok).1, nofun⟩

/-- The imports of a file are directives one behind the other, and no import follows them. -/
theorem imports_header {p q : Parser} {found : List Import} (hp : p.cursor.Sound)
    (hread : headers (·.isAt .import) TokenParser.importHeader p = (found, q)) (h : q.errors = []) :
    p.cursor.LeadsBy (fun ts => HasDirectives (Directive.import.only (found.map Import.path)) ts ∧
      (found = [] → ts = [])) q.cursor ∧ q.cursor.kind ≠ .import := by
  have hclean : (headers (·.isAt .import) TokenParser.importHeader p).2.errors = [] := by
    rw [hread]
    exact h
  have hleads := headers_leads (S := fun is ts => HasDirectives (Directive.import.only (is.map Import.path)) ts ∧
    (is = [] → ts = [])) ?_ ?_ ?_ p hp hclean
  · have htest := test_of_headers (S := Run false false) (fun c i c' hc hok => ?_) p hp hclean
    · rw [hread] at hleads htest
      exact ⟨hleads, fun hkind => Bool.false_ne_true (htest.symm.trans (Cursor.isAt_iff.mpr hkind))⟩
    · obtain ⟨hlead, hless⟩ := TokenParser.importHeader_ok hc hok
      exact ⟨hlead.mono fun _ => HasDirectives.run, hless⟩
  · rw [List.map_nil, Directive.only_nil]
    exact ⟨ClosedUnderAppend.nil, fun _ => rfl⟩
  · rintro i is ts us ⟨hts, -⟩ ⟨hus, -⟩
    have hall := hts.append hus
    rw [Directive.only_append, ← List.map_append] at hall
    exact ⟨hall, nofun⟩
  · exact fun c i c' hc hok => (TokenParser.importHeader_ok hc hok).1.mono fun ts hts => ⟨hts, nofun⟩

/-- Annotations of the file are no directives. -/
theorem annotations_header {p q : Parser} {found : List AnnotationUse} (hp : p.cursor.Sound)
    (hread : headers isAtFileAnnotation TokenParser.annotationUse p = (found, q)) (h : q.errors = []) :
    p.cursor.LeadsBy (HasDirectives fun _ => []) q.cursor := by
  have hclean : (headers isAtFileAnnotation TokenParser.annotationUse p).2.errors = [] := by
    rw [hread]
    exact h
  have hleads := headers_leads (S := fun _ => HasDirectives fun _ => []) ClosedUnderAppend.nil
    (fun _ _ _ _ => ClosedUnderAppend.append)
    (fun c a c' hc hok => TokenParser.takes_annotationUse (P := fun _ => True) c hc trivial a c' hok) p hp hclean
  rwa [hread] at hleads

/-- The header that is read of a file without an error has the directives of the file, and none that the file could
still have follows it. -/
theorem file_header {p p' : Parser} {name : String} {f : SourceFile} (hp : p.cursor.Sound)
    (hfile : p.file name = (f, p')) (h : p'.errors = []) :
    ∃ c : Cursor, p.cursor.LeadsBy (HasDirectives f.paths) c ∧ ∀ d, f.MayHave d → c.kind ≠ d.keyword := by
  unfold file at hfile
  rcases hannotations : headers isAtFileAnnotation TokenParser.annotationUse p with ⟨annotations, p₁⟩
  rcases hpackage : p₁.package? with ⟨package, p₂⟩
  rcases himports : headers (·.isAt .import) TokenParser.importHeader p₂ with ⟨imports, p₃⟩
  rcases hmembers : members false p₃ with ⟨found, p₄⟩
  simp only [hannotations, hpackage, himports, hmembers] at hfile
  obtain ⟨rfl, rfl⟩ := Prod.mk.inj hfile
  have h₃ : p₃.errors = [] := errors_members false p₃ (by rw [hmembers]; exact h)
  have h₂ : p₂.errors = [] := errors_headers p₂ (by rw [himports]; exact h₃)
  have h₁ : p₁.errors = [] := errors_package? p₁ (by rw [hpackage]; exact h₂)
  have hleads₁ := annotations_header hp hannotations h₁
  obtain ⟨hleads₂, hnone⟩ := package_header (hleads₁.sound hp) hpackage h₂
  obtain ⟨hleads₃, hend⟩ := imports_header (hleads₂.sound (hleads₁.sound hp)) himports h₃
  obtain ⟨as, has, heof₁, has'⟩ := hleads₁
  obtain ⟨bs, hbs, heof₂, hbs'⟩ := hleads₂
  obtain ⟨cs, hcs, heof₃, hcs', hfew⟩ := hleads₃
  refine ⟨p₃.cursor, ⟨as ++ bs ++ cs, ?_, ?_, ?_⟩, ?_⟩
  · rw [has, hbs, hcs]
    simp
  · exact heof₃.trans (heof₂.trans heof₁)
  · have hpaths : SourceFile.paths ⟨name, annotations, package, imports, found.filterMap Member.class?,
        found.filterMap Member.typeAlias?, p₄.cursor.spanFrom p.cursor.peek.span⟩ =
        fun d => [] ++ Directive.package.only package.toList d ++
          Directive.import.only (imports.map Import.path) d := by
      ext1 d
      cases d <;> simp [SourceFile.paths, Directive.only]
    rw [hpaths]
    exact (has'.append hbs').append hcs'
  · intro d hd
    cases d with
    | «import» => exact hend
    | «package» =>
      obtain ⟨hpackage', himports'⟩ := hd
      have hsame : p₂.cursor.rest = p₃.cursor.rest := by rw [hcs, hfew himports', List.nil_append]
      have hkind : p₃.cursor.kind = p₂.cursor.kind := by
        rw [Cursor.kind, Cursor.kind, Cursor.peek, Cursor.peek, Cursor.peekNth, Cursor.peekNth, hsame, heof₃]
      rw [hkind]
      exact hnone hpackage'

end Parser

/-! ## Directives of a file -/

/-- Whether a token is the first one of its line. -/
def Token.BeginsLine (all : List Token) (t : Token) : Prop := t.newlineBefore = true ∨ all.head? = some t

instance (all : List Token) (t : Token) : Decidable (t.BeginsLine all) := inferInstanceAs (Decidable (_ ∨ _))

/-- The keywords of a directive that begin a line of the file and stand outside all brackets of a part of it. -/
def Directive.onLines (d : Directive) (all ts : List Token) : List Token := (d.among ts).filter (·.BeginsLine all)

/-- Whether no directive of a file is lost: each one outside all brackets that begins a line has its path among those of
the file, in their order. -/
def SourceFile.KeepsDirectives (all : List Token) (f : SourceFile) : Prop :=
  ∀ d : Directive, List.SublistForall₂ (Token.Opens all) (d.onLines all all) (f.paths d)

section Split

variable {α β : Type} {R : α → β → Prop} {as : List α} {bs : List β}

theorem sublistForall₂_filter (h : List.Forall₂ R as bs) (p : α → Bool) : List.SublistForall₂ R (as.filter p) bs := by
  induction h with
  | nil => exact .nil
  | cons hfirst _ ih =>
    rw [List.filter_cons]
    split
    · exact .cons hfirst ih
    · exact .cons_right ih

theorem exists_of_mem_forall₂ (h : List.Forall₂ R as bs) {b : β} (hb : b ∈ bs) : ∃ a ∈ as, R a b := by
  induction h with
  | nil => exact absurd hb List.not_mem_nil
  | cons hfirst _ ih =>
    rcases List.mem_cons.mp hb with rfl | hb
    · exact ⟨_, List.mem_cons_self .., hfirst⟩
    · obtain ⟨a, ha, hab⟩ := ih hb
      exact ⟨a, List.mem_cons_of_mem _ ha, hab⟩

theorem exists_of_mem_sublistForall₂ (h : List.SublistForall₂ R as bs) {a : α} (ha : a ∈ as) : ∃ b ∈ bs, R a b := by
  obtain ⟨kept, hkept, hsublist⟩ := List.sublistForall₂_iff.mp h
  obtain ⟨b, hb, hab⟩ := exists_of_mem_forall₂ (R := flip R) hkept.flip ha
  exact ⟨b, hsublist.subset hb, hab⟩

end Split

/-- No path stands both behind a token of a part of the file and behind one of what follows. -/
theorem Token.Opens.disjoint {header members : List Token} {t t' : Token} {path : Path}
    (hordered : (header ++ members).Pairwise fun t u => t.span.start.Before u.span.start) (ht : t ∈ members)
    (h : t.Opens (header ++ members) path) (h' : t'.Opens header path) : False := by
  have hbefore : ∀ u ∈ header, ∀ v ∈ members, u.span.start.Before v.span.start := (List.pairwise_append.mp hordered).2.2
  obtain ⟨before, first, behind, hall, hpath⟩ := h
  obtain ⟨before', first', behind', hheader, hpath'⟩ := h'
  have hfirst : first ∈ members := by
    rcases List.append_eq_append_iff.mp hall with ⟨us, -, hmembers⟩ | ⟨us, hheader', hmembers⟩
    · rw [hmembers]
      simp
    · cases us with
      | nil =>
        rw [← List.nil_append members, ← hmembers]
        simp
      | cons u us =>
        -- The token would stand in both parts.
        obtain ⟨rfl, -⟩ := List.cons.inj hmembers
        refine absurd (hbefore t ?_ t ht) (Position.Before.irrefl _)
        rw [hheader']
        simp
  have hfirst' : first' ∈ header := by
    rw [hheader]
    simp
  have hspan : first'.span = first.span := by
    have hident := hpath'.symm.trans hpath
    rw [Option.some.injEq, Ident.mk.injEq] at hident
    exact hident.2
  have hplace := hbefore first' hfirst' first hfirst
  rw [hspan] at hplace
  exact Position.Before.irrefl _ hplace

/-- Behind a header with the directives of a file each further directive is lost. -/
theorem SourceFile.keepsDirectives_iff_of_header {f : SourceFile} {header members : List Token}
    (hordered : (header ++ members).Pairwise fun t u => t.span.start.Before u.span.start)
    (hheader : HasDirectives f.paths header) :
    f.KeepsDirectives (header ++ members) ↔ ∀ d : Directive, d.onLines (header ++ members) members = [] := by
  have hsplit : ∀ d : Directive, d.onLines (header ++ members) (header ++ members) =
      d.onLines (header ++ members) header ++ d.onLines (header ++ members) members := by
    intro d
    rw [Directive.onLines, d.among_append hheader.run, List.filter_append]
    rfl
  constructor
  · intro hkeeps d
    by_contra hlost
    obtain ⟨t, ht⟩ := List.exists_mem_of_ne_nil _ hlost
    have hmembers : t ∈ members := Directive.mem_of_mem_among (List.mem_of_mem_filter ht)
    obtain ⟨path, hpath, hopens⟩ := exists_of_mem_sublistForall₂ (hkeeps d)
      ((hsplit d).symm ▸ List.mem_append_right _ ht)
    obtain ⟨t', -, hopens'⟩ := exists_of_mem_forall₂ (hheader.opens d) hpath
    exact hopens.disjoint hordered hmembers hopens'
  · intro hnone d
    rw [hsplit d, hnone d, List.append_nil]
    refine sublistForall₂_filter ((hheader.opens d).imp fun t path ht => ?_) _
    exact ht.append [] members

/-- Which directives a file keeps that is read: the tokens of the file are split into a header, the directives of which
are those of the file, and members, which do not begin with a directive that the file could still have.  No directive is
lost exactly if none begins a line among the members. -/
theorem SourceFile.keepsDirectives_iff {name source : String} {f : SourceFile}
    (h : SourceFile.parse name source = .ok f) :
    ∃ header members, tokensOf source = header ++ members ∧ HasDirectives f.paths header ∧
      (∀ d, f.MayHave d → ∀ t ∈ members.head?, t.kind ≠ d.keyword) ∧
      (f.KeepsDirectives (tokensOf source) ↔ ∀ d : Directive, d.onLines (tokensOf source) members = []) := by
  unfold SourceFile.parse at h
  rcases hfile : (Parser.ofSource source).file name with ⟨f', p'⟩
  simp only [hfile] at h
  split at h
  · next herrors =>
    cases h
    obtain ⟨hsound, htokens⟩ := Parser.ofSource_cursor source
    obtain ⟨c, ⟨header, hrest, heof, hheader⟩, hend⟩ := Parser.file_header hsound hfile (List.isEmpty_iff.mp herrors)
    have hall : tokensOf source = header ++ (c.rest ++ [c.eof]) := by
      rw [htokens, hrest, heof, List.append_assoc]
    have hordered := tokens_ordered source
    refine ⟨header, c.rest ++ [c.eof], hall, hheader, fun d hd t ht => ?_, ?_⟩
    · have hpeek : c.peek = t := by
        obtain ⟨previous, _ | ⟨u, us⟩, eof⟩ := c <;> exact Option.some.inj ht
      exact hpeek ▸ hend d hd
    · rw [hall]
      exact keepsDirectives_iff_of_header (hall ▸ hordered) hheader
  · contradiction

/-! ### A semicolon among the imports -/

namespace StraySemicolon

/-- Two imports with an empty declaration between them. -/
def text : String := "import a.B;\n;\nimport c.D\n"

theorem parse_isOk : (SourceFile.parse "T.kt" text).toBool = true := by
  with_unfolding_all rfl

/-- One of the imports is kept. -/
theorem imports_text : (SourceFile.parse "T.kt" text).toOption.map (·.imports.length) = some 1 := by
  with_unfolding_all rfl

/-- Both of them begin a line outside all brackets. -/
theorem onLines_text : (Directive.import.onLines (tokensOf text) (tokensOf text)).length = 2 := by
  with_unfolding_all rfl

/-- The second import is among the members. -/
theorem split_text : ∃ f, SourceFile.parse "T.kt" text = .ok f ∧
    ∃ header members, tokensOf text = header ++ members ∧ HasDirectives f.paths header ∧
      (∀ d, f.MayHave d → ∀ t ∈ members.head?, t.kind ≠ d.keyword) ∧
      (f.KeepsDirectives (tokensOf text) ↔ ∀ d : Directive, d.onLines (tokensOf text) members = []) := by
  have hok := parse_isOk
  cases h : SourceFile.parse "T.kt" text with
  | ok f => exact ⟨f, rfl, SourceFile.keepsDirectives_iff h⟩
  | error es =>
    rw [h] at hok
    contradiction

/-- A file that is read may have lost a directive. -/
theorem not_forall_keepsDirectives : ¬ ∀ (name source : String) (f : SourceFile),
    SourceFile.parse name source = .ok f → f.KeepsDirectives (tokensOf source) := by
  intro hall
  have himports := imports_text
  cases h : SourceFile.parse "T.kt" text with
  | error es =>
    rw [h] at himports
    contradiction
  | ok f =>
    rw [h] at himports
    have hlength : f.imports.length = 1 := Option.some.inj himports
    obtain ⟨paths, hpaths, hsublist⟩ := List.sublistForall₂_iff.mp (hall "T.kt" text f h .import)
    have hle : paths.length ≤ (f.imports.map Import.path).length := hsublist.length_le
    rw [← hpaths.length_eq, onLines_text, List.length_map, hlength] at hle
    omega

end StraySemicolon

end ServiceCatalog
